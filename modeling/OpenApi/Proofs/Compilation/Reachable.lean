import OpenApi.Proofs.Compilation.Coherent
/-! # Reachable compilations

The schemas of a document are compiled one after the other. If all of them compile, no reference
is left without a codec; if one fails, the references that it was compiling stay without one. -/
namespace OpenApi

open Relation (TransGen ReflTransGen)
open Catalogue (Coherent)

/-- Compiled so far are some schemas of the document, and none of them failed. -/
inductive Settled (document : Value) : Compilation → Prop where
  | start : Settled document .start
  | compiled {c d : Compilation} {node : Value} {codec : Codec} (h : Settled document c)
      (run : (compileSchema document node).run c = (.ok codec, d)) : Settled document d

/-- Compiled so far are some schemas of the document, and some of them may have failed. -/
inductive Reachable (document : Value) : Compilation → Prop where
  | start : Reachable document .start
  | compiled {c d : Compilation} {node : Value} {outcome : Except Fault Codec}
      (h : Reachable document c) (run : (compileSchema document node).run c = (outcome, d)) :
      Reachable document d

variable {document node : Value} {abandoned pending : List String} {c d : Compilation}
  {codec : Codec} {e : Fault}

theorem compileSchema_follows (h : ∀ p ∈ pending, p ∈ abandoned) :
    Follows (Waits document abandoned pending) (Stopped document abandoned) pending Codec
      (compileSchema document node) ((Schema.ofValue node).compile asked) :=
  compile_follows stopped_of_waits fun _ _ => modelCodec_follows _ fun p hp => Or.inl (h p hp)

/-- A schema that compiles is compiled from what the catalogue answers afterwards. -/
theorem compileSchema_ok (hc : Coherent document abandoned abandoned c.catalogue)
    (run : (compileSchema document node).run c = (.ok codec, d)) :
    Coherent document abandoned abandoned d.catalogue ∧ c.catalogue.Extends d.catalogue ∧
      (Schema.ofValue node).compile (d.catalogue.answer abandoned) = .ok codec := by
  obtain ⟨hd, hcd, hcodec⟩ := (compileSchema_follows (fun _ hp => hp) c hc).of_run run
  refine ⟨hd, hcd, ?_⟩
  rw [← compile_asked]
  exact hcodec _ (Catalogue.extends_refl _)

theorem Settled.coherent (h : Settled document c) : Coherent document [] [] c.catalogue := by
  induction h with
  | start => exact Catalogue.coherent_empty document
  | compiled _ run ih => exact (compileSchema_ok ih run).1

theorem Catalogue.Coherent.abandon {k : Catalogue} (h : Coherent document abandoned pending k) :
    Coherent document pending pending k where
  ref_eq := h.ref_eq
  owner_eq := h.owner_eq
  owned := h.owned
  defined_eq := h.defined_eq
  defined_owned := h.defined_owned
  pending_iff := h.pending_iff
  pending_known := h.pending_known
  abandoned_pending := List.Subset.refl pending
  origin ha := by
    obtain ⟨target, ht, hname, horigin⟩ := h.origin ha
    refine ⟨target, ht, hname, fun t hat => ?_⟩
    obtain ⟨waiting, hw, hcomp⟩ := horigin t hat
    exact ⟨waiting, fun p hp => (hw p hp).imp_left fun hpa => h.abandoned_pending hpa, hcomp⟩

theorem Reachable.coherent (h : Reachable document c) :
    ∃ abandoned, Coherent document abandoned abandoned c.catalogue := by
  induction h with
  | start => exact ⟨[], Catalogue.coherent_empty document⟩
  | @compiled c d node outcome _ run ih =>
    obtain ⟨abandoned, hc⟩ := ih
    cases outcome with
    | ok codec => exact ⟨abandoned, (compileSchema_ok hc run).1⟩
    | error e =>
      obtain ⟨pending, hd⟩ := (compileSchema_follows (fun _ hp => hp) c hc).of_failed_run run
      exact ⟨pending, hd.abandon⟩

theorem Catalogue.Coherent.model_of_lookup {k : Catalogue} (h : Coherent document [] [] k)
    {r : String} {a : Alias} (ha : k.lookup r = some a) :
    ∃ target t, Pointer.resolve document r = .ok target ∧
      k.answer [] r = .ok (.model a.name r (some t)) ∧
      ∃ waiting : List String, (∀ p ∈ waiting, ReflTransGen (Refers document) p r) ∧
        (Schema.ofValue target).compile (k.answer waiting) = .ok t := by
  obtain ⟨target, ht, -, horigin⟩ := h.origin ha
  cases hat : a.target with
  | none => exact absurd ((h.pending_iff ha).mp hat) List.not_mem_nil
  | some t =>
    obtain ⟨waiting, hw, hcomp⟩ := horigin t hat
    refine ⟨target, t, ht, ?_, waiting, fun p hp => (hw p hp).resolve_left List.not_mem_nil, hcomp⟩
    simp [Catalogue.answer, ha, hat, Alias.codec, h.ref_eq ha]

end OpenApi
