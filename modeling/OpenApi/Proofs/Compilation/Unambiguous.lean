import OpenApi.Proofs.Codec.Unambiguous
import OpenApi.Proofs.Compilation.Grounded
/-! # One notation, one codec

The models of a document are known by their names, as a name belongs to one reference and a reference
has one alias. So codecs that are compiled in one sequence and have one notation are the same codec,
if their properties have plain names and their literals are scalars. -/
namespace OpenApi

open Catalogue (Coherent)

/-- A name of letters, digits, underscores, hyphens and dots. -/
def Key.IsPlain (k : Key) : Prop :=
  ∃ s, k = .str s ∧ s ≠ "" ∧ ∀ c ∈ s.toList, c.isAlphanum = true ∨ c ∈ ['_', '-', '.']

theorem Key.IsPlain.endsBeforeMark {k : Key} (h : k.IsPlain) : k.EndsBeforeMark := by
  obtain ⟨s, rfl, -, hs⟩ := h
  refine ⟨s, rfl, fun c hc => ?_⟩
  refine ⟨?_, ?_, ?_⟩ <;> rintro rfl <;> exact absurd (hs _ hc) (by decide)

/-- The properties that are declared in the codec have plain names, and its literals are scalars. -/
def Codec.IsPlainlyMade (c : Codec) : Prop := c.Made Key.IsPlain Value.IsScalar fun _ => True

/-- The codec is that of a schema in the sequence, or of a model that was defined on the way. -/
def Synthesized (document : Value) (nodes : List Value) (codec : Codec) : Prop :=
  .ok codec ∈ (compileEach document nodes .start).1 ∨
    ∃ name, (name, codec) ∈ (compileEach document nodes .start).2.catalogue.models

namespace Catalogue

variable {document : Value} {abandoned pending : List String} {k : Catalogue} {codec : Codec}
  {name : String}

def Has (k : Catalogue) (a : Alias) : Prop := k.lookup a.ref = some a ∧ a.target.isSome = true

theorem knownByName (h : Coherent document abandoned pending k) : Codec.KnownByName k.Has where
  wordlike a ha := by
    obtain ⟨target, -, hname, -⟩ := h.origin ha.1
    exact Naming.wordlike_modelName hname
  unique a b ha hb hname := by
    -- the name has one owner, and of that reference both are the alias
    have howner := h.owner_eq ha.1
    rw [hname, h.owner_eq hb.1] at howner
    have hlookup := ha.1
    rw [← Option.some.inj howner, hb.1] at hlookup
    exact (Option.some.inj hlookup).symm

theorem knows_of_mem (h : Coherent document abandoned pending k) (hnames : k.models.keys.Nodup)
    (hmem : (name, codec) ∈ k.models) : k.Knows codec := by
  have hdefined : k.defined.get? name = some codec := Entries.get?_of_mem hnames hmem
  obtain ⟨ref, howner⟩ := h.defined_owned hdefined
  obtain ⟨a, ha, rfl⟩ := h.owned howner
  have htarget := h.defined_eq ha
  rw [hdefined] at htarget
  obtain ⟨target, -, -, horigin⟩ := h.origin ha
  obtain ⟨waiting, -, hcomp⟩ := horigin codec htarget.symm
  exact knows_of_compile h hcomp

end Catalogue

theorem Synthesized.exists_catalogue (document : Value) (nodes : List Value) :
    ∃ k, (∃ abandoned, Coherent document abandoned abandoned k) ∧
      ∀ codec, Synthesized document nodes codec → k.Knows codec := by
  have hall := compileEach_advances nodes (consistent_start document)
  obtain ⟨abandoned, hk⟩ := hall.consistent.coherent
  refine ⟨_, ⟨abandoned, hk⟩, fun codec hcodec => ?_⟩
  rcases hcodec with hcodec | ⟨name, hmem⟩
  · exact hall.known codec hcodec
  · exact Catalogue.knows_of_mem hk hall.consistent.ordered.names hmem

def nameOrLiteral (keyword : String) : Value :=
  .object [(keyword, .list [
    .object [("properties", .object [("full-name", .object [("type", .str "string")])])],
    .object [("enum", .list [.str "a), b", .int 1, .bool true])]])]

def nameOrLiteralCodec : Codec :=
  .oneOf [.interface [("full-name", .optional .string)],
    .oneOf [.exactly (.str "a), b"), .exactly (.int 1), .exactly (.bool true)]]

theorem isPlainlyMade_nameOrLiteralCodec : nameOrLiteralCodec.IsPlainlyMade := by
  have hname : (Key.str "full-name").IsPlain := ⟨"full-name", rfl, by decide, by simp⟩
  refine .oneOf (List.forall_mem_cons.mpr ⟨?_, List.forall_mem_singleton.mpr (.oneOf ?_)⟩)
  · exact .interface (List.forall_mem_singleton.mpr hname)
      (List.forall_mem_singleton.mpr (.optional .string))
  · intro c hc
    simp only [List.mem_cons, List.not_mem_nil, or_false] at hc
    rcases hc with rfl | rfl | rfl
    · exact .exactly (.inl rfl)
    · exact .exactly (.inr (.inl rfl))
    · exact .exactly (.inr (.inr rfl))

end OpenApi
