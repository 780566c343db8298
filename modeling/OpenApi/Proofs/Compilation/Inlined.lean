import OpenApi.Proofs.Codec.Writable
import OpenApi.Proofs.Compilation.Reachable
import OpenApi.Proofs.Schema.Regular
import Mathlib.Order.WellFounded
import Mathlib.Order.Preorder.Finite
/-! # References in place

The same rules compile a schema without a catalogue if every reference is replaced by its target,
down to some depth. Without cycles this is no other codec than the one that shares its models; with
cycles, the codec that shares its models accepts more. -/
namespace OpenApi

open Relation (TransGen ReflTransGen)
open Catalogue (Coherent)

/-- The codec of a reference whose references are replaced by their targets, `depth` levels deep. -/
def expand (document : Value) (below : Except Fault Codec) : Nat → String → Except Fault Codec
  | 0, _ => below
  | depth + 1, ref => do
    let target ← Pointer.resolve document ref
    (Schema.ofValue target).compile (expand document below depth)

def inlined (document : Value) (depth : Nat) (node : Value) : Except Fault Codec :=
  (Schema.ofValue node).compile (expand document (.error .malformed) depth)

/-- The codec of a node where a reference below the depth accepts nothing. -/
def unfolded (document : Value) (depth : Nat) (node : Value) : Except Fault Codec :=
  (Schema.ofValue node).compile (expand document (.ok (.oneOf [])) depth)

def Value.reference (pointer : String) : Value := .object [("$ref", .str pointer)]

/-- No reference that the node leads to leads back to itself. -/
def Acyclic (document node : Value) : Prop :=
  ∀ r ∈ (Schema.ofValue node).refs, ∀ s, ReflTransGen (Refers document) r s →
    ¬ TransGen (Refers document) s s

theorem closed_isRequired : Codec.Closed fun c => c.isRequired = true where
  required h := h
  unknown := rfl
  string := rfl
  number := rfl
  boolean := rfl
  null := rfl
  date := rfl
  exactly _ := rfl
  array _ := rfl
  maybe _ := rfl
  interface _ _ := rfl
  record _ := rfl
  oneOf _ := rfl
  intersect _ _ := rfl

variable {document node : Value} {c d : Compilation} {k : Catalogue} {codec : Codec}

theorem isRequired_of_answer {waiting : List String} {r : String}
    (h : k.answer waiting r = .ok codec) : codec.isRequired = true := by
  obtain ⟨a, -, ⟨-, rfl⟩ | ⟨-, -, rfl⟩⟩ := Catalogue.answer_eq_ok h
  · rfl
  · rfl

theorem expand_succ {below : Except Fault Codec} {depth : Nat} {r : String} {target : Value}
    (ht : Pointer.resolve document r = .ok target) :
    expand document below (depth + 1) r =
      (Schema.ofValue target).compile (expand document below depth) := by
  rw [expand, ht]
  rfl

theorem answer_cases {waiting : List String} {r : String} (h : k.answer waiting r = .ok codec) :
    (∃ a, k.lookup r = some a) ∧ ((r ∈ waiting ∧ codec = .unknown) ∨
      (r ∉ waiting ∧ k.answer [] r = .ok codec)) := by
  obtain ⟨a, ha, hcase⟩ := Catalogue.answer_eq_ok h
  refine ⟨⟨a, ha⟩, hcase.imp_right fun ⟨hr, ht, hc⟩ => ⟨hr, ?_⟩⟩
  simp [Catalogue.answer, ha, ht, hc]

section Unfolded

theorem not_accepts_nothing (raw : Value) : ¬ (Codec.oneOf []).Accepts raw := by
  rw [Codec.accepts_oneOf]
  rintro ⟨⟨_, hmem, -⟩, -⟩
  exact absurd hmem List.not_mem_nil

theorem Catalogue.Coherent.weaker_expand (h : Coherent document [] [] k) (depth : Nat) {r : String}
    (hr : k.answer [] r = .ok codec) :
    ∃ u, expand document (.ok (.oneOf [])) depth r = .ok u ∧ codec.Weaker u := by
  induction depth generalizing r codec with
  | zero =>
    refine ⟨.oneOf [], rfl, isRequired_of_answer hr, fun raw hraw => ?_⟩
    exact absurd hraw (not_accepts_nothing raw)
  | succ depth ih =>
    obtain ⟨⟨a, ha⟩, -⟩ := answer_cases hr
    obtain ⟨target, t, ht, hmodel, waiting, -, hcomp⟩ := h.model_of_lookup ha
    rw [hr] at hmodel
    cases hmodel
    -- a reference that waits has an unfolding as well, which the codec without demands is weaker than
    have hrefs : ∀ s ∈ (Schema.ofValue target).refs, ∀ b, k.answer waiting s = .ok b →
        ∃ u, expand document (.ok (.oneOf [])) depth s = .ok u ∧ b.Weaker u := by
      intro s _ b hb
      obtain ⟨⟨a', ha'⟩, hcase⟩ := answer_cases hb
      obtain ⟨-, t', -, hmodel', -⟩ := h.model_of_lookup ha'
      rcases hcase with ⟨-, rfl⟩ | ⟨-, hb'⟩
      · obtain ⟨u, hu, hweak⟩ := ih hmodel'
        refine ⟨u, hu, ?_, fun raw _ => Codec.accepts_unknown.not_refuses⟩
        exact (isRequired_of_answer hmodel').trans hweak.1 |>.symm ▸ rfl
      · exact ih hb'
    obtain ⟨u, hu, hweak⟩ := Schema.compile_congruent Codec.congruence_weaker hrefs hcomp
    refine ⟨u, (expand_succ ht).trans hu, ?_, fun raw hraw => ?_⟩
    · have ht' := Schema.compile_closed closed_isRequired (Schema.regular_ofValue target)
        (fun _ _ _ => isRequired_of_answer) hcomp
      exact ht'.symm.trans hweak.1
    · exact hweak.2 raw hraw

def nestedLists : Value := .object [("Nested", .object [("items", .reference "#/Nested")])]

/-- A day is the one literal of a model, as a document in YAML may have it. -/
def oneDay : Value := .object [("Day", .object [("enum", .list [.date ⟨2024, 1, 1⟩])])]

def dayOrText : Value :=
  .object [("oneOf", .list [.reference "#/Day", .object [("type", .str "string")]])]

end Unfolded

section Inlined

theorem finite_known (k : Catalogue) : Finite {r // ∃ a, k.lookup r = some a} := by
  have hsub : {r | ∃ a, k.lookup r = some a} ⊆ {r | r ∈ k.aliases.keys} := by
    rintro r ⟨a, ha⟩
    obtain ⟨e, he, hkey, -⟩ := Entries.mem_of_get? ha
    rw [beq_iff_eq] at hkey
    exact List.mem_map.mpr ⟨e, he, hkey.symm⟩
  exact ((List.finite_toSet k.aliases.keys).subset hsub).to_subtype

theorem wellFounded_refers (k : Catalogue) {P : String → Prop}
    (h : ∀ r, P r → ¬ TransGen (Refers document) r r) :
    WellFounded fun s r : {r // (∃ a, k.lookup r = some a) ∧ P r} =>
      TransGen (Refers document) r.1 s.1 := by
  have hfin : Finite {r // (∃ a, k.lookup r = some a) ∧ P r} :=
    @Finite.of_injective _ _ (finite_known k) (fun r => ⟨r.1, r.2.1⟩)
      fun r s hrs => Subtype.ext (Subtype.mk.inj hrs)
  have htrans : IsTrans {r // (∃ a, k.lookup r = some a) ∧ P r}
      fun s r => TransGen (Refers document) r.1 s.1 := ⟨fun _ _ _ hrs hst => hst.trans hrs⟩
  have hirrefl : Std.Irrefl fun s r : {r // (∃ a, k.lookup r = some a) ∧ P r} =>
      TransGen (Refers document) r.1 s.1 := ⟨fun r hr => h r.1 r.2.2 hr⟩
  exact Finite.wellFounded_of_trans_of_irrefl _

theorem exists_depth {Q : Nat → String → Prop} (hQ : ∀ {m n s}, m ≤ n → Q m s → Q n s)
    {refs : List String} (h : ∀ s ∈ refs, ∃ n, Q n s) : ∃ n, ∀ s ∈ refs, Q n s := by
  induction refs with
  | nil => exact ⟨0, nofun⟩
  | cons s rest ih =>
    obtain ⟨⟨m, hm⟩, hrest⟩ := List.forall_mem_cons.mp h
    obtain ⟨n, hn⟩ := ih hrest
    refine ⟨max m n, List.forall_mem_cons.mpr ⟨hQ (Nat.le_max_left m n) hm, fun t ht => ?_⟩⟩
    exact hQ (Nat.le_max_right m n) (hn t ht)

theorem expand_mono {e : Fault} {m n : Nat} {r : String} (hmn : m ≤ n)
    (h : expand document (.error e) m r = .ok codec) :
    expand document (.error e) n r = .ok codec := by
  induction m generalizing n r codec with
  | zero => cases h
  | succ m ih =>
    obtain ⟨n, rfl⟩ := Nat.exists_eq_succ_of_ne_zero (Nat.ne_of_gt (Nat.lt_of_lt_of_le m.succ_pos hmn))
    obtain ⟨target, ht, hcomp⟩ := bind_eq_ok.mp h
    rw [expand_succ ht]
    exact Schema.compile_mono (fun s b hb => ih (Nat.le_of_succ_le_succ hmn) hb) hcomp

def InPlace (document : Value) (codec : Codec) (depth : Nat) (r : String) : Prop :=
  ∃ d, expand document (.error .malformed) depth r = .ok d ∧ codec.Alike d

theorem compile_in_place {s : Schema} {f : String → Except Fault Codec}
    (h : ∀ r ∈ s.refs, ∀ b, f r = .ok b → ∃ depth, InPlace document b depth r)
    (hc : s.compile f = .ok codec) :
    ∃ depth d, s.compile (expand document (.error .malformed) depth) = .ok d ∧ codec.Alike d := by
  have hall : ∀ r ∈ s.refs, ∃ depth, ∀ b, f r = .ok b → InPlace document b depth r := by
    intro r hr
    cases hf : f r with
    | error e => exact ⟨0, nofun⟩
    | ok b =>
      obtain ⟨depth, hin⟩ := h r hr b hf
      exact ⟨depth, fun b' hb => Except.ok.inj hb ▸ hin⟩
  have hmono : ∀ {m n r}, m ≤ n → (∀ b, f r = .ok b → InPlace document b m r) →
      ∀ b, f r = .ok b → InPlace document b n r := by
    intro m n r hmn hm b hb
    obtain ⟨d, hd, halike⟩ := hm b hb
    exact ⟨d, expand_mono hmn hd, halike⟩
  obtain ⟨depth, hdepth⟩ := @exists_depth
    (fun n r => ∀ b, f r = .ok b → InPlace document b n r) hmono s.refs hall
  exact ⟨depth, Schema.compile_congruent Codec.congruence_alike hdepth hc⟩

/-- Without cycles below it, the model of a reference decodes like its target. -/
theorem Catalogue.Coherent.in_place (h : Coherent document [] [] k) {P : String → Prop}
    (hP : ∀ r, P r → ¬ TransGen (Refers document) r r)
    (hnext : ∀ r s, P r → Refers document r s → P s) {r : String} (hr : P r)
    (hmodel : k.answer [] r = .ok codec) : ∃ depth, InPlace document codec depth r := by
  obtain ⟨hknown, -⟩ := answer_cases hmodel
  have hind : ∀ x : {r // (∃ a, k.lookup r = some a) ∧ P r}, ∀ b, k.answer [] x.1 = .ok b →
      ∃ depth, InPlace document b depth x.1 := by
    intro x
    induction x using (wellFounded_refers k hP).induction with
    | h x ih =>
      obtain ⟨r, ⟨a, ha⟩, hr⟩ := x
      intro b hb
      obtain ⟨target, t, ht, hmodel, waiting, hwait, hcomp⟩ := h.model_of_lookup ha
      rw [hb] at hmodel
      cases hmodel
      -- what waits while the target is compiled leads to it, so the target does not ask for it
      have hrefs : ∀ s ∈ (Schema.ofValue target).refs, ∀ b, k.answer waiting s = .ok b →
          ∃ depth, InPlace document b depth s := by
        intro s hs b hb
        have hedge : Refers document r s := ⟨target, ht, hs⟩
        have hPs := hnext r s hr hedge
        obtain ⟨hknown, ⟨hsw, -⟩ | ⟨-, hb'⟩⟩ := answer_cases hb
        · exact absurd (TransGen.tail' (hwait s hsw) hedge) (hP s hPs)
        · exact ih ⟨s, hknown, hPs⟩ (.single hedge) b hb'
      obtain ⟨depth, d, hd, halike⟩ := compile_in_place hrefs hcomp
      have hreq := Schema.compile_closed closed_isRequired (Schema.regular_ofValue target)
        (fun _ _ _ => isRequired_of_answer) hcomp
      refine ⟨depth + 1, d, (expand_succ ht).trans hd, hreq.symm.trans halike.1, funext fun raw => ?_⟩
      exact congrFun halike.2 raw
  exact hind ⟨r, hknown, hr⟩ codec hmodel

/-- Without cycles, a codec decodes like the one that has every reference replaced by its target. -/
theorem decode_eq_inlined (h : Settled document c) (hacyclic : Acyclic document node)
    (run : (compileSchema document node).run c = (.ok codec, d)) :
    ∃ b, (∃ least, ∀ depth, least ≤ depth → inlined document depth node = .ok b) ∧
      ∀ raw, codec.decode raw = b.decode raw := by
  obtain ⟨hd, -, hcodec⟩ := compileSchema_ok h.coherent run
  have hrefs : ∀ r ∈ (Schema.ofValue node).refs, ∀ b, d.catalogue.answer [] r = .ok b →
      ∃ depth, InPlace document b depth r := by
    intro r hr b hb
    refine hd.in_place (P := ReflTransGen (Refers document) r) (fun s hs => hacyclic r hr s hs)
      (fun s t hs hst => hs.tail hst) .refl hb
  obtain ⟨least, b, hb, halike⟩ := compile_in_place hrefs hcodec
  refine ⟨b, ⟨least, fun depth hdepth => ?_⟩, congrFun halike.2⟩
  exact Schema.compile_mono (fun _ _ => expand_mono hdepth) hb

def targetRefs (document : Value) (r : String) : List String :=
  match Pointer.resolve document r with
  | .ok target => (Schema.ofValue target).refs
  | .error _ => []

theorem refers_iff {r s : String} : Refers document r s ↔ s ∈ targetRefs document r := by
  unfold Refers targetRefs
  cases Pointer.resolve document r with
  | error e => exact ⟨fun ⟨_, he, _⟩ => (nomatch he), fun h => absurd h List.not_mem_nil⟩
  | ok target => exact ⟨fun ⟨_, he, h⟩ => Except.ok.inj he ▸ h, fun h => ⟨target, rfl, h⟩⟩

def petNames : Value := .object [("Name", .object [("type", .str "string")]),
  ("Pet", .object [("items", .reference "#/Name")])]

theorem refers_pet {r : String} (h : Refers petNames "#/Pet" r) : r = "#/Name" := by
  have hrefs : targetRefs petNames "#/Pet" = ["#/Name"] := by decide +kernel
  rwa [refers_iff, hrefs, List.mem_singleton] at h

theorem not_refers_name {r : String} : ¬ Refers petNames "#/Name" r := by
  have hrefs : targetRefs petNames "#/Name" = [] := by decide +kernel
  rw [refers_iff, hrefs]
  exact List.not_mem_nil

theorem acyclic_petNames : Acyclic petNames (.reference "#/Pet") := by
  have hnode : (Schema.ofValue (.reference "#/Pet")).refs = ["#/Pet"] := by decide +kernel
  intro r hr s hrs hss
  rw [hnode, List.mem_singleton] at hr
  subst hr
  obtain ⟨t, hst, hts⟩ := TransGen.head'_iff.mp hss
  rcases ReflTransGen.cases_head hrs with rfl | ⟨u, hu, hus⟩
  · rw [refers_pet hst] at hts
    rcases ReflTransGen.cases_head hts with he | ⟨v, hv, -⟩
    · exact absurd he (by decide)
    · exact not_refers_name hv
  · rw [refers_pet hu] at hus
    rcases ReflTransGen.cases_head hus with rfl | ⟨v, hv, -⟩
    · exact not_refers_name hst
    · exact not_refers_name hv

theorem decode_eq_inlined_petNames :
    ∃ codec d b, (compileSchema petNames (.reference "#/Pet")).run .start = (.ok codec, d) ∧
      (∃ least, ∀ depth, least ≤ depth → inlined petNames depth (.reference "#/Pet") = .ok b) ∧
      ∀ raw, codec.decode raw = b.decode raw := by
  obtain ⟨codec, d, run⟩ := Compile.exists_run
    (show ((compileSchema petNames (.reference "#/Pet")).run .start).1.isOk from by decide +kernel)
  obtain ⟨b, hb⟩ := decode_eq_inlined .start acyclic_petNames run
  exact ⟨codec, d, b, run, hb⟩

end Inlined

end OpenApi
