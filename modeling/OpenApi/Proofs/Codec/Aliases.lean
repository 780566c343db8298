import OpenApi.Catalogue
import OpenApi.Proofs.Codec.Fails
import OpenApi.Proofs.Schema.Regular
import Mathlib.Data.List.Nodup
import Mathlib.Logic.Relation
/-! # Models that stand in codecs

A codec mentions models, and the codec of a model may mention others. In a table that defines every
model before it is mentioned, each of them has a target, nothing leads from a model back to it, and
decoding never meets a model that is not defined. -/
namespace OpenApi

open Relation (TransGen)

namespace Codec

/-- The models that stand in a codec, without those that stand in their targets. -/
def aliases : Codec → List Alias
  | array item => aliases item
  | optional inner => aliases inner
  | maybe inner => aliases inner
  | interface fields => inFields fields
  | record item => aliases item
  | oneOf members => inMembers members
  | intersect left right => aliases left ++ aliases right
  | model name ref target => [⟨name, ref, target⟩]
  | _ => []
where
  inFields : List (Key × Codec) → List Alias
    | [] => []
    | (_, c) :: rest => aliases c ++ inFields rest
  inMembers : List Codec → List Alias
    | [] => []
    | c :: rest => aliases c ++ inMembers rest

variable {P : Alias → Prop} {a : Alias} {c d : Codec} {members : List Codec}
  {fields : List (Key × Codec)}

theorem forall_inMembers :
    (∀ a ∈ aliases.inMembers members, P a) ↔ ∀ c ∈ members, ∀ a ∈ c.aliases, P a := by
  induction members with
  | nil => exact ⟨fun _ => nofun, fun _ => nofun⟩
  | cons c rest ih => rw [aliases.inMembers, List.forall_mem_append, ih, List.forall_mem_cons]

theorem forall_inFields :
    (∀ a ∈ aliases.inFields fields, P a) ↔ ∀ f ∈ fields, ∀ a ∈ f.2.aliases, P a := by
  induction fields with
  | nil => exact ⟨fun _ => nofun, fun _ => nofun⟩
  | cons f rest ih =>
    obtain ⟨k, c⟩ := f
    rw [aliases.inFields, List.forall_mem_append, ih, List.forall_mem_cons]

theorem aliases_present (c : Codec) : c.present.aliases = c.aliases := by
  cases c <;> rfl

theorem closed_aliases (P : Alias → Prop) :
    Closed fun c => c.isRequired = true ∧ ∀ a ∈ c.aliases, P a where
  required h := h.1
  unknown := ⟨rfl, nofun⟩
  string := ⟨rfl, nofun⟩
  number := ⟨rfl, nofun⟩
  boolean := ⟨rfl, nofun⟩
  null := ⟨rfl, nofun⟩
  date := ⟨rfl, nofun⟩
  exactly _ := ⟨rfl, nofun⟩
  array h := ⟨rfl, h.2⟩
  maybe h := ⟨rfl, h.2⟩
  interface h _ := ⟨rfl, forall_inFields.mpr fun f hf => aliases_present f.2 ▸ (h f hf).2⟩
  record h := ⟨rfl, h.2⟩
  oneOf h := ⟨rfl, forall_inMembers.mpr fun c hc => (h c hc).2⟩
  intersect h k := ⟨rfl, List.forall_mem_append.mpr ⟨h.2, k.2⟩⟩

/-- Every model that stands in the codec has a target, with which it stands in the table. -/
def Grounded (models : Entries String Codec) (c : Codec) : Prop :=
  ∀ a ∈ c.aliases, ∃ t, a.target = some t ∧ (a.name, t) ∈ models

theorem Grounded.mono {models more : Entries String Codec} (h : c.Grounded models)
    (hsub : models ⊆ more) : c.Grounded more := by
  intro a ha
  obtain ⟨t, ht, hmem⟩ := h a ha
  exact ⟨t, ht, hsub hmem⟩

end Codec

/-- The codec of each name mentions only models that were defined before it. -/
structure Ordered (models : Entries String Codec) : Prop where
  names : models.keys.Nodup
  grounded : ∀ before name codec after, models = before ++ (name, codec) :: after →
    codec.Grounded before

/-- The codec of the second model mentions the first one. -/
def Mentions (models : Entries String Codec) (m n : String) : Prop :=
  ∃ codec, (n, codec) ∈ models ∧ ∃ a ∈ codec.aliases, a.name = m

namespace Ordered

variable {models : Entries String Codec} {name : String} {codec : Codec}

theorem nil : Ordered [] := ⟨.nil, fun before name codec after h => by simp at h⟩

theorem concat (h : Ordered models) (hnew : name ∉ models.keys) (hc : codec.Grounded models) :
    Ordered (models ++ [(name, codec)]) where
  names := by
    rw [Entries.keys_append, Entries.keys_cons, Entries.keys_nil, ← List.concat_eq_append]
    exact h.names.concat hnew
  grounded := by
    intro before m c after he
    rcases List.eq_nil_or_concat after with rfl | ⟨rest, last, rfl⟩
    · obtain ⟨rfl, hlast⟩ := List.append_inj' he rfl
      cases hlast
      exact hc
    · have hsplit : before ++ (m, c) :: (rest ++ [last]) = (before ++ (m, c) :: rest) ++ [last] := by
        simp
      rw [List.concat_eq_append, hsplit] at he
      exact h.grounded before m c rest (List.append_inj' he rfl).1

theorem grounded_of_mem (h : Ordered models) (hmem : (name, codec) ∈ models) :
    codec.Grounded models := by
  obtain ⟨before, after, rfl⟩ := List.append_of_mem hmem
  exact (h.grounded before name codec after rfl).mono (List.subset_append_left _ _)

theorem idxOf_lt (h : Ordered models) {m n : String} (hm : Mentions models m n) :
    models.keys.idxOf m < models.keys.idxOf n := by
  obtain ⟨codec, hmem, a, ha, rfl⟩ := hm
  obtain ⟨before, after, rfl⟩ := List.append_of_mem hmem
  -- the alias stands among the models before `n`, and `n` itself does not, as no name is there twice
  obtain ⟨t, -, hbefore⟩ := h.grounded before n codec after rfl a ha
  have hearlier : a.name ∈ Entries.keys before := List.mem_map_of_mem hbefore
  have hnot : n ∉ Entries.keys before := by
    intro hn
    have hnames := h.names
    rw [Entries.keys_append, Entries.keys_cons] at hnames
    exact (List.nodup_append.mp hnames).2.2 n hn n List.mem_cons_self rfl
  rw [Entries.keys_append, List.idxOf_append_of_mem hearlier, List.idxOf_append_of_notMem hnot]
  exact Nat.lt_of_lt_of_le (List.idxOf_lt_length_of_mem hearlier) (Nat.le_add_right _ _)

theorem wellFounded (h : Ordered models) : WellFounded (Mentions models) :=
  Subrelation.wf h.idxOf_lt (measure fun n => models.keys.idxOf n).wf

theorem not_cyclic (h : Ordered models) (n : String) : ¬ TransGen (Mentions models) n n :=
  fun hn => h.wellFounded.transGen.asymmetric n n hn hn

end Ordered

section Decoding

def DecodeFailure.Undefined (f : DecodeFailure) : Prop :=
  ∃ name, f.message = "model " ++ name ++ " is not defined"

theorem not_undefined_of_take {f : DecodeFailure} (h : f.message.toList.take 2 ≠ ['m', 'o']) :
    ¬ f.Undefined := by
  rintro ⟨name, hname⟩
  rw [hname, String.toList_append, String.toList_append] at h
  exact h rfl

theorem not_undefined_below {f : DecodeFailure} (h : ¬ f.Undefined) (s : Step) :
    ¬ (f.below s).Undefined := h

theorem not_undefined_expected (what got : String) : ¬ (expected what got).Undefined := by
  apply not_undefined_of_take
  have hmessage : (expected what got).message = "expected " ++ what ++ ", got " ++ got := rfl
  rw [hmessage, String.toList_append, String.toList_append, String.toList_append]
  show ['e', 'x'] ≠ ['m', 'o']
  decide

namespace Codec

variable {models : Entries String Codec} {f : DecodeFailure}

/-- A codec whose models are all defined never fails for want of a model. -/
theorem Fails.not_undefined {c : Codec} {raw : Value} {u : Undecoded} (h : c.Fails raw u)
    (hmodels : Ordered models) (hc : c.Grounded models) : ∀ f, u = .failure f → ¬ f.Undefined := by
  induction h with
  | sort | time | key =>
    rintro _ ⟨⟩
    exact not_undefined_expected _ _
  | literal =>
    intro f hf
    obtain ⟨what, rfl⟩ := eq_of_mismatch (ofFailure_eq_failure hf)
    exact not_undefined_expected _ _
  | item _ _ ih | entry _ _ ih =>
    intro f hf
    obtain ⟨g, rfl, rfl⟩ := Undecoded.below_eq_failure hf
    exact not_undefined_below (ih hc g rfl) _
  | optional _ ih | maybe _ ih => exact ih hc
  | missing =>
    rintro _ ⟨⟩
    apply not_undefined_of_take
    show "missing required property".toList.take 2 ≠ ['m', 'o']
    decide
  | field hf _ _ ih =>
    intro f hbelow
    obtain ⟨g, rfl, rfl⟩ := Undecoded.below_eq_failure hbelow
    exact not_undefined_below (ih (forall_inFields.mp hc _ hf) g rfl) _
  | alternatives =>
    rintro _ ⟨⟩
    apply not_undefined_of_take
    rw [String.toList_append]
    show ['n', 'o'] ≠ ['m', 'o']
    decide
  | unwritten => nofun
  | left _ ih => exact ih (List.forall_mem_append.mp hc).1
  | right _ ih => exact ih (List.forall_mem_append.mp hc).2
  | undefined name ref =>
    obtain ⟨t, ht, -⟩ := hc ⟨name, ref, none⟩ List.mem_cons_self
    cases ht
  | @model name ref t _ _ _ ih =>
    obtain ⟨_, ⟨⟩, hmem⟩ := hc ⟨name, ref, some t⟩ List.mem_cons_self
    exact ih (hmodels.grounded_of_mem hmem)

theorem not_undefined_of_decode (h : Ordered models) {c : Codec} (hc : c.Grounded models)
    {raw : Value} (hf : c.decode raw = failed f) : ¬ f.Undefined :=
  (fails_of_decode hf).not_undefined h hc f rfl

end Codec

end Decoding

end OpenApi
