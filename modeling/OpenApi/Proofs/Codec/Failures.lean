import OpenApi.Proofs.Codec.Fails
import OpenApi.Proofs.Value.Wire
/-! # Where decoding fails

A failure that comes out of a list, a map or a field gets the step that leads into it put in front of its
path. So the path of a failure leads into the value that was read, as far as to what the message is about.
Only a property that is missing is named by its last step, which leads nowhere. -/
namespace OpenApi

namespace Value

def step? : Value → Step → Option Value
  | dict es, .key k => Entries.get? es k
  | list items, .index i => items[i]?
  | _, _ => none

def walk? (v : Value) (path : List Step) : Option Value := path.foldlM step? v

variable {v w : Value} {s : Step} {path : List Step}

theorem walk?_cons (h : v.step? s = some w) : v.walk? (s :: path) = w.walk? path := by
  rw [walk?, List.foldlM_cons, h]
  rfl

end Value

variable {f : DecodeFailure}

/-- What can be said of a value that is refused: it is of the wrong sort or is itself the wrong one, it
lacks a property, all alternatives refuse it, its model has no codec, or something further in is refused. -/
inductive Complaint : Value → DecodeFailure → Prop
  | sort (v : Value) (what : String) : Complaint v (expectedSort what v)
  | literal (v : Value) (what : String) : Complaint v (expected what v.literal)
  | missing {es : Entries Key Value} {k : Key} (h : es.get? k = none) :
      Complaint (.dict es) ⟨[.key k], "missing required property"⟩
  | alternatives {v : Value} {gs : List DecodeFailure} {texts : List String}
      (h : ∀ g ∈ gs, Complaint v g)
      (texts_eq : List.Forall₂ (fun g text => g.writeText = .ok text) gs texts) :
      Complaint v ⟨[], "no union member matched: " ++ joined "; " texts⟩
  | undefined (v : Value) (name : String) : Complaint v ⟨[], "model " ++ name ++ " is not defined"⟩
  | inside {v w : Value} {s : Step} {g : DecodeFailure} (hs : v.step? s = some w)
      (h : Complaint w g) : Complaint v (g.below s)

/-- The path leads to what the message is about. If a property is missing, it leads to the object that
should have it, and from there by the key that the object does not have. -/
def DecodeFailure.Located (raw : Value) (f : DecodeFailure) : Prop :=
  (∃ v, raw.walk? f.path = some v ∧ Complaint v ⟨[], f.message⟩) ∨
    f.message = "missing required property" ∧ ∃ path k es, f.path = path ++ [.key k] ∧
      raw.walk? path = some (.dict es) ∧ Entries.get? es k = none

variable {raw : Value}

theorem Complaint.located (h : Complaint raw f) : f.Located raw := by
  induction h with
  | sort v what => exact .inl ⟨v, rfl, .sort v what⟩
  | literal v what => exact .inl ⟨v, rfl, .literal v what⟩
  | @missing es k hk => exact .inr ⟨rfl, [], k, es, rfl, rfl, hk⟩
  | @alternatives v gs texts hgs htexts _ => exact .inl ⟨v, rfl, .alternatives hgs htexts⟩
  | undefined v name => exact .inl ⟨v, rfl, .undefined v name⟩
  | @inside v w s g hs _ ih =>
    rcases ih with ⟨u, hu, habout⟩ | ⟨hmessage, path, k, es, hpath, hes, hk⟩
    · left
      exact ⟨u, (Value.walk?_cons hs).trans hu, habout⟩
    · right
      refine ⟨hmessage, s :: path, k, es, ?_, (Value.walk?_cons hs).trans hes, hk⟩
      exact congrArg (s :: ·) hpath

theorem failures_of_writeText {us : List Undecoded} {texts : List String}
    (h : List.Forall₂ (fun u text => Undecoded.writeText u = .ok text) us texts) :
    ∃ fs : List DecodeFailure, us = fs.map .failure := by
  induction h with
  | nil => exact ⟨[], rfl⟩
  | cons hu _ ih =>
    obtain ⟨f, rfl⟩ := Undecoded.eq_failure_of_writeText hu
    obtain ⟨fs, rfl⟩ := ih
    exact ⟨f :: fs, rfl⟩

namespace Codec

variable {c : Codec}

theorem complains_of_fails {u : Undecoded} (h : c.Fails raw u) (hraw : raw.isJson = true) :
    ∀ f, u = .failure f → Complaint raw f := by
  induction h with
  | sort _ raw what =>
    rintro _ ⟨⟩
    exact .sort raw what
  | time raw =>
    rintro _ ⟨⟩
    exact .literal raw _
  | literal v raw =>
    intro f hf
    obtain ⟨what, rfl⟩ := eq_of_mismatch (ofFailure_eq_failure hf)
    exact .literal raw what
  | item hv _ ih =>
    intro f hf
    obtain ⟨g, rfl, rfl⟩ := Undecoded.below_eq_failure hf
    exact .inside hv (ih (Value.isJson_list.1 hraw _ (List.mem_of_getElem? hv)) g rfl)
  | optional _ ih | maybe _ ih | left _ ih | right _ ih | model _ ih => exact ih hraw
  | missing _ hk =>
    rintro _ ⟨⟩
    exact .missing hk
  | field _ hv _ ih =>
    intro f hf
    obtain ⟨g, rfl, rfl⟩ := Undecoded.below_eq_failure hf
    exact .inside hv (ih (Value.isJson_of_get? hraw hv) g rfl)
  | @key _ es e he hk =>
    -- the keys of JSON are texts
    have hstr := ((Value.isJson_dict.1 hraw).2 e he).1
    rw [hk] at hstr
    cases hstr
  | @entry _ es e _ he _ ih =>
    intro f hf
    obtain ⟨g, rfl, rfl⟩ := Undecoded.below_eq_failure hf
    obtain ⟨hdistinct, hes⟩ := Value.isJson_dict.1 hraw
    exact .inside (Entries.get?_of_distinct hdistinct he) (ih (hes e he).2 g rfl)
  | @alternatives told texts raw _ htexts ih =>
    rintro _ ⟨⟩
    have hlisted : List.Forall₂ (fun u text => Undecoded.writeText u = .ok text)
        (told.map Prod.snd) texts := List.forall₂_map_left_iff.mpr htexts
    obtain ⟨fs, hfs⟩ := failures_of_writeText hlisted
    rw [hfs] at hlisted
    apply Complaint.alternatives
    · intro g hg
      have hmem : Undecoded.failure g ∈ told.map Prod.snd := hfs ▸ List.mem_map_of_mem hg
      obtain ⟨p, hp, hpg⟩ := List.mem_map.mp hmem
      exact ih p hp hraw g hpg
    · exact List.forall₂_map_left_iff.mp hlisted
  | unwritten => nofun
  | undefined name ref raw =>
    rintro _ ⟨⟩
    exact .undefined raw name

/-- Where a value that was read from JSON is refused, the path of the failure leads there. -/
theorem located_of_decode (hraw : raw.isJson = true) (h : c.decode raw = failed f) : f.Located raw :=
  (complains_of_fails (fails_of_decode h) hraw f rfl).located

def order : Codec :=
  .model "Order" "#/Order" (some (.interface [("lines", .array (.interface
    [("item", .string), ("price", .oneOf [.number, .null])]))]))

def incompleteOrder : Value :=
  .object [("lines", .list [.object [("item", .str "pen"), ("price", .null)],
    .object [("price", .int 2)]])]

theorem located_of_decode_incompleteOrder :
    order.decode incompleteOrder =
        failed ⟨[.key "lines", .index 1, .key "item"], "missing required property"⟩ ∧
      DecodeFailure.Located incompleteOrder
        ⟨[.key "lines", .index 1, .key "item"], "missing required property"⟩ := by
  have hdecode : order.decode incompleteOrder =
      failed ⟨[.key "lines", .index 1, .key "item"], "missing required property"⟩ := rfl
  exact ⟨hdecode, located_of_decode (by decide) hdecode⟩

end Codec

end OpenApi
