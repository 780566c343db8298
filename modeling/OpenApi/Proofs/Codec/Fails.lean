import OpenApi.Proofs.Codec.Accepts
/-! # How decoding fails

Whatever is said against a value is said by one part of the codec of one part of the value. On the way
out, every step that leads into the value is put in front of it. -/
namespace OpenApi

namespace Codec

/-- The ways in which a codec comes to say something against a value, each with what its parts say. The
members of alternatives say something each, all of which is listed if it can be written. -/
inductive Fails : Codec → Value → Undecoded → Prop
  | sort (c : Codec) (raw : Value) (what : String) : Fails c raw (.failure (expectedSort what raw))
  | time (raw : Value) : Fails date raw (.failure (expected "date-time string" raw.literal))
  | literal (v raw : Value) : Fails (exactly v) raw (.ofFailure (mismatch v raw))
  | item {c : Codec} {items : List Value} {i : Nat} {v : Value} {u : Undecoded}
      (hv : items[i]? = some v) (h : Fails c v u) : Fails (array c) (.list items) (u.below (.index i))
  | optional {c : Codec} {raw : Value} {u : Undecoded} (h : Fails c raw u) : Fails (optional c) raw u
  | maybe {c : Codec} {raw : Value} {u : Undecoded} (h : Fails c raw u) : Fails (maybe c) raw u
  | missing {fields : List (Key × Codec)} {es : Entries Key Value} {f : Key × Codec}
      (hf : f ∈ fields) (hk : es.get? f.1 = none) : Fails (interface fields) (.dict es)
        (.failure ⟨[.key f.1], "missing required property"⟩)
  | field {fields : List (Key × Codec)} {es : Entries Key Value} {f : Key × Codec} {v : Value}
      {u : Undecoded} (hf : f ∈ fields) (hv : es.get? f.1 = some v) (h : Fails f.2 v u) :
      Fails (interface fields) (.dict es) (u.below (.key f.1))
  | key {c : Codec} {es : Entries Key Value} {e : Key × Value} (he : e ∈ es)
      (hk : e.1.toValue.str? = none) : Fails (record c) (.dict es)
        (.failure (expectedSort "string key" e.1.toValue))
  | entry {c : Codec} {es : Entries Key Value} {e : Key × Value} {u : Undecoded} (he : e ∈ es)
      (h : Fails c e.2 u) : Fails (record c) (.dict es) (u.below (.key e.1))
  | alternatives {told : List (Codec × Undecoded)} {texts : List String} {raw : Value}
      (h : ∀ p ∈ told, Fails p.1 raw p.2)
      (texts_eq : List.Forall₂ (fun p text => p.2.writeText = .ok text) told texts) :
      Fails (oneOf (told.map Prod.fst)) raw
        (.failure ⟨[], "no union member matched: " ++ joined "; " texts⟩)
  | unwritten {members : List Codec} {c : Codec} {raw : Value} {u : Undecoded} {e : WriteError}
      (hc : c ∈ members) (h : Fails c raw u) (he : u.writeText = .error e) :
      Fails (oneOf members) raw (.unwritten e)
  | left {c d : Codec} {raw : Value} {u : Undecoded} (h : Fails c raw u) : Fails (intersect c d) raw u
  | right {c d : Codec} {raw : Value} {u : Undecoded} (h : Fails d raw u) : Fails (intersect c d) raw u
  | undefined (name ref : String) (raw : Value) : Fails (model name ref none) raw
      (.failure ⟨[], "model " ++ name ++ " is not defined"⟩)
  | model {name ref : String} {c : Codec} {raw : Value} {u : Undecoded} (h : Fails c raw u) :
      Fails (model name ref (some c)) raw u

theorem fails_of_decode {c : Codec} {raw : Value} {u : Undecoded} (h : c.decode raw = .error u) :
    c.Fails raw u := by
  induction c generalizing raw u with
  | unknown => cases h
  | string | number | boolean | null =>
    rw [decode] at h
    rw [guarded_eq_error h]
    exact .sort _ raw _
  | date =>
    rcases decodeDate_eq_error h with rfl | rfl
    · exact .time raw
    · exact .sort _ raw _
  | exactly v =>
    rw [decode] at h
    split at h
    · cases h
    · cases h
      exact .literal v raw
  | array item ih =>
    cases raw with
    | list items =>
      rw [decode] at h
      obtain ⟨i, v, g, hv, hg, rfl⟩ := decodeItems_error (bind_eq_error h)
      rw [Nat.zero_add]
      exact .item hv (ih hg)
    | _ =>
      cases h
      exact .sort _ _ _
  | optional inner ih =>
    rw [decode] at h
    split at h
    · cases h
    · exact .optional (ih h)
  | maybe inner ih =>
    rw [decode] at h
    split at h
    · cases h
    · exact .maybe (ih h)
  | interface fields ih =>
    cases raw with
    | dict es =>
      rw [decode] at h
      obtain ⟨f, hf, ⟨hk, -, rfl⟩ | ⟨v, g, hv, hg, rfl⟩⟩ := decodeFields_error (bind_eq_error h)
      · exact .missing hf hk
      · exact .field hf hv (ih f hf hg)
    | _ =>
      cases h
      exact .sort _ _ _
  | record item ih =>
    cases raw with
    | dict es =>
      rw [decode] at h
      obtain ⟨e, he, ⟨hk, rfl⟩ | ⟨g, hg, rfl⟩⟩ := decodeEntries_error (bind_eq_error h)
      · exact .key he hk
      · exact .entry he (ih hg)
    | _ =>
      cases h
      exact .sort _ _ _
  | oneOf members ih =>
    rw [decode] at h
    obtain ⟨told, texts, rfl, htold, htexts, rfl⟩ | ⟨c, hc, g, e, hg, he, rfl⟩ := decodeAny_error h
    · exact .alternatives (fun p hp => ih p.1 (List.mem_map_of_mem hp) (htold p hp)) htexts
    · exact .unwritten hc (ih c hc hg) he
  | intersect left right ihl ihr =>
    rw [decode] at h
    cases hl : left.decode raw with
    | error g =>
      rw [hl] at h
      cases h
      exact .left (ihl hl)
    | ok l =>
      rw [hl] at h
      exact .right (ihr (bind_eq_error h))
  | model name ref target ih =>
    cases target with
    | none =>
      cases h
      exact .undefined name ref raw
    | some t => exact .model (ih t rfl h)

end Codec

end OpenApi
