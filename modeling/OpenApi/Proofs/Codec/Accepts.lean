import OpenApi.Codec.Decode
import OpenApi.Proofs.Schema.Related
/-! # Accepted values

A codec accepts the values that it decodes. It refuses others with a failure, and where a failure cannot
be told it breaks off. What is refused as a whole is refused by a part, so parts that refuse less, or that
decode alike, may take the place of others. -/
namespace OpenApi

namespace Decoded

variable {α β : Type} {x : Decoded α}

def Succeeds (x : Decoded α) : Prop := ∃ a, x = .ok a

def Refuses (x : Decoded α) : Prop := ∃ f, x = failed f

/-- Something that was to be said cannot be written. -/
def BreaksOff (x : Decoded α) : Prop := ∃ e, x = .error (.unwritten e)

theorem succeeds_or (x : Decoded α) : x.Succeeds ∨ x.Refuses ∨ x.BreaksOff := by
  match x with
  | .ok a => exact .inl ⟨a, rfl⟩
  | .error (.failure f) => exact .inr (.inl ⟨f, rfl⟩)
  | .error (.unwritten e) => exact .inr (.inr ⟨e, rfl⟩)

theorem not_succeeds {f : Undecoded} (h : x = .error f) : ¬ x.Succeeds := by
  rintro ⟨a, ha⟩
  cases h.symm.trans ha

theorem Succeeds.not_refuses (h : x.Succeeds) : ¬ x.Refuses := by
  rintro ⟨f, hf⟩
  exact not_succeeds hf h

theorem Succeeds.not_breaksOff (h : x.Succeeds) : ¬ x.BreaksOff := by
  rintro ⟨e, he⟩
  exact not_succeeds he h

theorem failed_iff {f : Undecoded} {p : Prop} (h : x = .error f) (hp : ¬ p) : x.Succeeds ↔ p :=
  iff_of_false (not_succeeds h) hp

theorem succeeds_bind {f : α → β} : Succeeds (do return f (← x)) ↔ x.Succeeds := by
  cases x with
  | error e => exact ⟨nofun, nofun⟩
  | ok a => exact ⟨fun _ => ⟨a, rfl⟩, fun _ => ⟨f a, rfl⟩⟩

theorem refuses_bind {f : α → β} : Refuses (do return f (← x)) ↔ x.Refuses := by
  match x with
  | .ok a => exact ⟨nofun, nofun⟩
  | .error (.failure g) => exact ⟨fun _ => ⟨g, rfl⟩, fun _ => ⟨g, rfl⟩⟩
  | .error (.unwritten e) => exact ⟨nofun, nofun⟩

end Decoded

namespace Undecoded

variable {f : DecodeFailure} {u : Undecoded} {s : Step} {text : String}

theorem below_eq_failure (h : u.below s = .failure f) : ∃ g, u = .failure g ∧ f = g.below s := by
  cases u with
  | failure g => exact ⟨g, rfl, (Undecoded.failure.inj h).symm⟩
  | unwritten e => cases h

theorem eq_failure_of_writeText (h : u.writeText = .ok text) : ∃ f, u = .failure f := by
  cases u with
  | failure f => exact ⟨f, rfl⟩
  | unwritten e => cases h

end Undecoded

theorem Value.eq_of_writeLiteral {v : Value} {text : String} (h : v.writeLiteral = .ok text) :
    text = v.literal := by
  unfold Value.writeLiteral at h
  split at h
  · exact (Except.ok.inj h).symm
  · cases h

theorem ofFailure_eq_failure {x : Except WriteError DecodeFailure} {f : DecodeFailure}
    (h : Undecoded.ofFailure x = .failure f) : x = .ok f := by
  cases x with
  | ok g => exact congrArg Except.ok (Undecoded.failure.inj h)
  | error e => cases h

theorem eq_of_mismatch {literal raw : Value} {f : DecodeFailure} (h : mismatch literal raw = .ok f) :
    ∃ what, f = expected what raw.literal := by
  obtain ⟨what, -, h⟩ := bind_eq_ok.mp h
  obtain ⟨got, hgot, h⟩ := bind_eq_ok.mp h
  rw [Value.eq_of_writeLiteral hgot] at h
  exact ⟨what, (Except.ok.inj h).symm⟩

@[simp]
theorem DecodeFailure.writeText_root (message : String) :
    (⟨[], message⟩ : DecodeFailure).writeText = .ok ("$: " ++ message) := rfl

section Parts

variable {read : Value → Decoded Value} {f : Undecoded}

theorem bind_eq_error {α β : Type} {x : Decoded α} {g : α → β}
    (h : (do return g (← x)) = .error f) : x = .error f := by
  cases x with
  | error e =>
    cases h
    rfl
  | ok a => cases h

theorem guarded_eq_error {what : String} {test : Bool} {raw : Value}
    (h : guarded what test raw = .error f) : f = .failure (expectedSort what raw) := by
  unfold guarded at h
  split at h
  · cases h
  · exact (Except.error.inj h).symm

theorem decodeDate_eq_error {raw : Value} (h : decodeDate raw = .error f) :
    f = .failure (expected "date-time string" raw.literal) ∨
      f = .failure (expectedSort "date-time string" raw) := by
  unfold decodeDate at h
  split at h
  · cases h
  · split at h
    · cases h
    · exact .inl (Except.error.inj h).symm
  · exact .inr (Except.error.inj h).symm

theorem decodeItems_error {i : Nat} {items : List Value} (h : decodeItems read i items = .error f) :
    ∃ j v g, items[j]? = some v ∧ read v = .error g ∧ f = g.below (.index (i + j)) := by
  induction items generalizing i with
  | nil => cases h
  | cons v rest ih =>
    rw [decodeItems] at h
    cases hv : read v with
    | error g =>
      rw [hv] at h
      exact ⟨0, v, g, rfl, hv, (Except.error.inj h).symm⟩
    | ok w =>
      rw [hv] at h
      obtain ⟨j, u, g, hu, hg, rfl⟩ := ih (bind_eq_error h)
      refine ⟨j + 1, u, g, hu, hg, ?_⟩
      rw [Nat.add_right_comm, Nat.add_assoc]

theorem decodeEntries_error {entries : List (Key × Value)}
    (h : decodeEntries read entries = .error f) :
    ∃ e ∈ entries, (e.1.toValue.str? = none ∧ f = .failure (expectedSort "string key" e.1.toValue)) ∨
      ∃ g, read e.2 = .error g ∧ f = g.below (.key e.1) := by
  induction entries with
  | nil => cases h
  | cons e rest ih =>
    obtain ⟨k, v⟩ := e
    cases k with
    | str s =>
      rw [decodeEntries] at h
      cases hv : read v with
      | error g =>
        rw [hv] at h
        exact ⟨(.str s, v), List.mem_cons_self, .inr ⟨g, hv, (Except.error.inj h).symm⟩⟩
      | ok w =>
        rw [hv] at h
        obtain ⟨d, hd, hfails⟩ := ih (bind_eq_error h)
        exact ⟨d, List.mem_cons_of_mem _ hd, hfails⟩
    | null | bool | int | float | bytes | date | datetime | tuple =>
      exact ⟨_, List.mem_cons_self, .inl ⟨rfl, (Except.error.inj h).symm⟩⟩

end Parts

theorem decodeItems_succeeds {read : Value → Decoded Value} {i : Nat} {items : List Value} :
    (decodeItems read i items).Succeeds ↔ ∀ v ∈ items, (read v).Succeeds := by
  induction items generalizing i with
  | nil => exact ⟨fun _ _ h => absurd h List.not_mem_nil, fun _ => ⟨[], rfl⟩⟩
  | cons v rest ih =>
    rw [List.forall_mem_cons]
    unfold decodeItems
    cases hv : read v with
    | error e => exact ⟨nofun, fun h => nomatch h.1⟩
    | ok w =>
      rw [← @ih (i + 1)]
      exact Decoded.succeeds_bind.trans ⟨fun h => ⟨⟨w, rfl⟩, h⟩, fun h => h.2⟩

theorem decodeEntries_succeeds {read : Value → Decoded Value} {entries : List (Key × Value)} :
    (decodeEntries read entries).Succeeds ↔
      ∀ e ∈ entries, (∃ s, e.1 = .str s) ∧ (read e.2).Succeeds := by
  induction entries with
  | nil => exact ⟨fun _ _ h => absurd h List.not_mem_nil, fun _ => ⟨[], rfl⟩⟩
  | cons e rest ih =>
    rw [List.forall_mem_cons, ← ih]
    obtain ⟨k, v⟩ := e
    cases k with
    | str s =>
      rw [decodeEntries]
      cases hv : read v with
      | error e => exact ⟨nofun, fun h => nomatch h.1.2⟩
      | ok w =>
        exact Decoded.succeeds_bind.trans ⟨fun h => ⟨⟨⟨s, rfl⟩, w, rfl⟩, h⟩, fun h => h.2⟩
    | null | bool | int | float | bytes | date | datetime | tuple =>
      exact ⟨nofun, fun h => nomatch h.1.1⟩

namespace Codec

variable {c d : Codec} {raw : Value} {members : List Codec} {fields : List (Key × Codec)}
  {f : Undecoded}

/-- The codec decodes the value. -/
def Accepts (c : Codec) (raw : Value) : Prop := (c.decode raw).Succeeds

def Refuses (c : Codec) (raw : Value) : Prop := (c.decode raw).Refuses

def BreaksOff (c : Codec) (raw : Value) : Prop := (c.decode raw).BreaksOff

def FieldFits (raw : Entries Key Value) (f : Key × Codec) : Prop :=
  match raw.get? f.1 with
  | none => f.2.isRequired = false
  | some v => f.2.Accepts v

theorem accepts_unknown : unknown.Accepts raw := ⟨raw, rfl⟩

theorem accepts_array {item : Codec} :
    (array item).Accepts raw ↔ ∃ items, raw = .list items ∧ ∀ v ∈ items, item.Accepts v := by
  unfold Accepts
  cases raw with
  | list items =>
    rw [decode, Decoded.succeeds_bind, decodeItems_succeeds]
    constructor
    · intro h
      exact ⟨items, rfl, h⟩
    · rintro ⟨_, he, h⟩
      exact Value.list.inj he ▸ h
  | _ => exact Decoded.failed_iff rfl (by rintro ⟨items, he, -⟩; cases he)

theorem accepts_optional : (optional c).Accepts raw ↔ raw.kind = .null ∨ c.Accepts raw := by
  unfold Accepts
  rw [decode]
  by_cases h : raw.kind = .null
  · rw [if_pos h]
    exact ⟨fun _ => Or.inl h, fun _ => ⟨raw, rfl⟩⟩
  · rw [if_neg h]
    exact ⟨Or.inr, fun hc => hc.resolve_left h⟩

theorem accepts_maybe : (maybe c).Accepts raw ↔ raw.kind = .null ∨ c.Accepts raw := by
  unfold Accepts
  rw [decode_maybe]
  exact accepts_optional

theorem fieldFits_of_absent {es : Entries Key Value} {k : Key} (h : es.get? k = none) :
    FieldFits es (k, c) ↔ c.isRequired = false := by
  simp only [FieldFits, h]

theorem fieldFits_of_present {es : Entries Key Value} {k : Key} {v : Value}
    (h : es.get? k = some v) : FieldFits es (k, c) ↔ c.Accepts v := by
  simp only [FieldFits, h]

theorem decodeFields_succeeds {es done : Entries Key Value} :
    (decode.decodeFields fields es done).Succeeds ↔ ∀ f ∈ fields, FieldFits es f := by
  induction fields generalizing done with
  | nil => exact ⟨fun _ _ h => absurd h List.not_mem_nil, fun _ => ⟨done, rfl⟩⟩
  | cons f rest ih =>
    obtain ⟨k, c⟩ := f
    rw [List.forall_mem_cons, decode.decodeFields]
    cases hk : es.get? k with
    | none =>
      rw [fieldFits_of_absent hk]
      cases hc : c.isRequired with
      | false => exact ih.trans ⟨fun h => ⟨rfl, h⟩, fun h => h.2⟩
      | true => exact Decoded.failed_iff rfl fun h => Bool.false_ne_true h.1.symm
    | some v =>
      simp only [fieldFits_of_present hk, Accepts]
      cases hv : decode c v with
      | error e => exact Decoded.failed_iff rfl fun h => Decoded.not_succeeds rfl h.1
      | ok w => exact ih.trans ⟨fun h => ⟨⟨w, rfl⟩, h⟩, fun h => h.2⟩

theorem accepts_interface :
    (interface fields).Accepts raw ↔ ∃ es, raw = .dict es ∧ ∀ f ∈ fields, FieldFits es f := by
  unfold Accepts
  cases raw with
  | dict es =>
    rw [decode, Decoded.succeeds_bind, decodeFields_succeeds]
    constructor
    · intro h
      exact ⟨es, rfl, h⟩
    · rintro ⟨_, he, h⟩
      exact Value.dict.inj he ▸ h
  | _ => exact Decoded.failed_iff rfl (by rintro ⟨es, he, -⟩; cases he)

theorem accepts_record {item : Codec} :
    (record item).Accepts raw ↔
      ∃ es, raw = .dict es ∧ ∀ e ∈ es, (∃ s, e.1 = .str s) ∧ item.Accepts e.2 := by
  unfold Accepts
  cases raw with
  | dict es =>
    rw [decode, Decoded.succeeds_bind, decodeEntries_succeeds]
    constructor
    · intro h
      exact ⟨es, rfl, h⟩
    · rintro ⟨_, he, h⟩
      exact Value.dict.inj he ▸ h
  | _ => exact Decoded.failed_iff rfl (by rintro ⟨es, he, -⟩; cases he)

theorem decodeFields_error {raw done : Entries Key Value}
    (h : decode.decodeFields fields raw done = .error f) :
    ∃ e ∈ fields, (raw.get? e.1 = none ∧ e.2.isRequired = true ∧
        f = .failure ⟨[.key e.1], "missing required property"⟩) ∨
      ∃ v g, raw.get? e.1 = some v ∧ e.2.decode v = .error g ∧ f = g.below (.key e.1) := by
  induction fields generalizing done with
  | nil => cases h
  | cons e rest ih =>
    obtain ⟨k, c⟩ := e
    rw [decode.decodeFields] at h
    cases hk : raw.get? k with
    | none =>
      rw [hk] at h
      by_cases hreq : c.isRequired = true
      · simp only [hreq, if_true] at h
        exact ⟨(k, c), List.mem_cons_self, .inl ⟨hk, hreq, (Except.error.inj h).symm⟩⟩
      · simp only [hreq] at h
        obtain ⟨d, hd, hfails⟩ := ih h
        exact ⟨d, List.mem_cons_of_mem _ hd, hfails⟩
    | some v =>
      simp only [hk] at h
      cases hv : c.decode v with
      | error g =>
        simp only [hv] at h
        exact ⟨(k, c), List.mem_cons_self, .inr ⟨v, g, hk, hv, (Except.error.inj h).symm⟩⟩
      | ok w =>
        simp only [hv] at h
        obtain ⟨d, hd, hfails⟩ := ih h
        exact ⟨d, List.mem_cons_of_mem _ hd, hfails⟩

/-- Alternatives fail together and the texts of their failures are listed, or the text of one of them
cannot be written. -/
theorem decodeAny_error {failures : List String}
    (h : decode.decodeAny members raw failures = .error f) :
    (∃ (told : List (Codec × Undecoded)) (texts : List String), members = told.map Prod.fst ∧
      (∀ p ∈ told, p.1.decode raw = .error p.2) ∧
      List.Forall₂ (fun p text => p.2.writeText = .ok text) told texts ∧
      f = .failure ⟨[], "no union member matched: " ++ joined "; " (failures ++ texts)⟩) ∨
    ∃ c ∈ members, ∃ g e, c.decode raw = .error g ∧ g.writeText = .error e ∧ f = .unwritten e := by
  induction members generalizing failures with
  | nil =>
    refine .inl ⟨[], [], rfl, nofun, .nil, ?_⟩
    rw [List.append_nil]
    exact (Except.error.inj h).symm
  | cons c rest ih =>
    rw [decode.decodeAny] at h
    cases hc : c.decode raw with
    | ok v =>
      rw [hc] at h
      cases h
    | error g =>
      rw [hc] at h
      dsimp only at h
      cases htext : g.writeText with
      | error e =>
        rw [htext] at h
        cases h
        exact .inr ⟨c, List.mem_cons_self, g, e, hc, htext, rfl⟩
      | ok text =>
        rw [htext] at h
        obtain ⟨told, texts, rfl, htold, htexts, rfl⟩ | ⟨d, hd, hbreaks⟩ := ih h
        · refine .inl ⟨(c, g) :: told, text :: texts, rfl, ?_, .cons htext htexts, ?_⟩
          · exact List.forall_mem_cons.mpr ⟨hc, htold⟩
          · rw [List.append_assoc]
            rfl
        · exact .inr ⟨d, List.mem_cons_of_mem c hd, hbreaks⟩

theorem decodeAny_refuses {failures : List String}
    (h : (decode.decodeAny members raw failures).Refuses) : ∀ c ∈ members, c.Refuses raw := by
  obtain ⟨f, hf⟩ := h
  obtain ⟨told, texts, rfl, htold, htexts, -⟩ | ⟨_, _, _, _, _, _, hbreak⟩ := decodeAny_error hf
  · intro c hc
    obtain ⟨p, hp, rfl⟩ := List.mem_map.mp hc
    obtain ⟨text, -, htext⟩ := (partners htexts).1 p hp
    obtain ⟨f, hfailure⟩ := Undecoded.eq_failure_of_writeText htext
    exact ⟨f, (htold p hp).trans (congrArg Except.error hfailure)⟩
  · cases hbreak

/-- Alternatives accept what one of them accepts, unless they break off before it. -/
theorem accepts_oneOf : (oneOf members).Accepts raw ↔
    (∃ c ∈ members, c.Accepts raw) ∧ ¬ (oneOf members).BreaksOff raw := by
  constructor
  · intro h
    obtain ⟨v, hv⟩ := id h
    obtain ⟨c, hc, hcv⟩ := decodeAny_member hv
    exact ⟨⟨c, hc, v, hcv⟩, h.not_breaksOff⟩
  · rintro ⟨⟨c, hc, haccepts⟩, hends⟩
    rcases ((oneOf members).decode raw).succeeds_or with h | h | h
    · exact h
    · exact absurd (decodeAny_refuses h c hc) haccepts.not_refuses
    · exact absurd h hends

theorem accepts_intersect : (intersect c d).Accepts raw ↔ c.Accepts raw ∧ d.Accepts raw := by
  unfold Accepts
  rw [decode]
  cases hc : decode c raw with
  | error e => exact Decoded.failed_iff rfl fun h => Decoded.not_succeeds rfl h.1
  | ok l => exact Decoded.succeeds_bind.trans ⟨fun h => ⟨⟨l, rfl⟩, h⟩, fun h => h.2⟩

theorem guarded_eq_ok {what : String} {test : Bool} {v : Value}
    (h : guarded what test raw = .ok v) : v = raw := by
  unfold guarded at h
  split at h
  · exact (Except.ok.inj h).symm
  · cases h

theorem kind_of_decode {v : Value} (h : c.decode raw = .ok v) (hraw : raw.kind ≠ .null) :
    v.kind ≠ .null := by
  induction c generalizing v with
  | unknown =>
    cases h
    exact hraw
  | string | number | boolean | null =>
    rw [decode] at h
    rwa [guarded_eq_ok h]
  | date =>
    rw [decode] at h
    unfold decodeDate at h
    split at h
    · cases h
      exact hraw
    · split at h
      · cases h
        exact Kind.noConfusion
      · cases h
    · cases h
  | exactly literal =>
    rw [decode] at h
    split at h
    · cases h
      exact hraw
    · cases h
  | array item _ =>
    obtain ⟨items, rfl, -⟩ := accepts_array.mp ⟨v, h⟩
    rw [decode] at h
    obtain ⟨vs, -, he⟩ := bind_eq_ok.mp h
    cases he
    exact Kind.noConfusion
  | optional inner ih | maybe inner ih =>
    rw [decode, if_neg hraw] at h
    exact ih h
  | interface fields _ =>
    obtain ⟨es, rfl, -⟩ := accepts_interface.mp ⟨v, h⟩
    rw [decode] at h
    obtain ⟨fs, -, he⟩ := bind_eq_ok.mp h
    cases he
    exact Kind.noConfusion
  | record item _ =>
    obtain ⟨es, rfl, -⟩ := accepts_record.mp ⟨v, h⟩
    rw [decode] at h
    obtain ⟨fs, -, he⟩ := bind_eq_ok.mp h
    cases he
    exact Kind.noConfusion
  | oneOf members ih =>
    obtain ⟨b, hb, hv⟩ := decodeAny_member h
    exact ih b hb hv
  | intersect left right _ ihr =>
    rw [decode] at h
    obtain ⟨l, -, h⟩ := bind_eq_ok.mp h
    obtain ⟨r, hr, h⟩ := bind_eq_ok.mp h
    cases h
    have hkind := ihr hr
    unfold mergeDecoded
    split
    · exact Kind.noConfusion
    · exact hkind
  | model name ref target ih =>
    cases target with
    | none => cases h
    | some t => exact ih t rfl h

/-- Both codecs may be missing or neither, and they decode every value alike. -/
def Alike (c d : Codec) : Prop := c.isRequired = d.isRequired ∧ c.decode = d.decode

theorem decodeFields_alike {fs gs : List (Key × Codec)}
    (h : List.Forall₂ (fun e d => e.1 = d.1 ∧ Alike e.2 d.2) fs gs) (es done : Entries Key Value) :
    decode.decodeFields fs es done = decode.decodeFields gs es done := by
  induction h generalizing done with
  | nil => rfl
  | @cons e d fs gs hed _ ih =>
    obtain ⟨k, c⟩ := e
    obtain ⟨k', c'⟩ := d
    obtain ⟨rfl, hreq, hdec⟩ : k = k' ∧ c.isRequired = c'.isRequired ∧ c.decode = c'.decode := hed
    simp only [decode.decodeFields, hreq, hdec, ih]

theorem decodeAny_alike {cs ds : List Codec} (h : List.Forall₂ Alike cs ds) (raw : Value)
    (failures : List String) :
    decode.decodeAny cs raw failures = decode.decodeAny ds raw failures := by
  induction h generalizing failures with
  | nil => rfl
  | cons hcd _ ih => simp only [decode.decodeAny, hcd.2, ih]

theorem congruence_alike : Congruence Alike where
  refl _ := ⟨rfl, rfl⟩
  array h := ⟨rfl, funext fun raw => by cases raw <;> simp only [decode, h.2]⟩
  optional h := ⟨rfl, funext fun raw => by simp only [decode, h.2]⟩
  maybe h := ⟨rfl, funext fun raw => by simp only [decode, h.2]⟩
  record h := ⟨rfl, funext fun raw => by cases raw <;> simp only [decode, h.2]⟩
  interface h := ⟨rfl, funext fun raw => by
    cases raw <;> simp only [decode, decodeFields_alike h]⟩
  oneOf h := ⟨rfl, funext fun raw => by simp only [decode, decodeAny_alike h]⟩
  intersect h k := ⟨rfl, funext fun raw => by simp only [decode, h.2, k.2]⟩

section Refuses

theorem refuses_array {item : Codec} {items : List Value} (h : (array item).Refuses (.list items)) :
    ∃ v ∈ items, item.Refuses v := by
  obtain ⟨f, hf⟩ := h
  rw [decode] at hf
  obtain ⟨j, v, g, hv, hg, hbelow⟩ := decodeItems_error (bind_eq_error hf)
  obtain ⟨f, rfl, -⟩ := Undecoded.below_eq_failure hbelow.symm
  exact ⟨v, List.mem_of_getElem? hv, f, hg⟩

theorem refuses_optional (h : (optional c).Refuses raw) : raw.kind ≠ .null ∧ c.Refuses raw := by
  unfold Refuses at h
  rw [decode] at h
  by_cases hnull : raw.kind = .null
  · rw [if_pos hnull] at h
    obtain ⟨f, hf⟩ := h
    cases hf
  · rw [if_neg hnull] at h
    exact ⟨hnull, h⟩

theorem refuses_maybe (h : (maybe c).Refuses raw) : raw.kind ≠ .null ∧ c.Refuses raw := by
  unfold Refuses at h
  rw [decode_maybe] at h
  exact refuses_optional h

/-- A field is missing, or what stands under its key is refused. -/
def FieldRefused (raw : Entries Key Value) (f : Key × Codec) : Prop :=
  match raw.get? f.1 with
  | none => f.2.isRequired = true
  | some v => f.2.Refuses v

theorem refuses_interface {es : Entries Key Value} (h : (interface fields).Refuses (.dict es)) :
    ∃ f ∈ fields, FieldRefused es f := by
  obtain ⟨f, hf⟩ := h
  rw [decode] at hf
  obtain ⟨e, he, ⟨hk, hreq, -⟩ | ⟨v, g, hk, hg, hbelow⟩⟩ := decodeFields_error (bind_eq_error hf)
  · refine ⟨e, he, ?_⟩
    simpa only [FieldRefused, hk] using hreq
  · obtain ⟨f, rfl, -⟩ := Undecoded.below_eq_failure hbelow.symm
    refine ⟨e, he, ?_⟩
    simpa only [FieldRefused, hk] using ⟨f, hg⟩

theorem refuses_record {item : Codec} {es : Entries Key Value}
    (h : (record item).Refuses (.dict es)) :
    ∃ e ∈ es, (∃ s, e.1 = .str s) → item.Refuses e.2 := by
  obtain ⟨f, hf⟩ := h
  rw [decode] at hf
  obtain ⟨e, he, ⟨hkey, -⟩ | ⟨g, hg, hbelow⟩⟩ := decodeEntries_error (bind_eq_error hf)
  · refine ⟨e, he, ?_⟩
    rintro ⟨s, hs⟩
    rw [hs] at hkey
    cases hkey
  · obtain ⟨f, rfl, -⟩ := Undecoded.below_eq_failure hbelow.symm
    exact ⟨e, he, fun _ => ⟨f, hg⟩⟩

theorem refuses_intersect (h : (intersect c d).Refuses raw) : c.Refuses raw ∨ d.Refuses raw := by
  unfold Refuses at h ⊢
  rw [decode] at h
  cases hc : decode c raw with
  | error u =>
    rw [hc] at h
    obtain ⟨f, hf⟩ := h
    cases hf
    exact .inl ⟨f, rfl⟩
  | ok l =>
    rw [hc] at h
    exact .inr (Decoded.refuses_bind.mp h)

end Refuses

/-- Both codecs may be missing or neither, and the first refuses nothing that the second accepts. -/
def Weaker (c d : Codec) : Prop :=
  c.isRequired = d.isRequired ∧ ∀ raw, d.Accepts raw → ¬ c.Refuses raw

theorem Weaker.not_fieldRefused {c d : Codec} (h : Weaker c d) {es : Entries Key Value} {k : Key}
    (hd : FieldFits es (k, d)) : ¬ FieldRefused es (k, c) := by
  simp only [FieldRefused]
  cases hk : es.get? k with
  | none =>
    rw [fieldFits_of_absent hk] at hd
    exact Bool.eq_false_iff.mp (h.1.trans hd)
  | some v =>
    rw [fieldFits_of_present hk] at hd
    exact h.2 v hd

theorem congruence_weaker : Congruence Weaker where
  refl _ := ⟨rfl, fun _ h => h.not_refuses⟩
  array h := ⟨rfl, fun raw hd hc => by
    obtain ⟨items, rfl, hitems⟩ := accepts_array.mp hd
    obtain ⟨v, hv, hrefuses⟩ := refuses_array hc
    exact h.2 v (hitems v hv) hrefuses⟩
  optional h := ⟨rfl, fun raw hd hc => by
    obtain ⟨hgiven, hrefuses⟩ := refuses_optional hc
    exact h.2 raw ((accepts_optional.mp hd).resolve_left hgiven) hrefuses⟩
  maybe h := ⟨rfl, fun raw hd hc => by
    obtain ⟨hgiven, hrefuses⟩ := refuses_maybe hc
    exact h.2 raw ((accepts_maybe.mp hd).resolve_left hgiven) hrefuses⟩
  record h := ⟨rfl, fun raw hd hc => by
    obtain ⟨es, rfl, hes⟩ := accepts_record.mp hd
    obtain ⟨e, he, hrefuses⟩ := refuses_record hc
    exact h.2 e.2 (hes e he).2 (hrefuses (hes e he).1)⟩
  interface h := ⟨rfl, fun raw hd hc => by
    obtain ⟨es, rfl, hes⟩ := accepts_interface.mp hd
    obtain ⟨⟨k, c⟩, he, hrefused⟩ := refuses_interface hc
    obtain ⟨⟨k', d⟩, hd, hk, hcd⟩ := (partners h).1 (k, c) he
    obtain rfl : k = k' := hk
    exact hcd.not_fieldRefused (hes (k, d) hd) hrefused⟩
  oneOf h := ⟨rfl, fun raw hd hc => by
    obtain ⟨⟨d, hmem, hd⟩, -⟩ := accepts_oneOf.mp hd
    obtain ⟨c, hcmem, hcd⟩ := (partners h).2 d hmem
    exact hcd.2 raw hd (decodeAny_refuses hc c hcmem)⟩
  intersect h k := ⟨rfl, fun raw hd hc => by
    obtain ⟨hleft, hright⟩ := accepts_intersect.mp hd
    rcases refuses_intersect hc with hc | hc
    · exact h.2 raw hleft hc
    · exact k.2 raw hright hc⟩

theorem Weaker.accepts_iff (h : Weaker c d) (hd : d.Accepts raw) :
    c.Accepts raw ↔ ¬ c.BreaksOff raw := by
  constructor
  · exact Decoded.Succeeds.not_breaksOff
  · intro hends
    rcases (c.decode raw).succeeds_or with hc | hc | hc
    · exact hc
    · exact absurd hc (h.2 raw hd)
    · exact absurd hc hends

end Codec

end OpenApi
