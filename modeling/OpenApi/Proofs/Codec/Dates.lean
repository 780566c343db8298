import OpenApi.Proofs.Codec.Merged
import OpenApi.Proofs.Value.Wire
/-! # What decoding changes

A codec gives back the value that it reads, with some of its texts replaced by the times that they stand
for. At no depth is anything dropped, added, moved or changed otherwise, and without a codec of dates the
value comes back as it is. -/
namespace OpenApi

theorem decodeDate_str {s : String} {v : Value} :
    decodeDate (.str s) = .ok v ↔ ∃ t, timeOf? s = some t ∧ v = .datetime t := by
  rw [decodeDate, timeOf?]
  cases Time.DateTime.read? (zuluText s) with
  | none => simp
  | some t => simp [eq_comm]

theorem decodeDate_of_isJson {raw v : Value} (hraw : raw.isJson = true)
    (h : decodeDate raw = .ok v) : ∃ s t, raw = .str s ∧ v = .datetime t ∧ timeOf? s = some t := by
  cases raw with
  | str s =>
    obtain ⟨t, ht, hv⟩ := decodeDate_str.1 h
    exact ⟨s, t, rfl, hv, ht⟩
  | datetime t => cases hraw
  | _ => cases h

theorem decodeItems_eq_ok {read : Value → Decoded Value} {i : Nat} {items ws : List Value} :
    decodeItems read i items = .ok ws ↔ List.Forall₂ (fun v w => read v = .ok w) items ws := by
  induction items generalizing i ws with
  | nil =>
    rw [List.forall₂_nil_left_iff]
    exact ⟨fun h => (Except.ok.inj h).symm, fun h => congrArg Except.ok h.symm⟩
  | cons v rest ih =>
    rw [decodeItems]
    constructor
    · intro h
      cases hv : read v with
      | error f =>
        rw [hv] at h
        cases h
      | ok w =>
        rw [hv] at h
        obtain ⟨ws, hrest, he⟩ := bind_eq_ok.1 h
        cases he
        exact .cons hv (ih.1 hrest)
    · intro h
      cases h with
      | cons hv hrest =>
        rw [hv]
        exact bind_eq_ok.2 ⟨_, ih.2 hrest, rfl⟩

theorem decodeEntries_eq_ok {read : Value → Decoded Value} {es fs : List (Key × Value)} :
    decodeEntries read es = .ok fs ↔ List.Forall₂
      (fun e f => e.1 = f.1 ∧ (∃ s, e.1 = .str s) ∧ read e.2 = .ok f.2) es fs := by
  induction es generalizing fs with
  | nil =>
    rw [List.forall₂_nil_left_iff]
    exact ⟨fun h => (Except.ok.inj h).symm, fun h => congrArg Except.ok h.symm⟩
  | cons e rest ih =>
    obtain ⟨k, v⟩ := e
    constructor
    · intro h
      cases k with
      | str s =>
        rw [decodeEntries] at h
        cases hv : read v with
        | error f =>
          rw [hv] at h
          cases h
        | ok w =>
          rw [hv] at h
          obtain ⟨fs, hrest, he⟩ := bind_eq_ok.1 h
          cases he
          exact .cons ⟨rfl, ⟨s, rfl⟩, hv⟩ (ih.1 hrest)
      | _ => cases h
    · intro h
      cases h with
      | @cons _ f _ fs hf hrest =>
        obtain ⟨k', w⟩ := f
        obtain ⟨rfl, ⟨s, rfl⟩, hv⟩ : k = k' ∧ (∃ s, k = .str s) ∧ read v = .ok w := hf
        rw [decodeEntries, hv]
        exact bind_eq_ok.2 ⟨fs, ih.2 hrest, rfl⟩

/-- The second value is the first one with some of its texts replaced by the times that a codec of dates
reads from them. Where no times are allowed, none is replaced. -/
inductive Dated (times : Prop) : Value → Value → Prop
  | same (v : Value) : Dated times v v
  | time {s : String} {t : Time.DateTime} (allowed : times)
      (read : Codec.date.decode (.str s) = .ok (.datetime t)) : Dated times (.str s) (.datetime t)
  | list {items items' : List Value} (h : List.Forall₂ (Dated times) items items') :
      Dated times (.list items) (.list items')
  | dict {es es' : Entries Key Value} (keys : es.keys = es'.keys)
      (values : List.Forall₂ (Dated times) es.values es'.values) : Dated times (.dict es) (.dict es')

namespace Dated

variable {times : Prop} {v w raw : Value} {es fs : Entries Key Value}

theorem of_entries (h : Entries.Pointwise (Dated times) es fs) :
    Dated times (.dict es) (.dict fs) := .dict h.keys.symm h.values

theorem dict_left (h : Dated times (.dict es) v) :
    ∃ fs, v = .dict fs ∧ Entries.Pointwise (Dated times) es fs := by
  cases h with
  | same _ => exact ⟨es, rfl, List.forall₂_same.2 fun e _ => ⟨rfl, .same e.2⟩⟩
  | dict hk hv => exact ⟨_, rfl, .of_values hk hv⟩

theorem dict_right (h : Dated times raw (.dict fs)) :
    ∃ es, raw = .dict es ∧ Entries.Pointwise (Dated times) es fs := by
  cases h with
  | same _ => exact ⟨fs, rfl, List.forall₂_same.2 fun e _ => ⟨rfl, .same e.2⟩⟩
  | dict hk hv => exact ⟨_, rfl, .of_values hk hv⟩

theorem list_left {items : List Value} (h : Dated times (.list items) v) :
    ∃ ws, v = .list ws ∧ List.Forall₂ (Dated times) items ws := by
  cases h with
  | same _ => exact ⟨items, rfl, List.forall₂_same.2 fun w _ => .same w⟩
  | list h => exact ⟨_, rfl, h⟩

theorem eq (hnone : ¬ times) (h : Dated times v w) : w = v := by
  induction v generalizing w with
  | list items ih =>
    obtain ⟨ws, rfl, hws⟩ := h.list_left
    have hsame : List.Forall₂ (· = ·) ws items :=
      (forall₂_of_members hws fun v hv w hvw => ih v hv hvw).flip
    rw [List.forall₂_eq_eq_eq] at hsame
    rw [hsame]
  | dict es ih =>
    obtain ⟨fs, rfl, hfs⟩ := h.dict_left
    have hsame : List.Forall₂ (· = ·) fs es :=
      (forall₂_of_members hfs fun e he _ hef => Prod.ext hef.1.symm (ih e he hef.2)).flip
    rw [List.forall₂_eq_eq_eq] at hsame
    rw [hsame]
  | str s =>
    cases h with
    | same _ => rfl
    | time allowed _ => exact absurd allowed hnone
  | _ =>
    cases h
    rfl

/-- Two readings of one object have its keys, so the right one covers the left one. -/
theorem mergeDecoded_eq {l r : Value} (hraw : raw.isJson = true) (hl : Dated times raw l)
    (hr : Dated times raw r) : mergeDecoded l r = r := by
  unfold mergeDecoded
  split
  · obtain ⟨es, rfl, hleft⟩ := hl.dict_right
    obtain ⟨_, he, hright⟩ := hr.dict_right
    cases he
    have hd := (Value.isJson_dict.1 hraw).1
    rw [Entries.Distinct, ← hright.keys] at hd
    rw [Entries.overlay_of_keys_eq hd (hleft.keys.trans hright.keys.symm)]
  · rfl

end Dated

namespace Codec

variable {c d : Codec} {raw v : Value} {fields : List (Key × Codec)} {times : Prop}

/-- The codec stands somewhere in the second one, or in a model that this one refers to. -/
inductive Occurs (d : Codec) : Codec → Prop
  | self : Occurs d d
  | array {item : Codec} (h : Occurs d item) : Occurs d (.array item)
  | optional {inner : Codec} (h : Occurs d inner) : Occurs d (.optional inner)
  | maybe {inner : Codec} (h : Occurs d inner) : Occurs d (.maybe inner)
  | interface {fields : List (Key × Codec)} {f : Key × Codec} (hf : f ∈ fields)
      (h : Occurs d f.2) : Occurs d (.interface fields)
  | record {item : Codec} (h : Occurs d item) : Occurs d (.record item)
  | oneOf {members : List Codec} {c : Codec} (hc : c ∈ members) (h : Occurs d c) :
      Occurs d (.oneOf members)
  | left {l r : Codec} (h : Occurs d l) : Occurs d (.intersect l r)
  | right {l r : Codec} (h : Occurs d r) : Occurs d (.intersect l r)
  | model {name ref : String} {target : Codec} (h : Occurs d target) :
      Occurs d (.model name ref (some target))

theorem dated_of_decodeFields {es done fs : Entries Key Value}
    (hread : ∀ f ∈ fields, ∀ v w, es.get? f.1 = some v → f.2.decode v = .ok w → Dated times v w)
    (hdone : Entries.Pointwise (Dated times) es done)
    (h : decode.decodeFields fields es done = .ok fs) : Entries.Pointwise (Dated times) es fs := by
  induction fields generalizing done with
  | nil =>
    cases h
    exact hdone
  | cons f rest ih =>
    obtain ⟨hf, hrest⟩ := List.forall_mem_cons.1 hread
    obtain ⟨-, h⟩ | ⟨v, w, hv, hw, h⟩ := decodeFields_cons h
    · exact ih hrest hdone h
    · exact ih hrest (hdone.put hv (hf v w hv hw)) h

theorem dated_of_decode (htimes : Occurs date c → times) (hraw : raw.isJson = true)
    (h : c.decode raw = .ok v) : Dated times raw v := by
  induction c generalizing raw v with
  | unknown =>
    cases h
    exact .same raw
  | string | number | boolean | null =>
    rw [decode] at h
    rw [guarded_eq_ok h]
    exact .same raw
  | date =>
    obtain ⟨s, t, rfl, rfl, -⟩ := decodeDate_of_isJson hraw h
    exact .time (htimes .self) h
  | exactly literal =>
    rw [decode] at h
    split at h
    · cases h
      exact .same raw
    · cases h
  | array item ih =>
    obtain ⟨items, rfl, -⟩ := accepts_array.1 ⟨v, h⟩
    rw [decode] at h
    obtain ⟨ws, hws, he⟩ := bind_eq_ok.1 h
    cases he
    have hitems := Value.isJson_list.1 hraw
    exact .list (forall₂_of_members (decodeItems_eq_ok.1 hws)
      fun v hv w hvw => ih (fun hd => htimes (.array hd)) (hitems v hv) hvw)
  | optional inner ih =>
    rw [decode] at h
    split at h
    · cases h
      exact .same raw
    · exact ih (fun hd => htimes (.optional hd)) hraw h
  | maybe inner ih =>
    rw [decode] at h
    split at h
    · cases h
      exact .same raw
    · exact ih (fun hd => htimes (.maybe hd)) hraw h
  | interface fields ih =>
    obtain ⟨es, rfl, -⟩ := accepts_interface.1 ⟨v, h⟩
    obtain ⟨fs, hfs, hdecoded⟩ := decode_interface_dict ⟨v, h⟩
    cases h.symm.trans hdecoded
    have hsame : Entries.Pointwise (Dated times) es es :=
      List.forall₂_same.2 fun e _ => ⟨rfl, .same e.2⟩
    refine .of_entries (dated_of_decodeFields (fun f hf v w hv hw => ?_) hsame hfs)
    exact ih f hf (fun hd => htimes (.interface hf hd)) (Value.isJson_of_get? hraw hv) hw
  | record item ih =>
    obtain ⟨es, rfl, -⟩ := accepts_record.1 ⟨v, h⟩
    rw [decode] at h
    obtain ⟨fs, hfs, he⟩ := bind_eq_ok.1 h
    cases he
    obtain ⟨-, hes⟩ := Value.isJson_dict.1 hraw
    refine .of_entries (forall₂_of_members (decodeEntries_eq_ok.1 hfs) fun e he f hef => ?_)
    exact ⟨hef.1, ih (fun hd => htimes (.record hd)) (hes e he).2 hef.2.2⟩
  | oneOf members ih =>
    obtain ⟨c, hc, hv⟩ := decodeAny_member h
    exact ih c hc (fun hd => htimes (.oneOf hc hd)) hraw hv
  | intersect left right ihl ihr =>
    rw [decode] at h
    obtain ⟨l, hl, h⟩ := bind_eq_ok.1 h
    obtain ⟨r, hr, h⟩ := bind_eq_ok.1 h
    cases h
    have hleft := ihl (fun hd => htimes (.left hd)) hraw hl
    have hright := ihr (fun hd => htimes (.right hd)) hraw hr
    rw [hleft.mergeDecoded_eq hraw hright]
    exact hright
  | model name ref target ih =>
    cases target with
    | none => cases h
    | some t => exact ih t rfl (fun hd => htimes (.model hd)) hraw h

theorem mergeDecoded_of_decode {l r : Value} (hraw : raw.isJson = true) (hl : c.decode raw = .ok l)
    (hr : d.decode raw = .ok r) : mergeDecoded l r = r :=
  (dated_of_decode (fun _ => trivial) hraw hl).mergeDecoded_eq hraw
    (dated_of_decode (fun _ => trivial) hraw hr)

/-- Decoding JSON changes nothing but texts that are read as dates, and a codec in which no codec of dates
occurs changes nothing at all. -/
theorem changes_dates_only (hraw : raw.isJson = true) (h : c.decode raw = .ok v) :
    Dated (Occurs date c) raw v ∧ (¬ Occurs date c → v = raw) :=
  ⟨dated_of_decode id hraw h, fun hnone => (dated_of_decode id hraw h).eq hnone⟩

def visits : Codec := .record (.oneOf [.array (.maybe .date), .string])

def visitsOn (day : Value) : Value :=
  .object [("Ada", .list [day, .null]), ("note", .str "2024-01-02")]

def newYear : Time.DateTime := ⟨⟨2024, 1, 1⟩, 0, 0, 0, 0, none⟩

theorem decode_visits :
    visits.decode (visitsOn (.str "2024-01-01")) = .ok (visitsOn (.datetime newYear)) := by
  have htime : timeOf? "2024-01-01" = some newYear := by decide +kernel
  have hday := decodeDate_str.2 ⟨newYear, htime, rfl⟩
  simp [visits, visitsOn, Value.object, decode, decode.decodeAny, decodeEntries, decodeItems, hday,
    guarded, expectedSort, expected, Undecoded.writeText, Value.kind, bind, Except.bind, pure, Except.pure]

theorem changes_dates_only_visits :
    Dated (Occurs date visits) (visitsOn (.str "2024-01-01")) (visitsOn (.datetime newYear)) ∧
      (record unknown).decode (visitsOn (.str "2024-01-01")) =
        .ok (visitsOn (.str "2024-01-01")) := by
  have hnone : ¬ Occurs date (record unknown) := by
    intro h
    cases h with
    | record h => cases h
  obtain ⟨v, hv⟩ : ∃ v, (record unknown).decode (visitsOn (.str "2024-01-01")) = .ok v := ⟨_, rfl⟩
  have hsame := (changes_dates_only (by decide +kernel) hv).2 hnone
  exact ⟨(changes_dates_only (by decide +kernel) decode_visits).1, hsame ▸ hv⟩

end Codec

end OpenApi
