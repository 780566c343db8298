import OpenApi.Proofs.Codec.Dates
/-! # Reading what was read

What a codec reads from JSON can be written again, with other spellings of its times. Codecs do not tell
such spellings apart, apart from literals, so they read the same from what was written. -/
namespace OpenApi

theorem zuluText_of_endsInDigit {s : String} (h : Time.EndsInDigit s.toList) : zuluText s = s := by
  obtain ⟨front, c, hs, hc⟩ := h
  have hz : (c == 'Z' || c == 'z') = false := by
    cases hcz : (c == 'Z' || c == 'z') with
    | false => rfl
    | true =>
      rw [Bool.or_eq_true, beq_iff_eq, beq_iff_eq] at hcz
      rcases hcz with rfl | rfl <;> cases hc
  rw [zuluText, hs, List.getLast?_concat]
  simp only [hz, Bool.false_eq_true, if_false]

theorem timeOf?_write {t : Time.DateTime} (h : t.Readable) : timeOf? (t.write 'T') = some t := by
  rw [timeOf?, zuluText_of_endsInDigit (Time.DateTime.endsInDigit_write h.valid),
    Time.DateTime.read?_write h]

theorem respelt_of_decodeDate {raw v : Value} (hraw : raw.isJson = true)
    (h : decodeDate raw = .ok v) : ∃ s t, raw = .str s ∧ v = .datetime t ∧
      timeOf? s = some t ∧ timeOf? (t.write 'T') = some t := by
  obtain ⟨s, t, hs, hv, ht⟩ := decodeDate_of_isJson hraw h
  exact ⟨s, t, hs, hv, ht, timeOf?_write (Time.DateTime.readable_of_read? ht)⟩

theorem Dated.respelt_onWire {times : Prop} {raw v : Value} (hraw : raw.isJson = true)
    (h : Dated times raw v) : Respelt raw v.onWire := by
  induction raw generalizing v with
  | list items ih =>
    obtain ⟨ws, rfl, hws⟩ := h.list_left
    have hitems := Value.isJson_list.1 hraw
    rw [Value.onWire_list]
    refine .list (List.forall₂_map_right_iff.2 ?_)
    exact forall₂_of_members hws fun v hv w hvw => ih v hv (hitems v hv) hvw
  | dict es ih =>
    obtain ⟨fs, rfl, hfs⟩ := h.dict_left
    obtain ⟨-, hes⟩ := Value.isJson_dict.1 hraw
    rw [Value.onWire_dict]
    have hread : RespeltEntries es (Entries.mapValues Value.onWire fs) :=
      List.forall₂_map_right_iff.2 (forall₂_of_members hfs
        fun e he f hef => ⟨hef.1, ih e he (hes e he).2 hef.2⟩)
    exact hread.respelt
  | str s =>
    cases h with
    | same _ => exact .same _
    | @time s t _ read =>
      obtain ⟨_, _, hs, ht, hread, hwire⟩ := respelt_of_decodeDate hraw read
      cases hs
      cases ht
      exact .text hread hwire
  | _ =>
    cases h
    rw [Value.onWire_of_isJson hraw]
    exact .same _

/-- Both readings succeed, or both fail at one place, or what was to be said of both cannot be written. -/
inductive Decoded.Parallel {α : Type} : Decoded α → Decoded α → Prop
  | ok (a b : α) : Parallel (.ok a) (.ok b)
  | failure {f g : DecodeFailure} (h : f.path = g.path) : Parallel (failed f) (failed g)
  | unwritten (e : WriteError) : Parallel (.error (.unwritten e)) (.error (.unwritten e))

namespace Decoded.Parallel

variable {α β : Type} {x y : Decoded α}

theorem refl (x : Decoded α) : Parallel x x := by
  match x with
  | .ok a => exact .ok a a
  | .error (.failure f) => exact .failure rfl
  | .error (.unwritten e) => exact .unwritten e

theorem map {f g : α → β} (h : Parallel x y) :
    Parallel (do return f (← x)) (do return g (← y)) := by
  cases h with
  | ok a b => exact .ok (f a) (g b)
  | failure h => exact .failure h
  | unwritten e => exact .unwritten e

theorem succeeds (h : Parallel x y) (hx : x.Succeeds) : y.Succeeds := by
  cases h with
  | ok a b => exact ⟨b, rfl⟩
  | failure _ => exact absurd hx (not_succeeds rfl)
  | unwritten _ => exact absurd hx (not_succeeds rfl)

end Decoded.Parallel

theorem DecodeFailure.writeText_of_path {f g : DecodeFailure} (h : f.path = g.path) :
    (∃ s t, f.writeText = .ok s ∧ g.writeText = .ok t) ∨
      ∃ e, f.writeText = .error e ∧ g.writeText = .error e := by
  unfold writeText
  rw [h]
  cases g.path.mapM Step.writeText with
  | ok steps => exact .inl ⟨_, _, rfl, rfl⟩
  | error e => exact .inr ⟨e, rfl, rfl⟩

namespace Codec

variable {c : Codec} {raw v : Value} {fields : List (Key × Codec)}

def isLiteralFree : Codec → Bool
  | exactly _ => false
  | array item => isLiteralFree item
  | optional inner => isLiteralFree inner
  | maybe inner => isLiteralFree inner
  | interface fields => allFields fields
  | record item => isLiteralFree item
  | oneOf members => all members
  | intersect left right => isLiteralFree left && isLiteralFree right
  | model _ _ (some target) => isLiteralFree target
  | _ => true
where
  all : List Codec → Bool
    | [] => true
    | c :: rest => isLiteralFree c && all rest
  allFields : List (Key × Codec) → Bool
    | [] => true
    | (_, c) :: rest => isLiteralFree c && allFields rest

theorem isLiteralFree_oneOf {members : List Codec} :
    (oneOf members).isLiteralFree = true ↔ ∀ c ∈ members, c.isLiteralFree = true := by
  rw [isLiteralFree]
  induction members with
  | nil => simp [isLiteralFree.all]
  | cons c rest ih => rw [isLiteralFree.all, Bool.and_eq_true, ih, List.forall_mem_cons]

theorem isLiteralFree_interface :
    (interface fields).isLiteralFree = true ↔ ∀ f ∈ fields, f.2.isLiteralFree = true := by
  rw [isLiteralFree]
  induction fields with
  | nil => simp [isLiteralFree.allFields]
  | cons f rest ih => rw [isLiteralFree.allFields, Bool.and_eq_true, ih, List.forall_mem_cons]

/-- What a codec reads from JSON is, once on the wire, what it was read from, with other spellings
of its times. -/
theorem respelt_onWire (hraw : raw.isJson = true) (h : c.decode raw = .ok v) :
    Respelt raw v.onWire := (dated_of_decode (fun _ => trivial) hraw h).respelt_onWire hraw

theorem guarded_parallel (what : String) (test : Bool) (v w : Value) :
    Decoded.Parallel (guarded what test v) (guarded what test w) := by
  cases test with
  | false => exact .failure rfl
  | true => exact .ok v w

theorem decodeItems_parallel {read : Value → Decoded Value} {items items' : List Value}
    (h : List.Forall₂ (fun v w => Decoded.Parallel (read v) (read w)) items items') (i : Nat) :
    Decoded.Parallel (decodeItems read i items) (decodeItems read i items') := by
  induction h generalizing i with
  | nil => exact .ok [] []
  | @cons v w _ _ hvw _ ih =>
    rw [decodeItems, decodeItems]
    generalize read v = x at hvw
    generalize read w = y at hvw
    cases hvw with
    | ok a b => exact (ih (i + 1)).map
    | failure h => exact .failure (congrArg (Step.index i :: ·) h)
    | unwritten e => exact .unwritten e

theorem decodeEntries_parallel {read : Value → Decoded Value} {es es' : List (Key × Value)}
    (h : List.Forall₂ (fun e e' => e.1 = e'.1 ∧ Decoded.Parallel (read e.2) (read e'.2)) es es') :
    Decoded.Parallel (decodeEntries read es) (decodeEntries read es') := by
  induction h with
  | nil => exact .ok [] []
  | @cons e e' _ _ hee _ ih =>
    obtain ⟨k, v⟩ := e
    obtain ⟨k', w⟩ := e'
    obtain ⟨rfl, hvw⟩ : k = k' ∧ Decoded.Parallel (read v) (read w) := hee
    cases k with
    | str s =>
      rw [decodeEntries, decodeEntries]
      generalize read v = x at hvw
      generalize read w = y at hvw
      cases hvw with
      | ok a b => exact ih.map
      | failure h => exact .failure (congrArg (Step.key (.str s) :: ·) h)
      | unwritten e => exact .unwritten e
    | _ => exact .failure rfl

theorem decodeFields_parallel {es es' done done' : Entries Key Value} (hes : RespeltEntries es es')
    (h : ∀ f ∈ fields, ∀ v w, Respelt v w → Decoded.Parallel (f.2.decode v) (f.2.decode w)) :
    Decoded.Parallel (decode.decodeFields fields es done)
      (decode.decodeFields fields es' done') := by
  induction fields generalizing done done' with
  | nil => exact .ok done done'
  | cons f rest ih =>
    obtain ⟨k, c⟩ := f
    obtain ⟨hc, hrest⟩ := List.forall_mem_cons.1 h
    rw [decode.decodeFields, decode.decodeFields]
    obtain ⟨hk, hk'⟩ | ⟨v, w, hk, hk', hvw⟩ := Entries.Pointwise.get? hes k
    · rw [hk, hk']
      dsimp only
      split
      · exact .failure rfl
      · exact ih hrest
    · have hparallel := hc v w hvw
      rw [hk, hk']
      dsimp only at hparallel ⊢
      generalize c.decode v = x at hparallel
      generalize c.decode w = y at hparallel
      cases hparallel with
      | ok a b => exact ih hrest
      | failure h => exact .failure (congrArg (Step.key k :: ·) h)
      | unwritten e => exact .unwritten e

theorem decodeAny_parallel {members : List Codec} {v w : Value} {failures failures' : List String}
    (h : ∀ c ∈ members, Decoded.Parallel (c.decode v) (c.decode w)) :
    Decoded.Parallel (decode.decodeAny members v failures)
      (decode.decodeAny members w failures') := by
  induction members generalizing failures failures' with
  | nil => exact .failure rfl
  | cons c rest ih =>
    obtain ⟨hc, hrest⟩ := List.forall_mem_cons.1 h
    rw [decode.decodeAny, decode.decodeAny]
    generalize c.decode v = x at hc
    generalize c.decode w = y at hc
    cases hc with
    | ok a b => exact .ok a b
    | failure h =>
      dsimp only [failed, Undecoded.writeText]
      obtain ⟨s, t, hs, ht⟩ | ⟨e, he, he'⟩ := DecodeFailure.writeText_of_path h
      · rw [hs, ht]
        exact ih hrest
      · rw [he, he']
        exact .unwritten e
    | unwritten e => exact .unwritten e

/-- Without literals no failure tells of the value that was read, so other spellings end alike. -/
theorem decode_parallel {v w : Value} (hfree : c.isLiteralFree = true) (hvw : Respelt v w) :
    Decoded.Parallel (c.decode v) (c.decode w) := by
  induction c generalizing v w with
  | unknown => exact .ok v w
  | string | number | boolean | null =>
    rw [decode, decode, hvw.kind]
    exact guarded_parallel _ _ v w
  | date =>
    cases hvw with
    | same _ => exact .refl _
    | text first second =>
      rw [decode, decode, decodeDate_str.2 ⟨_, first, rfl⟩, decodeDate_str.2 ⟨_, second, rfl⟩]
      exact .ok _ _
    | list _ => exact .failure rfl
    | dict _ _ => exact .failure rfl
  | exactly literal => cases hfree
  | array item ih =>
    cases hvw with
    | same _ => exact .refl _
    | text _ _ => exact .failure rfl
    | list hitems =>
      rw [decode, decode]
      exact (decodeItems_parallel (hitems.imp fun _ _ h => ih hfree h) 0).map
    | dict _ _ => exact .failure rfl
  | optional inner ih | maybe inner ih =>
    rw [decode, decode, hvw.kind]
    split
    · exact .ok v w
    · exact ih hfree hvw
  | interface fields ih =>
    have hfields := isLiteralFree_interface.1 hfree
    cases hvw with
    | same _ => exact .refl _
    | text _ _ => exact .failure rfl
    | list _ => exact .failure rfl
    | dict hk hv =>
      rw [decode, decode]
      exact (decodeFields_parallel (Entries.Pointwise.of_values hk hv)
        fun f hf v w h => ih f hf (hfields f hf) h).map
  | record item ih =>
    cases hvw with
    | same _ => exact .refl _
    | text _ _ => exact .failure rfl
    | list _ => exact .failure rfl
    | dict hk hv =>
      rw [decode, decode]
      have hes : RespeltEntries _ _ := Entries.Pointwise.of_values hk hv
      exact (decodeEntries_parallel (hes.imp fun _ _ h => ⟨h.1, ih hfree h.2⟩)).map
  | oneOf members ih =>
    exact decodeAny_parallel fun c hc => ih c hc (isLiteralFree_oneOf.1 hfree c hc) hvw
  | intersect left right ihl ihr =>
    obtain ⟨hfl, hfr⟩ := (Bool.and_eq_true _ _).mp hfree
    have hleft := ihl hfl hvw
    have hright := ihr hfr hvw
    rw [decode, decode]
    generalize left.decode v = x at hleft
    generalize left.decode w = y at hleft
    cases hleft with
    | ok l l' => exact hright.map
    | failure h => exact .failure h
    | unwritten e => exact .unwritten e
  | model name ref target ih =>
    cases target with
    | none => exact .failure rfl
    | some t => exact ih t rfl hfree hvw

theorem Accepts.of_respelt {v w : Value} (hfree : c.isLiteralFree = true) (h : c.Accepts v)
    (hvw : Respelt v w) : c.Accepts w := (decode_parallel hfree hvw).succeeds h

theorem get?_decodeFields {es done fs : Entries Key Value} {k : Key} {v : Value}
    (h : decode.decodeFields fields es done = .ok fs) (hv : es.get? k = some v) :
    (Entries.get? fields.reverse k = none ∧ fs.get? k = done.get? k) ∨
      ∃ c w, Entries.get? fields.reverse k = some c ∧ c.decode v = .ok w ∧ fs.get? k = some w := by
  -- the fields may name a key twice, so the last one with it is looked up from behind
  induction fields generalizing done with
  | nil =>
    cases h
    exact .inl ⟨rfl, rfl⟩
  | cons f rest ih =>
    rw [List.reverse_cons, Entries.get?_append]
    obtain ⟨hf, h⟩ | ⟨v', w, hv', hw, h⟩ := decodeFields_cons h
    · have hk : ¬ (k == f.1) = true := by
        intro hk
        rw [Entries.get?_congr es hk, hf] at hv
        cases hv
      obtain ⟨hnone, hfs⟩ | ⟨c, w, hc, hw, hfs⟩ := ih h
      · refine .inl ⟨?_, hfs⟩
        rw [hnone, Option.none_or, Entries.get?_cons, if_neg hk, Entries.get?_nil]
      · exact .inr ⟨c, w, by rw [hc, Option.some_or], hw, hfs⟩
    · obtain ⟨hnone, hfs⟩ | ⟨c, w, hc, hw, hfs⟩ := ih h
      · rw [hnone, Option.none_or, Entries.get?_cons]
        rw [Entries.get?_put] at hfs
        by_cases hk : (k == f.1) = true
        · rw [Entries.get?_congr es hk, hv'] at hv
          cases hv
          rw [if_pos hk] at hfs ⊢
          exact .inr ⟨f.2, w, rfl, hw, hfs⟩
        · rw [if_neg hk] at hfs ⊢
          exact .inl ⟨rfl, hfs⟩
      · exact .inr ⟨c, w, by rw [hc, Option.some_or], hw, hfs⟩

theorem decodeFields_again {es fs gs : Entries Key Value} (hraw : (Value.dict es).isJson = true)
    (hread : ∀ f ∈ fields, ∀ v w, es.get? f.1 = some v → f.2.decode v = .ok w →
      f.2.decode w.onWire = .ok w)
    (hfs : decode.decodeFields fields es es = .ok fs)
    (hgs : decode.decodeFields fields (fs.mapValues Value.onWire) (fs.mapValues Value.onWire) = .ok gs) :
    gs = fs := by
  have hfk : fs.keys = es.keys := keys_decodeFields hfs rfl
  have hgk : gs.keys = es.keys := by
    rw [keys_decodeFields hgs rfl, Entries.keys_mapValues, hfk]
  have hd : gs.Distinct := by
    rw [Entries.Distinct, hgk]
    exact (Value.isJson_dict.1 hraw).1
  refine Entries.eq_of_get? hd (hgk.trans hfk.symm) fun k hk => ?_
  have hsome : (es.get? k).isSome = true := by
    rw [Entries.isSome_get?_eq_any]
    exact List.any_eq_true.2 ⟨k, hgk ▸ hk, BEq.rfl⟩
  obtain ⟨v, hv⟩ := Option.isSome_iff_exists.1 hsome
  obtain ⟨hnone, hf⟩ | ⟨c, w, hc, hw, hf⟩ := get?_decodeFields hfs hv
  · -- no field reads the entry, which stays what JSON had
    have hwire : (fs.mapValues Value.onWire).get? k = some v := by
      rw [Entries.get?_mapValues, hf, hv, Option.map_some,
        Value.onWire_of_isJson (Value.isJson_of_get? hraw hv)]
    obtain ⟨-, hg⟩ | ⟨c, w, hc, -, -⟩ := get?_decodeFields hgs hwire
    · rw [hg, hwire, hf, hv]
    · rw [hnone] at hc
      cases hc
  · have hwire : (fs.mapValues Value.onWire).get? k = some w.onWire := by
      rw [Entries.get?_mapValues, hf, Option.map_some]
    obtain ⟨f, hmem, hkf, rfl⟩ := Entries.mem_of_get? hc
    rw [Entries.get?_congr es hkf] at hv
    have hagain := hread f (List.mem_reverse.1 hmem) v w hv hw
    obtain ⟨hnone, -⟩ | ⟨c', w', hc', hw', hg⟩ := get?_decodeFields hgs hwire
    · rw [hnone] at hc
      cases hc
    · cases hc.symm.trans hc'
      rw [hg, hf, Except.ok.inj (hw'.symm.trans hagain)]

theorem interface_again {es : Entries Key Value} (hfree : (interface fields).isLiteralFree = true)
    (hraw : (Value.dict es).isJson = true)
    (hread : ∀ f ∈ fields, ∀ v w, es.get? f.1 = some v → f.2.decode v = .ok w →
      f.2.decode w.onWire = .ok w)
    (h : (interface fields).decode (.dict es) = .ok v) :
    (interface fields).decode v.onWire = .ok v := by
  obtain ⟨fs, hfs, hdecoded⟩ := decode_interface_dict ⟨v, h⟩
  cases h.symm.trans hdecoded
  have haccepts : (interface fields).Accepts (.dict es) := ⟨.dict fs, h⟩
  have hwire := haccepts.of_respelt hfree (respelt_onWire hraw h)
  rw [Value.onWire_dict] at hwire ⊢
  obtain ⟨gs, hgs, hagain⟩ := decode_interface_dict hwire
  rw [hagain, decodeFields_again hraw hread hfs hgs]

theorem decodeAny_again {members : List Codec} {failures failures' : List String}
    (hends : ∀ c ∈ members, Decoded.Parallel (c.decode raw) (c.decode v.onWire))
    (hread : ∀ c ∈ members, c.decode raw = .ok v → c.decode v.onWire = .ok v)
    (h : decode.decodeAny members raw failures = .ok v) :
    decode.decodeAny members v.onWire failures' = .ok v := by
  induction members generalizing failures failures' with
  | nil => cases h
  | cons c rest ih =>
    obtain ⟨hc, hrest⟩ := List.forall_mem_cons.1 hends
    obtain ⟨hreadc, hreadrest⟩ := List.forall_mem_cons.1 hread
    rw [decode.decodeAny] at h ⊢
    generalize c.decode raw = x at hc hreadc h
    generalize c.decode v.onWire = y at hc hreadc
    cases hc with
    | ok a b =>
      cases h
      rw [hreadc rfl]
    | failure hpath =>
      dsimp only [failed, Undecoded.writeText] at h ⊢
      obtain ⟨s, t, hs, ht⟩ | ⟨e, he, -⟩ := DecodeFailure.writeText_of_path hpath
      · rw [hs] at h
        rw [ht]
        exact ih hrest hreadrest h
      · rw [he] at h
        cases h
    | unwritten e => cases h

theorem decode_again_of_eq (hraw : raw.isJson = true) (h : c.decode raw = .ok v) (hv : v = raw) :
    c.decode v.onWire = .ok v := by
  subst hv
  rwa [Value.onWire_of_isJson hraw]

theorem decode_again (hfree : c.isLiteralFree = true) (hraw : raw.isJson = true)
    (h : c.decode raw = .ok v) : c.decode v.onWire = .ok v := by
  have hrespelt := respelt_onWire hraw h
  induction c generalizing raw v with
  | unknown => exact decode_again_of_eq hraw h (Except.ok.inj h).symm
  | string | number | boolean | null =>
    refine decode_again_of_eq hraw h ?_
    rw [decode] at h
    exact guarded_eq_ok h
  | date =>
    obtain ⟨s, t, rfl, rfl, hs, ht⟩ := respelt_of_decodeDate hraw h
    exact decodeDate_str.2 ⟨t, ht, rfl⟩
  | exactly literal => cases hfree
  | array item ih =>
    obtain ⟨items, rfl, -⟩ := accepts_array.1 ⟨v, h⟩
    rw [decode] at h
    obtain ⟨ws, hws, he⟩ := bind_eq_ok.1 h
    cases he
    have hitems := decodeItems_eq_ok.1 hws
    rw [Value.onWire_list, decode]
    refine bind_eq_ok.2 ⟨ws, decodeItems_eq_ok.2 (List.forall₂_map_left_iff.2 ?_), rfl⟩
    refine List.forall₂_same.2 fun w hw => ?_
    obtain ⟨v, hv, hvw⟩ := (partners hitems).2 w hw
    have hjson := Value.isJson_list.1 hraw v hv
    exact ih hfree hjson hvw (respelt_onWire hjson hvw)
  | optional inner ih | maybe inner ih =>
    by_cases hnull : raw.kind = .null
    · refine decode_again_of_eq hraw h ?_
      rw [decode, if_pos hnull] at h
      exact (Except.ok.inj h).symm
    · rw [decode, if_neg hnull] at h
      rw [decode, hrespelt.kind, if_neg hnull]
      exact ih hfree hraw h hrespelt
  | interface fields ih =>
    obtain ⟨es, rfl, -⟩ := accepts_interface.1 ⟨v, h⟩
    refine interface_again hfree hraw (fun f hf v w hv hw => ?_) h
    have hjson := Value.isJson_of_get? hraw hv
    exact ih f hf (isLiteralFree_interface.1 hfree f hf) hjson hw (respelt_onWire hjson hw)
  | record item ih =>
    obtain ⟨es, rfl, -⟩ := accepts_record.1 ⟨v, h⟩
    rw [decode] at h
    obtain ⟨fs, hfs, he⟩ := bind_eq_ok.1 h
    cases he
    have hentries := decodeEntries_eq_ok.1 hfs
    rw [Value.onWire_dict, decode]
    refine bind_eq_ok.2 ⟨fs, decodeEntries_eq_ok.2 (List.forall₂_map_left_iff.2 ?_), rfl⟩
    refine List.forall₂_same.2 fun f hf => ?_
    obtain ⟨e, he, hk, hs, hef⟩ := (partners hentries).2 f hf
    have hjson := ((Value.isJson_dict.1 hraw).2 e he).2
    exact ⟨rfl, hk ▸ hs, ih hfree hjson hef (respelt_onWire hjson hef)⟩
  | oneOf members ih =>
    have hmembers := isLiteralFree_oneOf.1 hfree
    refine decodeAny_again (fun c hc => decode_parallel (hmembers c hc) hrespelt)
      (fun c hc hcv => ?_) h
    exact ih c hc (hmembers c hc) hraw hcv hrespelt
  | intersect left right ihl ihr =>
    obtain ⟨hfl, hfr⟩ := (Bool.and_eq_true _ _).mp hfree
    rw [decode] at h
    obtain ⟨l, hl, h⟩ := bind_eq_ok.1 h
    obtain ⟨r, hr, h⟩ := bind_eq_ok.1 h
    cases h
    have hrr := respelt_onWire hraw hr
    rw [mergeDecoded_of_decode hraw hl hr]
    have hjson := hrr.isJson hraw
    have haccepts : left.Accepts raw := ⟨l, hl⟩
    obtain ⟨l', hl'⟩ := haccepts.of_respelt hfl hrr
    -- the left side may read something else now, and it gives way to the right one again
    have hagain := ihr hfr hraw hr hrr
    rw [decode, hl', hagain]
    exact congrArg Except.ok (mergeDecoded_of_decode hjson hl' hagain)
  | model name ref target ih =>
    cases target with
    | none => cases h
    | some t => exact ih t rfl hfree hraw h hrespelt

/-- What a codec without literals reads from JSON can be written to JSON, and the codec reads the same
from that again. -/
theorem decode_written (hfree : c.isLiteralFree = true) (hraw : raw.isJson = true)
    (h : c.decode raw = .ok v) : v.onWire.isJson = true ∧ c.decode v.onWire = .ok v ∧
      ∃ text, Json.writeWire v = .ok text ∧ Json.writeAny v.onWire = .ok text := by
  have hjson : v.onWire.isJson = true := (respelt_onWire hraw h).isJson hraw
  exact ⟨hjson, decode_again hfree hraw h, Json.writtenAs_onWire hjson 0⟩

def datesOrPerson : Codec :=
  .oneOf [.array .date, .intersect (.interface [("name", .string), ("born", .optional .date)])
    (.record (.oneOf [.date, .string]))]

def person (born : Value) : Value := .object [("name", .str "Ada"), ("born", born)]

def birth : Time.DateTime := ⟨⟨1815, 12, 10⟩, 0, 0, 0, 0, some 0⟩

theorem decode_person : datesOrPerson.decode (person (.str "1815-12-10T00:00:00Z")) =
    .ok (person (.datetime birth)) := by
  have htime : timeOf? "1815-12-10T00:00:00Z" = some birth := by decide +kernel
  have hborn := decodeDate_str.2 ⟨birth, htime, rfl⟩
  have hname : decodeDate (.str "Ada") = failed (expected "date-time string" (Value.str "Ada").literal) := by
    have hnone : Time.DateTime.read? (zuluText "Ada") = none := by decide +kernel
    rw [decodeDate, hnone]
  simp [datesOrPerson, person, Value.object, decode, decode.decodeAny, decode.decodeFields,
    decodeEntries, hname, hborn, Entries.get?_cons, Entries.put, Entries.overlay, mergeDecoded, guarded,
    expected, expectedSort, Undecoded.writeText, Value.kind, bind, Except.bind, pure, Except.pure]

theorem decode_written_person :
    datesOrPerson.decode (person (.str "1815-12-10T00:00:00Z")) = .ok (person (.datetime birth)) ∧
      datesOrPerson.decode (person (.str "1815-12-10T00:00:00+00:00")) =
        .ok (person (.datetime birth)) := by
  have hborn : (Value.datetime birth).wireText = "1815-12-10T00:00:00+00:00" := by decide +kernel
  have hwire : (person (.datetime birth)).onWire = person (.str "1815-12-10T00:00:00+00:00") := by
    rw [← hborn]
    rfl
  refine ⟨decode_person, ?_⟩
  rw [← hwire]
  exact (decode_written (by decide) (by decide) decode_person).2.1

end Codec

end OpenApi
