import OpenApi.Entries
import Mathlib.Data.List.Forall2
import Mathlib.Data.List.Induction
import Mathlib.Data.List.Perm.Subperm
/-! # Looking up in ordered maps

What a map holds after entries were put on top of it. A list of entries is a map as it stands if
its keys are all different, and only then does it have an entry for each of them. Keys that are equal
need not be the same, and then they count as one. -/
namespace OpenApi.Entries

variable {κ α : Type}

@[simp] theorem keys_nil : keys ([] : Entries κ α) = [] := rfl

@[simp] theorem keys_cons (e : κ × α) (es : Entries κ α) : keys (e :: es) = e.1 :: keys es := rfl

@[simp] theorem keys_append (es fs : Entries κ α) : keys (es ++ fs) = keys es ++ keys fs :=
  List.map_append

@[simp] theorem keys_mapValues {β : Type} (f : α → β) (es : Entries κ α) :
    (es.mapValues f).keys = es.keys := List.map_map

theorem ne_of_absent {es : Entries κ α} {k : κ} (h : k ∉ es.keys) {e : κ × α} (he : e ∈ es) :
    e.1 ≠ k := by
  rintro rfl
  exact h (List.mem_map.2 ⟨e, he, rfl⟩)

section Membership

variable [BEq κ]

theorem mem_of_get? {es : Entries κ α} {k : κ} {v : α} (h : es.get? k = some v) :
    ∃ e ∈ es, (k == e.1) = true ∧ e.2 = v := by
  induction es with
  | nil => cases h
  | cons e rest ih =>
    rw [get?_cons] at h
    by_cases hk : k == e.1
    · rw [if_pos hk] at h
      exact ⟨e, List.mem_cons_self, hk, Option.some.inj h⟩
    · rw [if_neg hk] at h
      obtain ⟨d, hd, hkd, hv⟩ := ih h
      exact ⟨d, List.mem_cons_of_mem e hd, hkd, hv⟩

theorem get?_of_forall {es : Entries κ α} {k : κ} {v : α} {d : κ × α} (hd : d ∈ es) (hk : (k == d.1) = true)
    (h : ∀ e ∈ es, (k == e.1) = true → e.2 = v) : es.get? k = some v := by
  induction es with
  | nil => cases hd
  | cons e es ih =>
    obtain ⟨he, hes⟩ := List.forall_mem_cons.mp h
    rw [get?_cons]
    by_cases hke : (k == e.1) = true
    · rw [if_pos hke, he hke]
    · rw [if_neg hke]
      refine ih ((List.mem_cons.mp hd).resolve_left ?_) hes
      rintro rfl
      exact hke hk

theorem mem_put {es : Entries κ α} {k : κ} {v : α} {d : κ × α} (h : d ∈ es.put k v) :
    d ∈ es ∨ d.2 = v := by
  induction es with
  | nil => exact .inr (congrArg Prod.snd (List.mem_singleton.1 h))
  | cons e es ih =>
    rw [put] at h
    split at h
    · rcases List.mem_cons.1 h with rfl | h
      · exact .inr rfl
      · exact .inl (List.mem_cons_of_mem e h)
    · rcases List.mem_cons.1 h with rfl | h
      · exact .inl List.mem_cons_self
      · exact (ih h).imp_left (List.mem_cons_of_mem e)

theorem put_put_same [ReflBEq κ] (es : Entries κ α) (k : κ) (v : α) :
    (es.put k v).put k v = es.put k v := by
  induction es with
  | nil => simp [put]
  | cons e es ih =>
    by_cases h : k == e.1
    · simp [put, h]
    · simp [put, h, ih]

theorem get?_congr [EquivBEq κ] (es : Entries κ α) {k k' : κ} (h : (k == k') = true) :
    es.get? k = es.get? k' := by
  induction es with
  | nil => rfl
  | cons e es ih => rw [get?_cons, get?_cons, ih, BEq.congr_left h]

theorem get?_mapValues {β : Type} (f : α → β) (es : Entries κ α) (k : κ) :
    (es.mapValues f).get? k = (es.get? k).map f := by
  induction es with
  | nil => rfl
  | cons e es ih =>
    have hs : mapValues f (e :: es) = (e.1, f e.2) :: mapValues f es := rfl
    rw [hs, get?_cons, get?_cons, ih]
    split <;> rfl

theorem get?_append (es fs : Entries κ α) (k : κ) :
    get? (es ++ fs) k = (es.get? k).or (fs.get? k) := by
  induction es with
  | nil => rfl
  | cons e es ih =>
    rw [List.cons_append, get?_cons, get?_cons, ih]
    split <;> rfl

theorem get?_overlay [EquivBEq κ] (base upper : Entries κ α) (k : κ) :
    (overlay base upper).get? k = (get? upper.reverse k).or (base.get? k) := by
  induction upper generalizing base with
  | nil => rfl
  | cons e upper ih =>
    have hs : overlay base (e :: upper) = overlay (base.put e.1 e.2) upper := rfl
    rw [hs, ih, get?_put, List.reverse_cons, get?_append, Option.or_assoc, get?_cons]
    split <;> rfl

end Membership

section Pointwise

variable {β : Type} {R : α → β → Prop}

/-- The same keys at the same places, with related values under them. -/
def Pointwise (R : α → β → Prop) (es : Entries κ α) (fs : Entries κ β) : Prop :=
  List.Forall₂ (fun e f => e.1 = f.1 ∧ R e.2 f.2) es fs

theorem Pointwise.keys {es : Entries κ α} {fs : Entries κ β} (h : Pointwise R es fs) :
    fs.keys = es.keys := by
  induction h with
  | nil => rfl
  | cons he _ ih => rw [keys_cons, keys_cons, ih, he.1]

theorem Pointwise.values {es : Entries κ α} {fs : Entries κ β} (h : Pointwise R es fs) :
    List.Forall₂ R es.values fs.values := by
  rw [Entries.values, Entries.values, List.forall₂_map_left_iff, List.forall₂_map_right_iff]
  exact h.imp fun _ _ he => he.2

theorem Pointwise.of_values {es : Entries κ α} {fs : Entries κ β} (hk : es.keys = fs.keys)
    (hv : List.Forall₂ R es.values fs.values) : Pointwise R es fs := by
  induction es generalizing fs with
  | nil =>
    rw [List.map_eq_nil_iff.1 hk.symm]
    exact .nil
  | cons e es ih =>
    cases fs with
    | nil => cases hk
    | cons f fs =>
      obtain ⟨he, hes⟩ := List.cons.inj hk
      obtain ⟨hv, hvs⟩ := List.forall₂_cons.1 hv
      exact .cons ⟨he, hv⟩ (ih hes hvs)

variable [BEq κ]

theorem Pointwise.get? {es : Entries κ α} {fs : Entries κ β} (h : Pointwise R es fs) (k : κ) :
    es.get? k = none ∧ fs.get? k = none ∨
      ∃ v w, es.get? k = some v ∧ fs.get? k = some w ∧ R v w := by
  induction h with
  | nil => exact .inl ⟨rfl, rfl⟩
  | @cons e f es fs he _ ih =>
    rw [get?_cons, get?_cons, ← he.1]
    by_cases hk : (k == e.1) = true
    · rw [if_pos hk, if_pos hk]
      exact .inr ⟨e.2, f.2, rfl, rfl, he.2⟩
    · rw [if_neg hk, if_neg hk]
      exact ih

theorem Pointwise.put {es : Entries κ α} {fs : Entries κ β} (h : Pointwise R es fs) {k : κ} {v : α}
    {w : β} (hk : es.get? k = some v) (hw : R v w) : Pointwise R es (fs.put k w) := by
  induction h with
  | nil => cases hk
  | @cons e f es fs hef hrest ih =>
    rw [get?_cons, hef.1] at hk
    rw [Entries.put]
    by_cases he : (k == f.1) = true
    · rw [if_pos he] at hk ⊢
      exact .cons ⟨hef.1, Option.some.inj hk ▸ hw⟩ hrest
    · rw [if_neg he] at hk ⊢
      exact .cons hef (ih hk)

end Pointwise

section Distinct

variable [BEq κ]

def Distinct (es : Entries κ α) : Prop := es.keys.Pairwise fun k l => (k == l) = false

instance (es : Entries κ α) : Decidable es.Distinct :=
  inferInstanceAs (Decidable (List.Pairwise _ _))

theorem isSome_get?_eq_any (es : Entries κ α) (k : κ) :
    (es.get? k).isSome = es.keys.any (k == ·) := by
  induction es with
  | nil => rfl
  | cons e es ih =>
    rw [get?_cons, keys_cons, List.any_cons, ← ih]
    cases k == e.1 <;> rfl

theorem keys_put_of_present {es : Entries κ α} {k : κ} (h : (es.get? k).isSome = true) (v : α) :
    (es.put k v).keys = es.keys := by
  induction es with
  | nil => cases h
  | cons e es ih =>
    rw [get?_cons] at h
    rw [put]
    by_cases hk : (k == e.1) = true
    · rw [if_pos hk, keys_cons, keys_cons]
    · rw [if_neg hk] at h ⊢
      rw [keys_cons, keys_cons, ih h]

theorem put_append_of_absent {es : Entries κ α} {k : κ} (h : ∀ l ∈ es.keys, (k == l) = false)
    (fs : Entries κ α) (v : α) : put (es ++ fs) k v = es ++ fs.put k v := by
  induction es with
  | nil => rfl
  | cons e es ih =>
    obtain ⟨he, hes⟩ := List.forall_mem_cons.mp h
    rw [List.cons_append, put, if_neg (Bool.eq_false_iff.mp he), ih hes, List.cons_append]

theorem get?_of_distinct [EquivBEq κ] {es : Entries κ α} (h : es.Distinct) {e : κ × α} (he : e ∈ es) :
    es.get? e.1 = some e.2 := by
  induction es with
  | nil => cases he
  | cons d es ih =>
    obtain ⟨hnew, hdistinct⟩ := List.pairwise_cons.mp h
    rw [get?_cons]
    rcases List.mem_cons.mp he with rfl | he
    · rw [if_pos BEq.rfl]
    · have hne : (e.1 == d.1) = false := by
        rw [BEq.comm]
        exact hnew e.1 (List.mem_map_of_mem he)
      rw [hne]
      exact ih hdistinct he

/-- Maps with the same keys that have the same under each of them are one map. -/
theorem eq_of_get? [EquivBEq κ] {es fs : Entries κ α} (hd : es.Distinct) (hkeys : es.keys = fs.keys)
    (h : ∀ k ∈ es.keys, es.get? k = fs.get? k) : es = fs := by
  induction es generalizing fs with
  | nil => exact (List.map_eq_nil_iff.mp hkeys.symm).symm
  | cons e es ih =>
    cases fs with
    | nil => cases hkeys
    | cons f fs =>
      have hef : e.1 = f.1 := (List.cons.inj hkeys).1
      have hrest : keys es = keys fs := (List.cons.inj hkeys).2
      obtain ⟨hnew, hd⟩ := List.pairwise_cons.mp hd
      have hfirst := h e.1 List.mem_cons_self
      rw [get?_cons, get?_cons, ← hef, if_pos BEq.rfl, if_pos BEq.rfl] at hfirst
      have hlater : ∀ k ∈ keys es, get? es k = get? fs k := by
        intro k hk
        have hne : ¬ (k == e.1) = true := by
          rw [BEq.comm, hnew k hk]
          exact Bool.false_ne_true
        have hboth := h k (List.mem_cons_of_mem e.1 hk)
        rwa [get?_cons, get?_cons, ← hef, if_neg hne, if_neg hne] at hboth
      rw [Prod.ext hef (Option.some.inj hfirst), ih hd hrest hlater]

theorem overlay_of_keys_eq [EquivBEq κ] {base upper : Entries κ α} (h : upper.Distinct)
    (hkeys : base.keys = upper.keys) : overlay base upper = upper := by
  -- generalised to entries `done` that stand before both, which no key of `upper` is equal to
  suffices hall : ∀ done : Entries κ α, (done ++ upper).Distinct →
      overlay (done ++ base) upper = done ++ upper from hall [] h
  clear h
  induction upper generalizing base with
  | nil =>
    intro done _
    rw [List.map_eq_nil_iff.mp hkeys]
    rfl
  | cons e upper ih =>
    intro done hd
    cases base with
    | nil => cases hkeys
    | cons d base =>
      have hde : d.1 = e.1 := (List.cons.inj hkeys).1
      have hrest : keys base = keys upper := (List.cons.inj hkeys).2
      have hnew : ∀ l ∈ done.keys, (e.1 == l) = false := by
        intro l hl
        rw [Distinct, keys_append] at hd
        rw [BEq.comm]
        exact (List.pairwise_append.mp hd).2.2 l hl e.1 List.mem_cons_self
      have hput : put (done ++ d :: base) e.1 e.2 = (done ++ [e]) ++ base := by
        rw [put_append_of_absent hnew, put, hde, if_pos BEq.rfl, List.append_assoc]
        rfl
      have hstep : overlay (done ++ d :: base) (e :: upper) =
          overlay (put (done ++ d :: base) e.1 e.2) upper := rfl
      have hmove : done ++ e :: upper = (done ++ [e]) ++ upper := by simp
      rw [hmove] at hd ⊢
      rw [hstep, hput]
      exact ih hrest _ hd

theorem has_eq_of_keys {es fs : Entries κ α} (h : es.keys = fs.keys) (k : κ) : es.has k = fs.has k := by
  rw [has, has, isSome_get?_eq_any, isSome_get?_eq_any, h]

theorem put_of_present [EquivBEq κ] {es : Entries κ α} (hd : es.Distinct) {k : κ}
    (h : es.has k = true) (v : α) : es.put k v = es.map fun e => (e.1, if k == e.1 then v else e.2) := by
  induction es with
  | nil => cases h
  | cons e es ih =>
    obtain ⟨hnew, hd⟩ := List.pairwise_cons.mp hd
    rw [put, List.map_cons]
    by_cases hk : (k == e.1) = true
    · have hrest : ∀ d ∈ es, (d.1, if k == d.1 then v else d.2) = d := by
        intro d hdm
        rw [BEq.congr_left hk, hnew d.1 (List.mem_map_of_mem hdm)]
        rfl
      rw [if_pos hk, if_pos hk, List.map_congr_left hrest, List.map_id']
    · rw [has, get?_cons, if_neg hk] at h
      rw [if_neg hk, if_neg hk, ih hd h]

theorem get?_tail_of_distinct [EquivBEq κ] {e : κ × α} {es : Entries κ α} (h : Distinct (e :: es)) {k : κ}
    (hk : (k == e.1) = true) : es.get? k = none := by
  rw [← Option.not_isSome_iff_eq_none, isSome_get?_eq_any, List.any_eq_true]
  rintro ⟨l, hl, hkl⟩
  have hnew := (List.pairwise_cons.mp h).1 l hl
  rw [← BEq.congr_left hk, hkl] at hnew
  cases hnew

/-- What is put on top of a map goes into its places as far as it can, and behind it for the rest. -/
theorem overlay_eq_of_distinct [EquivBEq κ] {base upper : Entries κ α} (hb : base.Distinct)
    (hu : upper.Distinct) : overlay base upper =
      (base.map fun e => (e.1, (upper.get? e.1).getD e.2)) ++
        upper.filter fun e => !base.has e.1 := by
  induction upper generalizing base with
  | nil => simp [overlay]
  | cons e upper ih =>
    have hrest := (List.pairwise_cons.mp hu).2
    have hs : overlay base (e :: upper) = overlay (base.put e.1 e.2) upper := rfl
    by_cases hm : base.has e.1 = true
    · have hkeys : (base.put e.1 e.2).keys = base.keys := keys_put_of_present hm e.2
      have hput : Distinct (base.put e.1 e.2) := by rwa [Distinct, hkeys]
      rw [hs, ih hput hrest, List.filter_cons_of_neg (by simpa using hm),
        List.filter_congr fun d _ => congrArg not (has_eq_of_keys hkeys d.1),
        put_of_present hb hm, List.map_map]
      congr 1
      refine List.map_congr_left fun d _ => ?_
      by_cases hd : (d.1 == e.1) = true
      · simp [get?_cons, hd, BEq.symm hd, get?_tail_of_distinct hu hd]
      · have hd' : (e.1 == d.1) = false := by
          rw [BEq.comm]
          exact Bool.eq_false_iff.mpr hd
        simp [get?_cons, hd, hd']
    · have habsent : ∀ l ∈ base.keys, (e.1 == l) = false := by
        rw [has, isSome_get?_eq_any, List.any_eq_true] at hm
        intro l hl
        exact Bool.eq_false_iff.mpr fun h => hm ⟨l, hl, h⟩
      have hput : base.put e.1 e.2 = base ++ [e] := by
        have happend := put_append_of_absent habsent [] e.2
        rwa [List.append_nil] at happend
      have hdistinct : Distinct (base ++ [e]) := by
        rw [Distinct, keys_append]
        refine List.pairwise_append.mpr ⟨hb, List.pairwise_singleton _ _, fun k hk l hl => ?_⟩
        rw [List.mem_singleton.mp hl, BEq.comm]
        exact habsent k hk
      have hplace : ∀ d ∈ base, (d.1, (get? upper d.1).getD d.2) =
          (d.1, (get? (e :: upper) d.1).getD d.2) := by
        intro d hd
        have hne := habsent d.1 (List.mem_map_of_mem hd)
        rw [BEq.comm] at hne
        rw [get?_cons, hne]
        rfl
      have hlater : ∀ d ∈ upper, (!has (base ++ [e]) d.1) = !base.has d.1 := by
        intro d hd
        have hne := (List.pairwise_cons.mp hu).1 d.1 (List.mem_map_of_mem hd)
        rw [BEq.comm] at hne
        rw [has, has, get?_append]
        simp [get?_cons, hne]
      rw [hs, hput, ih hdistinct hrest, List.filter_cons_of_pos (by simpa using hm), List.map_append,
        List.map_congr_left hplace, List.filter_congr hlater]
      simp [get?_tail_of_distinct hu BEq.rfl]

end Distinct

variable [BEq κ] [LawfulBEq κ]

theorem has_iff {es : Entries κ α} {k : κ} : es.has k = true ↔ k ∈ es.keys := by
  induction es with
  | nil => simp [has]
  | cons e es ih =>
    rw [has, get?_cons, keys_cons, List.mem_cons, ← ih]
    by_cases hk : k = e.1 <;> simp [hk, has]

theorem get?_eq_none_iff {es : Entries κ α} {k : κ} : es.get? k = none ↔ k ∉ es.keys := by
  rw [← has_iff, has, Option.isSome_iff_ne_none, not_not]

theorem get?_of_mem {es : Entries κ α} (hn : es.keys.Nodup) {k : κ} {v : α} (h : (k, v) ∈ es) :
    es.get? k = some v := by
  induction es with
  | nil => cases h
  | cons e es ih =>
    obtain ⟨he, hes⟩ := List.nodup_cons.1 hn
    rw [get?_cons]
    rcases List.mem_cons.1 h with rfl | h
    · simp
    · have hk : k ≠ e.1 := by
        rintro rfl
        exact he (List.mem_map.2 ⟨_, h, rfl⟩)
      rw [if_neg (by simpa using hk)]
      exact ih hes h

theorem keys_put (es : Entries κ α) (k : κ) (v : α) :
    (es.put k v).keys = if k ∈ es.keys then es.keys else es.keys ++ [k] := by
  induction es with
  | nil => rfl
  | cons e es ih =>
    by_cases hk : k = e.1
    · simp [put, hk]
    · simp only [put, beq_iff_eq, hk, if_false, keys_cons, ih, List.mem_cons, false_or]
      by_cases hm : k ∈ keys es
      · rw [if_pos hm, if_pos hm]
      · rw [if_neg hm, if_neg hm, List.cons_append]

theorem put_of_new {es : Entries κ α} {k : κ} (v : α) (h : k ∉ es.keys) :
    es.put k v = es ++ [(k, v)] := by
  induction es with
  | nil => rfl
  | cons e es ih =>
    obtain ⟨hk, hes⟩ := not_or.1 (List.mem_cons.not.1 h)
    simp only [put, beq_iff_eq, hk, if_false, List.cons_append, ih hes]

theorem mem_erase {es : Entries κ α} {k : κ} {e : κ × α} : e ∈ es.erase k ↔ e ∈ es ∧ e.1 ≠ k := by
  rw [erase, List.mem_filter, Bool.not_eq_true', beq_eq_false_iff_ne, ne_comm]

theorem mem_keys_erase {es : Entries κ α} {k l : κ} : l ∈ (es.erase k).keys ↔ l ∈ es.keys ∧ l ≠ k := by
  simp only [keys, List.mem_map, mem_erase]
  constructor
  · rintro ⟨e, ⟨he, hk⟩, rfl⟩
    exact ⟨⟨e, he, rfl⟩, hk⟩
  · rintro ⟨⟨e, he, rfl⟩, hk⟩
    exact ⟨e, ⟨he, hk⟩, rfl⟩

theorem erase_of_absent {es : Entries κ α} {k : κ} (h : k ∉ es.keys) : es.erase k = es := by
  refine List.filter_eq_self.2 fun e he => ?_
  simpa using (ne_of_absent h he).symm

theorem overlay_of_nodup {base upper : Entries κ α} (h : (base ++ upper).keys.Nodup) :
    overlay base upper = base ++ upper := by
  induction upper generalizing base with
  | nil => simp [overlay]
  | cons e upper ih =>
    have hs : overlay base (e :: upper) = overlay (base.put e.1 e.2) upper := rfl
    have hnew : e.1 ∉ base.keys := by
      intro he
      rw [keys_append] at h
      exact (List.nodup_append.1 h).2.2 _ he _ (by simp) rfl
    have ha : base ++ e :: upper = base ++ [e] ++ upper := by simp
    rw [hs, put_of_new e.2 hnew, ih (by rwa [← ha]), ha]

theorem ofList_of_nodup {es : Entries κ α} (h : es.keys.Nodup) : ofList es = es := by
  change overlay [] es = [] ++ es
  exact overlay_of_nodup h

theorem nodup_keys_overlay {base : Entries κ α} (upper : Entries κ α) (h : base.keys.Nodup) :
    (overlay base upper).keys.Nodup := by
  induction upper generalizing base with
  | nil => exact h
  | cons e upper ih =>
    apply ih
    rw [keys_put]
    split
    · exact h
    · rename_i he
      exact List.nodup_append.2 ⟨h, by simp, by
        intro a ha b hb
        rintro rfl
        exact he (List.mem_singleton.1 hb ▸ ha)⟩

theorem mem_keys_overlay {base upper : Entries κ α} {k : κ} :
    k ∈ (overlay base upper).keys ↔ k ∈ base.keys ∨ k ∈ upper.keys := by
  induction upper generalizing base with
  | nil => simp [overlay]
  | cons e upper ih =>
    have hs : overlay base (e :: upper) = overlay (base.put e.1 e.2) upper := rfl
    rw [hs, ih, keys_put, keys_cons, List.mem_cons]
    by_cases he : e.1 ∈ base.keys
    · rw [if_pos he]
      constructor
      · rintro (h | h)
        · exact .inl h
        · exact .inr (.inr h)
      · rintro (h | rfl | h)
        · exact .inl h
        · exact .inl he
        · exact .inr h
    · rw [if_neg he, List.mem_append, List.mem_singleton, or_assoc]

theorem nodup_of_length_ofList {es : Entries κ α} (h : (ofList es).length = es.length) :
    es.keys.Nodup := by
  have hn : (ofList es).keys.Nodup := nodup_keys_overlay es List.nodup_nil
  have hs : (ofList es).keys ⊆ es.keys := by
    intro k hk
    rcases mem_keys_overlay.1 hk with hk | hk
    · cases hk
    · exact hk
  have hp := (List.subperm_of_subset hn hs).perm_of_length_le (by simp [keys, h])
  exact hp.nodup hn

theorem put_of_mem {es : Entries κ α} (hn : es.keys.Nodup) {k : κ} (h : k ∈ es.keys) (v : α) :
    es.put k v = es.map fun e => (e.1, if e.1 == k then v else e.2) := by
  induction es with
  | nil => cases h
  | cons e es ih =>
    obtain ⟨he, hes⟩ := List.nodup_cons.1 hn
    by_cases hk : k = e.1
    · subst hk
      have hrest : ∀ d ∈ es, (d.1, if d.1 == e.1 then v else d.2) = d := by
        intro d hd
        simp [ne_of_absent he hd]
      simp only [put, BEq.rfl, if_true, List.map_cons, List.map_congr_left hrest, List.map_id']
    · have hm := (List.mem_cons.1 h).resolve_left hk
      simp [put, hk, Ne.symm hk, ih hes hm]

theorem distinct_of_nodup {es : Entries κ α} (h : es.keys.Nodup) : es.Distinct :=
  List.Pairwise.imp (fun hne => beq_false_of_ne hne) h

theorem overlay_eq {base upper : Entries κ α} (hb : base.keys.Nodup) (hu : upper.keys.Nodup) :
    overlay base upper = (base.map fun e => (e.1, (upper.get? e.1).getD e.2)) ++
      upper.filter fun e => !base.has e.1 :=
  overlay_eq_of_distinct (distinct_of_nodup hb) (distinct_of_nodup hu)

omit [BEq κ] [LawfulBEq κ] in
theorem keys_map (ks : List κ) (f : κ → α) : keys (ks.map fun k => (k, f k)) = ks := by
  simp [keys, Function.comp_def]

theorem get?_map {ks : List κ} (f : κ → α) {k : κ} (h : k ∈ ks) :
    get? (ks.map fun k => (k, f k)) k = some (f k) := by
  induction ks with
  | nil => cases h
  | cons l ks ih =>
    rw [List.map_cons, get?_cons]
    by_cases hk : k = l
    · simp [hk]
    · rw [if_neg (by simpa using hk)]
      exact ih ((List.mem_cons.1 h).resolve_left hk)

theorem eraseDups_concat (ks : List κ) (k : κ) :
    (ks ++ [k]).eraseDups = if k ∈ ks then ks.eraseDups else ks.eraseDups ++ [k] := by
  by_cases h : k ∈ ks <;> simp [List.eraseDups_append, List.removeAll, List.eraseDups_cons, h]

theorem nodup_eraseDups (ks : List κ) : ks.eraseDups.Nodup := by
  induction ks using List.reverseRecOn with
  | nil => simp
  | append_singleton ks k ih =>
    rw [eraseDups_concat]
    by_cases h : k ∈ ks
    · rwa [if_pos h]
    · rw [if_neg h]
      refine List.nodup_append.2 ⟨ih, by simp, ?_⟩
      rintro a ha b hb rfl
      exact h (List.mem_singleton.1 hb ▸ List.mem_eraseDups.1 ha)

theorem get?_table (ks : List κ) (f : κ → α) (k : κ) :
    get? (ks.eraseDups.map fun l => (l, f l)) k = if k ∈ ks then some (f k) else none := by
  by_cases h : k ∈ ks
  · rw [if_pos h, get?_map f (List.mem_eraseDups.2 h)]
  · rw [if_neg h, get?_eq_none_iff, keys_map, List.mem_eraseDups]
    exact h

theorem put_table {ks : List κ} {f g : κ → α} {k : κ} (h : ∀ l ∈ ks, l ≠ k → g l = f l) :
    put (ks.eraseDups.map fun l => (l, f l)) k (g k) =
      (ks ++ [k]).eraseDups.map fun l => (l, g l) := by
  have hkeys : keys (ks.eraseDups.map fun l => (l, f l)) = ks.eraseDups := keys_map _ f
  rw [eraseDups_concat]
  by_cases hk : k ∈ ks
  · rw [if_pos hk, put_of_mem (by rw [hkeys]; exact nodup_eraseDups ks)
      (by rw [hkeys]; exact List.mem_eraseDups.2 hk), List.map_map]
    refine List.map_congr_left fun l hl => ?_
    by_cases hlk : l = k
    · simp [hlk]
    · simp [hlk, h l (List.mem_eraseDups.1 hl) hlk]
  · rw [if_neg hk, put_of_new _ (by rw [hkeys, List.mem_eraseDups]; exact hk), List.map_append,
      List.map_singleton]
    refine congrArg (· ++ [(k, g k)]) (List.map_congr_left fun l hl => ?_)
    have hl := List.mem_eraseDups.1 hl
    have hlk : l ≠ k := by
      rintro rfl
      exact hk hl
    rw [h l hl hlk]

end OpenApi.Entries
