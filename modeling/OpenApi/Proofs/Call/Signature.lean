import OpenApi.Signature
import OpenApi.Proofs.Entries
/-! # Filling a signature

Slots that are filled by position take the arguments in order, and slots that are filled by name
take theirs wherever they are given. So arguments that say the same of every slot fill a signature
alike, in whichever way they are written. -/
namespace OpenApi.Signature

theorem bind_positional {front : Signature} {given : Entries String Value}
    (hk : given.keys = front.map Slot.name) (hp : ∀ s ∈ front, s.positional = true)
    {named : Entries String Value} (hn : ∀ s ∈ front, s.name ∉ named.keys) (back : Signature) :
    bind (front ++ back) given.values named = (bind back [] named).map (given ++ ·) := by
  induction front generalizing given with
  | nil =>
    have hg : given = [] := by simpa [Entries.keys] using hk
    subst hg
    rw [List.nil_append, Entries.values, List.map_nil]
    cases bind back [] named <;> rfl
  | cons s front ih =>
    cases given with
    | nil => simp at hk
    | cons e given =>
      rw [Entries.keys_cons, List.map_cons, List.cons.injEq] at hk
      obtain ⟨hs, hp⟩ := List.forall_mem_cons.1 hp
      obtain ⟨hsn, hn⟩ := List.forall_mem_cons.1 hn
      have hnot : ¬ named.has s.name = true := fun h => hsn (Entries.has_iff.1 h)
      have hv : Entries.values (e :: given) = e.2 :: Entries.values given := rfl
      rw [hv, List.cons_append, bind, if_neg (by simp [hs]), if_neg hnot, ih hk.2 hp hn, ← hk.1]
      cases bind back [] named <;> rfl

theorem bind_named {slots : Signature} {given : Entries String Value}
    (hk : given.keys = slots.map Slot.name) (hn : given.keys.Nodup) (back : Signature) :
    bind (slots ++ back) [] given = (bind back [] []).map (given ++ ·) := by
  induction slots generalizing given with
  | nil =>
    have hg : given = [] := by simpa [Entries.keys] using hk
    subst hg
    rw [List.nil_append]
    cases bind back [] [] <;> rfl
  | cons s slots ih =>
    cases given with
    | nil => simp at hk
    | cons e given =>
      rw [Entries.keys_cons, List.map_cons, List.cons.injEq] at hk
      obtain ⟨hnew, hn⟩ := List.nodup_cons.1 hn
      have hget : Entries.get? (e :: given) s.name = some e.2 := by
        rw [Entries.get?_cons, if_pos (by simp [hk.1])]
      have herase : Entries.erase (e :: given) s.name = given := by
        rw [Entries.erase, List.filter_cons, if_neg (by simp [hk.1])]
        exact Entries.erase_of_absent (hk.1 ▸ hnew)
      rw [List.cons_append, bind]
      simp only [hget, herase, ih hk.2 hn]
      rw [← hk.1]
      cases bind back [] [] <;> rfl

theorem null_of_unnamed {s : Signature} {args : List Value} {named bound : Entries String Value}
    (h : bind s args named = .ok bound) {slot : Slot} (hs : slot ∈ s)
    (hp : slot.positional = false) (hn : slot.name ∉ named.keys) :
    (slot.name, .null) ∈ bound := by
  fun_induction bind s args named generalizing bound with
  | case1 => cases hs
  | case2 | case3 | case4 | case5 | case8 => cases h
  | case6 first rest v args named hpos _ ih =>
    obtain ⟨tail, ht, rfl⟩ := eq_cons_of_map_eq_ok h
    rcases List.mem_cons.1 hs with rfl | hs
    · simp [hp] at hpos
    · exact List.mem_cons_of_mem _ (ih ht hs hn)
  | case7 first rest named v hv ih =>
    obtain ⟨tail, ht, rfl⟩ := eq_cons_of_map_eq_ok h
    rcases List.mem_cons.1 hs with rfl | hs
    · rw [Entries.get?_eq_none_iff.2 hn] at hv
      cases hv
    · exact List.mem_cons_of_mem _ (ih ht hs fun hm => hn (Entries.mem_keys_erase.1 hm).1)
  | case9 first rest named hv _ ih =>
    obtain ⟨tail, ht, rfl⟩ := eq_cons_of_map_eq_ok h
    rcases List.mem_cons.1 hs with rfl | hs
    · exact List.mem_cons_self
    · exact List.mem_cons_of_mem _ (ih ht hs hn)

theorem bind_missing {s : Signature} {args : List Value} {named : Entries String Value}
    {slot : Slot} (hs : slot ∈ s) (hr : slot.required = true) (hn : slot.name ∉ named.keys)
    (ha : slot.name ∉ (s.take args.length).map Slot.name) : ∃ f, bind s args named = .error f := by
  fun_induction bind s args named with
  | case1 | case2 | case3 => cases hs
  | case4 | case5 | case8 => exact ⟨_, rfl⟩
  | case6 first rest v args named _ _ ih =>
    simp only [List.length_cons, List.take_succ_cons, List.map_cons, List.mem_cons, not_or] at ha
    rcases List.mem_cons.1 hs with rfl | hs
    · exact absurd rfl ha.1
    · obtain ⟨f, hf⟩ := ih hs hn ha.2
      exact ⟨f, by rw [hf]; rfl⟩
  | case7 first rest named v hv ih =>
    rcases List.mem_cons.1 hs with rfl | hs
    · rw [Entries.get?_eq_none_iff.2 hn] at hv
      cases hv
    · have hrest : slot.name ∉ (named.erase first.name).keys :=
        fun hm => hn (Entries.mem_keys_erase.1 hm).1
      obtain ⟨f, hf⟩ := ih hs hrest (by simp)
      exact ⟨f, by rw [hf]; rfl⟩
  | case9 first rest named _ hfirst ih =>
    rcases List.mem_cons.1 hs with rfl | hs
    · exact absurd hr hfirst
    · obtain ⟨f, hf⟩ := ih hs hn (by simp)
      exact ⟨f, by rw [hf]; rfl⟩

theorem bind_nothing {s : Signature} (h : ∀ slot ∈ s, slot.required = false) :
    bind s [] [] = .ok (s.map fun slot => (slot.name, .null)) := by
  induction s with
  | nil => rfl
  | cons slot s ih =>
    obtain ⟨hslot, hs⟩ := List.forall_mem_cons.1 h
    rw [bind, Entries.get?_nil]
    simp only [hslot, ih hs]
    rfl

/-- The arguments say which values the slots have: those of the first slots by position and those of
others by name, in any order. A null may be left out if its slot is not required. -/
structure Writes (s : Signature) (value : String → Value) (args : List Value)
    (named : Entries String Value) : Prop where
  values : args = (s.take args.length).map fun slot => value slot.name
  positional : ∀ slot ∈ s.take args.length, slot.positional = true
  once : named.keys.Nodup
  byName : ∀ e ∈ named, e.1 ∈ (s.drop args.length).map Slot.name ∧ e.2 = value e.1
  omitted : ∀ slot ∈ s.drop args.length, slot.name ∉ named.keys →
    slot.required = false ∧ value slot.name = .null

section Writing

variable {slot : Slot} {s : Signature} {value : String → Value} {v : Value} {args : List Value}
  {named : Entries String Value}

theorem Writes.mem_names (h : Writes s value args named) {k : String} (hk : k ∈ named.keys) :
    k ∈ (s.drop args.length).map Slot.name := by
  obtain ⟨e, he, rfl⟩ := List.mem_map.1 hk
  exact (h.byName e he).1

theorem Writes.eq_of_get? (h : Writes s value args named) {k : String}
    (hv : named.get? k = some v) : v = value k := by
  obtain ⟨e, he, hk, rfl⟩ := Entries.mem_of_get? hv
  rw [eq_of_beq hk]
  exact (h.byName e he).2

theorem Writes.tail (h : Writes (slot :: s) value (v :: args) named) :
    Writes s value args named where
  values := (List.cons.inj h.values).2
  positional slot hs := h.positional slot (List.mem_cons_of_mem _ hs)
  once := h.once
  byName := h.byName
  omitted := h.omitted

theorem Writes.erase (h : Writes (slot :: s) value [] named) (hnew : slot.name ∉ s.map Slot.name) :
    Writes s value [] (named.erase slot.name) where
  values := rfl
  positional := nofun
  once := h.once.sublist (List.filter_sublist.map _)
  byName e he := by
    obtain ⟨he, hne⟩ := Entries.mem_erase.1 he
    obtain ⟨hm, hv⟩ := h.byName e he
    exact ⟨(List.mem_cons.1 hm).resolve_left hne, hv⟩
  omitted other hs hn := by
    refine h.omitted other (List.mem_cons_of_mem _ hs) fun hk => hn ?_
    refine Entries.mem_keys_erase.2 ⟨hk, fun hsame => hnew ?_⟩
    exact hsame ▸ List.mem_map_of_mem hs

/-- However the values are written, they fill the slots in order. -/
theorem bind_of_writes (hn : (s.map Slot.name).Nodup) (h : Writes s value args named) :
    bind s args named = .ok (s.map fun slot => (slot.name, value slot.name)) := by
  fun_induction bind s args named with
  | case1 => rfl
  | case2 => exact absurd (h.byName _ List.mem_cons_self).1 List.not_mem_nil
  | case3 => cases h.values
  | case4 slot rest v args named hp => simp [h.positional slot List.mem_cons_self] at hp
  | case5 slot rest v args named _ hhas =>
    -- the name of the first slot would come again
    obtain ⟨other, hother, hname⟩ := List.mem_map.1 (h.mem_names (Entries.has_iff.1 hhas))
    refine absurd ?_ (List.nodup_cons.1 hn).1
    exact hname ▸ List.mem_map_of_mem (List.mem_of_mem_drop hother)
  | case6 slot rest v args named _ _ ih =>
    obtain ⟨hv, -⟩ := List.cons.inj h.values
    rw [ih (List.nodup_cons.1 hn).2 h.tail, hv]
    rfl
  | case7 slot rest named v hv ih =>
    obtain ⟨hnew, hn⟩ := List.nodup_cons.1 hn
    rw [ih hn (h.erase hnew), h.eq_of_get? hv]
    rfl
  | case8 slot rest named hnone hreq =>
    have := (h.omitted slot List.mem_cons_self (Entries.get?_eq_none_iff.1 hnone)).1
    rw [hreq] at this
    cases this
  | case9 slot rest named hnone _ ih =>
    obtain ⟨hnew, hn⟩ := List.nodup_cons.1 hn
    have habsent := Entries.get?_eq_none_iff.1 hnone
    have hrest := h.erase hnew
    rw [Entries.erase_of_absent habsent] at hrest
    rw [ih hn hrest, ← (h.omitted slot List.mem_cons_self habsent).2]
    rfl

end Writing

end OpenApi.Signature
