import OpenApi.Proofs.Pointer.Paths
import OpenApi.Proofs.Schema.Related
import OpenApi.Text.Pieces
/-! # Pointers that miss

A pointer whose segments are keys, and decimal numerals of places, leads to a node. Any other pointer into the
document misses and is a missing reference, but for one thing: a segment that is applied to a list is read as
an integer in any notation, and one below zero counts from the end. So a pointer may resolve to a node that it
does not lead to. -/
namespace OpenApi.Pointer

/-- The segments of the reference are steps that lead to the node. -/
def Addresses (document : Value) (ref : String) (v : Value) : Prop :=
  ∃ path, segments ref = .ok (path.map Step.name) ∧ Leads document path v

/-- Of a reference: what it resolves to it leads to, and if there is no such node it is a missing reference,
or one to elsewhere. -/
structure MissesFail (document : Value) (ref : String) : Prop where
  found : ∀ v, resolve document ref = .ok v → Addresses document ref v
  missing : Text.startsWith ref "#/" = true → (¬ ∃ v, Addresses document ref v) →
    ∃ f, resolve document ref = .error f ∧ f.family? = some .missingReference
  external : Text.startsWith ref "#/" = false →
    ∃ f, resolve document ref = .error f ∧ f.family? = some .externalReference

/-- The segment is read as a place in the list, counted from either end, and is no numeral of a place. -/
def Loose (items : List Value) (name : String) : Prop :=
  ∃ n, Decimal.readInt? name = some n ∧ -(items.length : Int) ≤ n ∧ n < items.length ∧
    ∀ i < items.length, name ≠ toString i

/-- On the way that the reference takes, the segment is applied to the list. -/
def AppliesTo (document : Value) (ref name : String) (items : List Value) : Prop :=
  ∃ before after, segments ref = .ok (before ++ name :: after) ∧
    before.foldlM (step ref) document = .ok (.list items)

variable {document v : Value} {ref name : String} {names : List String}

theorem startsWith_iff : Text.startsWith ref "#/" = true ↔ ∃ names, segments ref = .ok names := by
  have hmark : "#/".toList = ['#', '/'] := rfl
  rw [Text.startsWith, hmark, List.isPrefixOf_iff_prefix]
  constructor
  · rintro ⟨path, hpath⟩
    exact ⟨_, segments_of_toList hpath.symm⟩
  · rintro ⟨names, hnames⟩
    unfold segments at hnames
    split at hnames
    · next path htext => exact ⟨path, htext.symm⟩
    · cases hnames

theorem family_of_step {f : Fault} (h : step ref v name = .error f) :
    f.family? = some .missingReference := by
  unfold step at h
  split at h
  · split at h
    · cases h
    · cases h
      rfl
  · split at h
    · cases h
    · cases h
      rfl
  · cases h
    rfl

theorem resolve_of_segments_ok (h : segments ref = .ok names) :
    resolve document ref = names.foldlM (step ref) document := by
  rw [resolve, h]
  rfl

theorem position?_eq_some {n : Nat} {i : Int} {j : Nat} (h : position? n i = some j) :
    -(n : Int) ≤ i ∧ i < n ∧ j < n ∧ (0 ≤ i → i = j) := by
  unfold position? at h
  split at h
  · split at h
    · cases h
      omega
    · cases h
  · split at h
    · cases h
      omega
    · cases h

theorem place_of_step {items : List Value} {part : Value} (h : step ref (.list items) name = .ok part) :
    ∃ n j, Decimal.readInt? name = some n ∧ position? items.length n = some j ∧ items[j]? = some part := by
  simp only [step] at h
  split at h
  · next w hw =>
    cases h
    obtain ⟨j, hj, hpart⟩ := Option.bind_eq_some_iff.mp hw
    obtain ⟨n, hn, hplace⟩ := Option.bind_eq_some_iff.mp hj
    exact ⟨n, j, hn, hplace, hpart⟩
  · cases h

theorem member_of_step {items : List Value} {part : Value} (h : step ref (.list items) name = .ok part) :
    Loose items name ∨ ∃ i : Nat, name = toString i ∧ items[i]? = some part := by
  obtain ⟨n, j, hn, hplace, hpart⟩ := place_of_step h
  obtain ⟨hlow, hhigh, hlt, hsame⟩ := position?_eq_some hplace
  by_cases hnumeral : ∃ i < items.length, name = toString i
  · obtain ⟨i, hi, rfl⟩ := hnumeral
    have hni := Decimal.eq_of_readInt?_toString hn
    obtain rfl : i = j := by omega
    exact .inr ⟨i, rfl, hpart⟩
  · exact .inl ⟨n, hn, hlow, hhigh, fun i hi he => hnumeral ⟨i, hi, he⟩⟩

theorem Leads.tail {s : Step} {path : List Step} {part : Value} (h : Leads document (s :: path) v)
    (hstep : step ref document s.name = .ok part) : Leads part path v := by
  cases h with
  | @key es name next _ _ entry rest =>
    rw [Step.name, step, entry] at hstep
    cases hstep
    exact rest
  | @index items i next _ _ place rest =>
    obtain ⟨n, j, hn, hplace, hpart⟩ := place_of_step hstep
    have hni := Decimal.eq_of_readInt?_toString hn
    obtain ⟨-, -, -, hsame⟩ := position?_eq_some hplace
    obtain rfl : i = j := by omega
    rw [place] at hpart
    cases hpart
    exact rest

theorem Leads.not_loose {path : List Step} {before after : List String} {items : List Value}
    (h : Leads document path v) (hnames : path.map Step.name = before ++ name :: after)
    (hreach : before.foldlM (step ref) document = .ok (.list items)) : ¬ Loose items name := by
  induction before generalizing document path with
  | nil =>
    cases hreach
    cases h with
    | here => cases hnames
    | @index items i _ _ _ place _ =>
      obtain rfl : toString i = name := (List.cons.inj hnames).1
      rintro ⟨n, -, -, -, hnone⟩
      exact hnone i (List.getElem?_eq_some_iff.mp place).1 rfl
  | cons first before ih =>
    obtain ⟨s, rest, rfl, rfl, hrest⟩ := List.map_eq_cons_iff.mp hnames
    rw [List.foldlM_cons] at hreach
    obtain ⟨part, hpart, hreach⟩ := bind_eq_ok.mp hreach
    exact ih (h.tail hpart) hrest hreach

theorem leads_of_foldlM (h : names.foldlM (step ref) document = .ok v)
    (hstrict : ∀ before name after items, names = before ++ name :: after →
      before.foldlM (step ref) document = .ok (.list items) → ¬ Loose items name) :
    ∃ path, names = path.map Step.name ∧ Leads document path v := by
  induction names generalizing document with
  | nil =>
    cases h
    exact ⟨[], rfl, .here v⟩
  | cons name names ih =>
    rw [List.foldlM_cons] at h
    obtain ⟨part, hpart, hrest⟩ := bind_eq_ok.mp h
    obtain ⟨path, rfl, hleads⟩ := ih hrest fun before next after items hsplit hreach =>
      hstrict (name :: before) next after items (congrArg (name :: ·) hsplit) (by
        rw [List.foldlM_cons, hpart]
        exact hreach)
    cases document with
    | dict es =>
      refine ⟨.key name :: path, rfl, .key ?_ hleads⟩
      simp only [step] at hpart
      split at hpart
      · next w hw =>
        cases hpart
        exact hw
      · cases hpart
    | list items =>
      have hnot := hstrict [] name _ items rfl rfl
      obtain ⟨i, rfl, hi⟩ := (member_of_step hpart).resolve_left hnot
      exact ⟨.index i :: path, rfl, .index hi hleads⟩
    | _ => cases hpart

theorem family_of_resolve {f : Fault} (h : segments ref = .ok names) (hf : resolve document ref = .error f) :
    f.family? = some .missingReference := by
  rw [resolve_of_segments_ok h] at hf
  obtain ⟨node, name, -, hstep⟩ := exists_of_foldlM_eq_error hf
  exact family_of_step hstep

theorem resolve_external (h : Text.startsWith ref "#/" = false) :
    resolve document ref = .error (.externalReference ref) := by
  have hsegments : segments ref = .error (.externalReference ref) := by
    unfold segments
    split
    · next path htext =>
      rw [startsWith_iff.mpr ⟨_, segments_of_toList htext⟩] at h
      cases h
    · rfl
  rw [resolve, hsegments]
  rfl

/-- A reference that resolves only by a segment in a looser notation, or from the end of a list, is not
reported; every other that leads to no node is. -/
theorem missesFail_iff (document : Value) (ref : String) :
    MissesFail document ref ↔ ∀ v, resolve document ref = .ok v →
      ∀ name items, AppliesTo document ref name items → ¬ Loose items name := by
  constructor
  · rintro ⟨hfound, -, -⟩ v hv name items ⟨before, after, hsegments, hreach⟩
    obtain ⟨path, hpath, hleads⟩ := hfound v hv
    rw [hsegments] at hpath
    exact hleads.not_loose (Except.ok.inj hpath).symm hreach
  · intro hstrict
    have hfound : ∀ v, resolve document ref = .ok v → Addresses document ref v := by
      intro v hv
      obtain ⟨names, hsegments, hfold⟩ := bind_eq_ok.mp hv
      obtain ⟨path, rfl, hleads⟩ := leads_of_foldlM hfold fun before name after items hsplit hreach =>
        hstrict v hv name items ⟨before, after, hsplit ▸ hsegments, hreach⟩
      exact ⟨path, hsegments, hleads⟩
    refine ⟨hfound, fun hlocal hnone => ?_, fun hexternal => ⟨_, resolve_external hexternal, rfl⟩⟩
    obtain ⟨names, hsegments⟩ := startsWith_iff.mp hlocal
    cases hresolve : resolve document ref with
    | ok v => exact absurd ⟨v, hfound v hresolve⟩ hnone
    | error f => exact ⟨f, rfl, family_of_resolve hsegments hresolve⟩

def oneList : Value := Value.object [("a", .list [.int 1])]

/-- The last member is found one place below zero. -/
theorem not_missesFail_fromEnd : ¬ ∀ document ref, MissesFail document ref := by
  intro h
  have hresolve : resolve oneList "#/a/-1" = .ok (.int 1) := rfl
  have hsegments : segments "#/a/-1" = .ok (["a"] ++ "-1" :: []) := rfl
  have hreach : ["a"].foldlM (step "#/a/-1") oneList = .ok (.list [.int 1]) := rfl
  obtain ⟨path, hnames, hleads⟩ := (h oneList "#/a/-1").found _ hresolve
  rw [hsegments] at hnames
  have hloose : Loose [.int 1] "-1" := by
    refine ⟨-1, by decide, by decide, by decide, fun i hi => ?_⟩
    obtain rfl : i = 0 := by simpa using hi
    decide
  exact hleads.not_loose (Except.ok.inj hnames).symm hreach hloose

end OpenApi.Pointer
