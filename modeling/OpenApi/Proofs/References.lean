import OpenApi.Compilation
import OpenApi.Proofs.Entries
import OpenApi.Proofs.Key
import OpenApi.Proofs.Schema.Related
/-! # References of a value

The references that stand anywhere in a value. There are no more of them than a compilation counts,
and the target of a reference holds none that the document does not hold. -/
namespace OpenApi

namespace Value

def entryReference (e : Key × Value) : List String :=
  match e.2 with
  | .str ref => if e.1 == .str "$ref" then [ref] else []
  | _ => []

def references : Value → List String
  | .dict es => inEntries es
  | .list items => inItems items
  | .tuple items => inItems items
  | _ => []
where
  inEntries : List (Key × Value) → List String
    | [] => []
    | (k, v) :: rest => entryReference (k, v) ++ references v ++ inEntries rest
  inItems : List Value → List String
    | [] => []
    | v :: rest => references v ++ inItems rest

variable {es : List (Key × Value)} {items : List Value}

theorem length_entryReference (e : Key × Value) :
    (entryReference e).length ≤ if e.1 == .str "$ref" then 1 else 0 := by
  unfold entryReference
  split
  · split
    · exact Nat.le_refl 1
    · exact Nat.le_refl 0
  · exact Nat.zero_le _

theorem length_inEntries (h : ∀ e ∈ es, e.2.references.length ≤ e.2.countRefs) :
    (references.inEntries es).length ≤ countRefs.inEntries es := by
  induction es with
  | nil => exact Nat.le_refl 0
  | cons e rest ih =>
    obtain ⟨k, v⟩ := e
    obtain ⟨he, hrest⟩ := List.forall_mem_cons.mp h
    have hentry : (entryReference (k, v)).length ≤ if k == .str "$ref" then 1 else 0 :=
      length_entryReference (k, v)
    have hvalue : v.references.length ≤ v.countRefs := he
    have hmore := ih hrest
    rw [references.inEntries, countRefs.inEntries, List.length_append, List.length_append]
    omega

theorem length_inItems (h : ∀ v ∈ items, v.references.length ≤ v.countRefs) :
    (references.inItems items).length ≤ countRefs.inItems items := by
  induction items with
  | nil => exact Nat.le_refl 0
  | cons v rest ih =>
    obtain ⟨hv, hrest⟩ := List.forall_mem_cons.mp h
    have hmore := ih hrest
    rw [references.inItems, countRefs.inItems, List.length_append]
    omega

theorem length_references (v : Value) : v.references.length ≤ v.countRefs := by
  induction v with
  | dict es ih => exact length_inEntries ih
  | list items ih | tuple items ih => exact length_inItems ih
  | null | bool | int | float | str | bytes | buffer | date | datetime | blob => exact Nat.zero_le _

theorem references_of_entry {e : Key × Value} (he : e ∈ es) :
    e.2.references ⊆ (dict es).references := by
  intro r hr
  show r ∈ references.inEntries es
  induction es with
  | nil => cases he
  | cons d rest ih =>
    obtain ⟨k, v⟩ := d
    rw [references.inEntries, List.mem_append, List.mem_append]
    rcases List.mem_cons.mp he with rfl | he
    · exact .inl (.inr hr)
    · exact .inr (ih he)

theorem references_of_item {v : Value} (hv : v ∈ items) :
    v.references ⊆ references.inItems items := by
  intro r hr
  induction items with
  | nil => cases hv
  | cons w rest ih =>
    rw [references.inItems, List.mem_append]
    rcases List.mem_cons.mp hv with rfl | hv
    · exact .inl hr
    · exact .inr (ih hv)

theorem mem_references {k : Key} {ref : String} (hk : (k == .str "$ref") = true)
    (he : (k, .str ref) ∈ es) : ref ∈ (dict es).references := by
  show ref ∈ references.inEntries es
  induction es with
  | nil => cases he
  | cons d rest ih =>
    obtain ⟨l, v⟩ := d
    rw [references.inEntries, List.mem_append, List.mem_append]
    rcases List.mem_cons.mp he with he | he
    · cases he
      refine .inl (.inl ?_)
      simp [entryReference, hk]
    · exact .inr (ih he)

end Value

namespace Pointer

theorem references_of_step {ref name : String} {v w : Value} (h : step ref v name = .ok w) :
    w.references ⊆ v.references := by
  unfold step at h
  split at h
  · split at h
    · cases h
      obtain ⟨e, he, -, rfl⟩ := Entries.mem_of_get? ‹_›
      exact Value.references_of_entry he
    · cases h
  · split at h
    · cases h
      obtain ⟨i, -, hi⟩ := Option.bind_eq_some_iff.mp ‹_›
      exact Value.references_of_item (List.mem_of_getElem? hi)
    · cases h
  · cases h

theorem references_of_resolve {document target : Value} {ref : String}
    (h : resolve document ref = .ok target) : target.references ⊆ document.references := by
  obtain ⟨names, -, hfold⟩ := bind_eq_ok.mp h
  clear h
  induction names generalizing document with
  | nil =>
    cases hfold
    exact fun _ => id
  | cons name rest ih =>
    rw [List.foldlM_cons] at hfold
    obtain ⟨next, hnext, hfold⟩ := bind_eq_ok.mp hfold
    exact fun r hr => references_of_step hnext (ih hfold hr)

end Pointer

end OpenApi
