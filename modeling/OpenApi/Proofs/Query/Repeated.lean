import OpenApi.Proofs.Query.Deep
import OpenApi.Proofs.Query.Exploded
import OpenApi.Proofs.Value.Nulls
/-! # Nulls among repeated names

Where every value is written behind a name of its own, nulls are left out of mappings and lists. Only what is
inside a member of a list is part of a text, and a null there is a part of that text. -/
namespace OpenApi.Query

def written : Value → List Value
  | .null => []
  | .dict es => writtenEntries es
  | .list items => items.filter fun v => v.kind ≠ .null
  | .tuple items => items.filter fun v => v.kind ≠ .null
  | v => [v]
where
  writtenEntries : List (Key × Value) → List Value
    | [] => []
    | (_, v) :: rest => written v ++ writtenEntries rest

theorem mem_writtenEntries {es : Entries Key Value} {w : Value} :
    w ∈ written.writtenEntries es ↔ ∃ e ∈ es, w ∈ written e.2 := by
  induction es with
  | nil => simp [written.writtenEntries]
  | cons e rest ih => simp [written.writtenEntries, ih]

theorem kind_of_mem_written {v w : Value} (h : w ∈ written v) : w.kind ≠ .null := by
  induction v with
  | dict es ih =>
    obtain ⟨e, he, hw⟩ := mem_writtenEntries.mp h
    exact ih e he hw
  | list items | tuple items => simpa using (List.mem_filter.mp h).2
  | null => cases h
  | _ =>
    rw [List.mem_singleton.mp h]
    exact Kind.noConfusion

/-- The same places hold the texts of the values on one side, and of the pruned values on the other. -/
inductive Alike {α : Type} : List (α × String) → List (α × String) → List Value → Prop where
  | nil : Alike [] [] []
  | cons {ps qs : List (α × String)} {vs : List Value} (place : α) (v : Value) (h : Alike ps qs vs) :
      Alike ((place, v.wireText) :: ps) ((place, v.pruned.wireText) :: qs) (v :: vs)

section Alike

variable {α : Type} {ps qs rs ss : List (α × String)} {vs ws : List Value}

theorem Alike.append (h : Alike ps qs vs) (k : Alike rs ss ws) :
    Alike (ps ++ rs) (qs ++ ss) (vs ++ ws) := by
  induction h with
  | nil => exact k
  | cons place v _ ih => exact .cons place v ih

theorem Alike.of_members (place : α) (vs : List Value) :
    Alike (vs.map fun v => (place, v.wireText)) (vs.map fun v => (place, v.pruned.wireText)) vs := by
  induction vs with
  | nil => exact .nil
  | cons v vs ih => exact .cons place v ih

theorem Alike.eq_iff (h : Alike ps qs vs) (hn : ∀ v ∈ vs, v.kind ≠ .null) :
    ps = qs ↔ ∀ v ∈ vs, v.isNullFree = true := by
  induction h with
  | nil => simp
  | cons place v _ ih =>
    obtain ⟨hv, hvs⟩ := List.forall_mem_cons.mp hn
    rw [List.cons.injEq, Prod.mk.injEq, ih hvs, Value.wireText_pruned_iff hv, List.forall_mem_cons]
    simp

end Alike

theorem filter_members_pruned (items : List Value) :
    ((items.filter fun v => v.kind ≠ .null).map Value.pruned).filter (fun v => v.kind ≠ .null) =
      (items.filter fun v => v.kind ≠ .null).map Value.pruned := by
  rw [List.filter_eq_self]
  intro w hw
  obtain ⟨v, hv, rfl⟩ := List.mem_map.mp hw
  simpa [Value.kind_pruned] using (List.mem_filter.mp hv).2

theorem alike_spread {es : Entries Key Value} (h : ∀ e ∈ es, ∀ name,
      Alike (spread.spreadValue name e.2) (spread.spreadValue name e.2.pruned) (written e.2)) :
    Alike (spread es) (spread es.pruned) (written.writtenEntries es) := by
  induction es with
  | nil => exact .nil
  | cons e rest ih =>
    obtain ⟨he, hrest⟩ := List.forall_mem_cons.mp h
    obtain ⟨k, v⟩ := e
    by_cases hn : v.kind = .null
    · cases v with
      | null => exact ih hrest
      | _ => cases hn
    · rw [Entries.pruned_cons hn, spread, spread, written.writtenEntries]
      exact (he k.wireText).append (ih hrest)

theorem alike_spreadValue (v : Value) (name : String) :
    Alike (spread.spreadValue name v) (spread.spreadValue name v.pruned) (written v) := by
  induction v generalizing name with
  | dict es ih =>
    rw [Value.pruned_dict]
    exact alike_spread ih
  | list items | tuple items =>
    rw [Value.pruned, Value.members_pruned, spread.spreadValue, spread.spreadValue, spread.repeated,
      spread.repeated, filter_members_pruned, List.map_map]
    exact .of_members name _
  | null => exact .nil
  | _ => exact .cons name _ .nil

theorem alike_leaves {path : List String} {es : Entries Key Value} (h : ∀ e ∈ es, ∀ path,
      Alike (leaves.leavesOf path e.2) (leaves.leavesOf path e.2.pruned) (written e.2)) :
    Alike (leaves path es) (leaves path es.pruned) (written.writtenEntries es) := by
  induction es with
  | nil => exact .nil
  | cons e rest ih =>
    obtain ⟨he, hrest⟩ := List.forall_mem_cons.mp h
    obtain ⟨k, v⟩ := e
    by_cases hn : v.kind = .null
    · cases v with
      | null => exact ih hrest
      | _ => cases hn
    · rw [Entries.pruned_cons hn, leaves_cons, leaves_cons, written.writtenEntries]
      exact (he _).append (ih hrest)

theorem alike_leavesOf (v : Value) (path : List String) :
    Alike (leaves.leavesOf path v) (leaves.leavesOf path v.pruned) (written v) := by
  induction v generalizing path with
  | dict es ih =>
    rw [Value.pruned_dict]
    exact alike_leaves ih
  | list items | tuple items =>
    rw [Value.pruned, Value.members_pruned, leaves.leavesOf, leaves.leavesOf, leaves.members,
      leaves.members, filter_members_pruned, List.map_map]
    exact .of_members _ _
  | null => exact .nil
  | _ => exact .cons path _ .nil

theorem written_params_iff (params : Entries Key Value) :
    (∀ w ∈ written.writtenEntries params, w.isNullFree = true) ↔
      ∀ e ∈ params, ∀ w ∈ written e.2, w.isNullFree = true := by
  simp only [mem_writtenEntries]
  constructor
  · intro h e he w hw
    exact h w ⟨e, he, hw⟩
  · rintro h w ⟨e, he, hw⟩
    exact h e he w hw

theorem spread_unique {ps qs : List (String × String)}
    (h : joined "&" (ps.map field) = joined "&" (qs.map field)) : ps = qs := by
  have hread : ∀ ps : List (String × String),
      formPairs (joined "&" (ps.map field)).toList = ps := by
    intro ps
    apply formPairs_joined
    rw [List.forall₂_map_left_iff, List.forall₂_same]
    exact fun p _ => fieldOf_field p
  rw [← hread ps, h, hread qs]

theorem explode_pruned_iff (params : Entries Key Value) : explode params = explode params.pruned ↔
    ∀ e ∈ params, ∀ w ∈ written e.2, w.isNullFree = true := by
  have halike : Alike (spread params) (spread params.pruned) (written.writtenEntries params) :=
    alike_spread fun e _ => alike_spreadValue e.2
  have hn : ∀ w ∈ written.writtenEntries params, w.kind ≠ .null := by
    intro w hw
    obtain ⟨e, -, hw⟩ := mem_writtenEntries.mp hw
    exact kind_of_mem_written hw
  rw [← written_params_iff, ← halike.eq_iff hn]
  constructor
  · exact spread_unique
  · intro h
    rw [explode, explode, h]

theorem deep_pruned_iff (params : Entries Key Value) : deep params = deep params.pruned ↔
    ∀ e ∈ params, ∀ w ∈ written e.2, w.isNullFree = true := by
  have halike : Alike (leaves [] params) (leaves [] params.pruned) (written.writtenEntries params) :=
    alike_leaves fun e _ => alike_leavesOf e.2
  have hn : ∀ w ∈ written.writtenEntries params, w.kind ≠ .null := by
    intro w hw
    obtain ⟨e, -, hw⟩ := mem_writtenEntries.mp hw
    exact kind_of_mem_written hw
  rw [← written_params_iff, ← halike.eq_iff hn]
  constructor
  · exact leaves_unique (fun _ => path_of_leaf) (fun _ => path_of_leaf)
  · intro h
    rw [deep, deep, deepBelow, deepBelow, h]

end OpenApi.Query
