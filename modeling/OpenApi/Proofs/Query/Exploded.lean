import OpenApi.Proofs.Call.Query
import OpenApi.Proofs.Query.Joined
/-! # Reading an exploded mapping

A mapping is spread by walking through its entries: what is null is left out, a list repeats its name and
a mapping inside says names of its own. Reading the query string gives the texts back under their names,
whatever characters they hold and at whatever depth a name comes again. -/
namespace OpenApi

/-- The value can be spread: its lists hold values without members, and its mappings have texts as keys. -/
def Value.isSpreadable : Value → Bool
  | list items | tuple items => items.all fun v => decide v.IsSingle
  | dict es => entries es
  | _ => true
where
  entries : List (Key × Value) → Bool
    | [] => true
    | (k, v) :: rest => k.toValue.str?.isSome && isSpreadable v && entries rest

theorem Value.isSpreadable_dict {es : Entries Key Value} : (dict es).isSpreadable = true ↔
    ∀ e ∈ es, e.1.toValue.str?.isSome = true ∧ e.2.isSpreadable = true := by
  rw [isSpreadable]
  induction es with
  | nil => simp [isSpreadable.entries]
  | cons e rest ih =>
    rw [isSpreadable.entries, Bool.and_eq_true, Bool.and_eq_true, ih, List.forall_mem_cons]

theorem Value.single_of_all {items : List Value}
    (h : (items.all fun v => decide v.IsSingle) = true) : ∀ v ∈ items, v.IsSingle := by
  intro v hv
  exact of_decide_eq_true (List.all_eq_true.mp h v hv)

theorem Key.exists_eq_str {k : Key} (h : k.toValue.str?.isSome = true) : ∃ name, k = .str name := by
  cases k with
  | str name => exact ⟨name, rfl⟩
  | _ => cases h

namespace Query

inductive Walk : List (Key × Value) → List (String × String) → Prop where
  | nil : Walk [] []
  | null {name : String} {rest : List (Key × Value)} {ps : List (String × String)}
      (h : Walk rest ps) : Walk ((.str name, .null) :: rest) ps
  | single {name : String} {v : Value} {rest : List (Key × Value)} {ps : List (String × String)}
      (hv : v.IsSingle) (hn : v.kind ≠ .null) (h : Walk rest ps) :
      Walk ((.str name, v) :: rest) ((name, v.wireText) :: ps)
  | members {name : String} {v : Value} {items : List Value} {rest : List (Key × Value)}
      {ps : List (String × String)} (hv : v = .list items ∨ v = .tuple items)
      (hs : ∀ w ∈ items, w.IsSingle) (h : Walk rest ps) :
      Walk ((.str name, v) :: rest)
        (((items.filter fun w => w.kind ≠ .null).map fun w => (name, w.wireText)) ++ ps)
  | mapping {name : String} {es rest : List (Key × Value)} {qs ps : List (String × String)}
      (hes : Walk es qs) (h : Walk rest ps) : Walk ((.str name, .dict es) :: rest) (qs ++ ps)

def textsUnder (ps : List (String × String)) (name : String) : List String :=
  (ps.filter fun p => p.1 == name).map Prod.snd

/-- A mapping has the names in the order in which they first come. A name that comes once has its text,
and one that comes again has the list of its texts. -/
structure Groups (es : Entries Key Value) (ps : List (String × String)) : Prop where
  names : es.keys = (ps.map Prod.fst).eraseDups.map Key.str
  once : ∀ name s, textsUnder ps name = [s] → es.get? (.str name) = some (.str s)
  again : ∀ name, 1 < (textsUnder ps name).length →
    es.get? (.str name) = some (.list ((textsUnder ps name).map .str))

variable {params : List (Key × Value)} {ps : List (String × String)}

theorem Walk.spread_eq (h : Walk params ps) : spread params = ps := by
  induction h with
  | nil => rfl
  | null _ ih => rw [spread, ih, spread.spreadValue, List.nil_append]
  | @single name v rest ps hv hn _ ih =>
    have hname : Key.wireText (.str name) = name := rfl
    rw [spread, spreadValue_of_single hv hn, ih, hname, List.singleton_append]
  | members hv _ _ ih =>
    rcases hv with rfl | rfl
    all_goals
      rw [spread, spread.spreadValue, spread.repeated, ih]
      rfl
  | mapping _ _ hes ih => rw [spread, spread.spreadValue, hes, ih]

theorem exists_walk_of_entries (h : ∀ e ∈ params, ∀ rest, (∃ ps, Walk rest ps) →
    ∃ ps, Walk (e :: rest) ps) : ∃ ps, Walk params ps := by
  induction params with
  | nil => exact ⟨[], .nil⟩
  | cons e rest ih =>
    obtain ⟨he, hrest⟩ := List.forall_mem_cons.mp h
    exact he rest (ih hrest)

theorem exists_walk_cons {v : Value} (hv : v.isSpreadable = true) (name : String)
    {rest : List (Key × Value)} (h : ∃ ps, Walk rest ps) : ∃ ps, Walk ((.str name, v) :: rest) ps := by
  obtain ⟨ps, hps⟩ := h
  induction v generalizing name rest ps with
  | null => exact ⟨_, .null hps⟩
  | list items => exact ⟨_, .members (.inl rfl) (Value.single_of_all hv) hps⟩
  | tuple items => exact ⟨_, .members (.inr rfl) (Value.single_of_all hv) hps⟩
  | dict es ih =>
    have hes : ∃ qs, Walk es qs := by
      apply exists_walk_of_entries
      rintro ⟨k, w⟩ he rest ⟨qs, hqs⟩
      obtain ⟨hk, hw⟩ := Value.isSpreadable_dict.mp hv _ he
      obtain ⟨inner, rfl⟩ := Key.exists_eq_str hk
      exact ih _ he hw inner qs hqs
    obtain ⟨qs, hqs⟩ := hes
    exact ⟨_, .mapping hqs hps⟩
  | bool | int | float | str | bytes | buffer | date | datetime | blob =>
    exact ⟨_, .single ⟨nofun, nofun, nofun⟩ nofun hps⟩

theorem exists_walk (h : (Value.dict params).isSpreadable = true) : ∃ ps, Walk params ps := by
  apply exists_walk_of_entries
  rintro ⟨k, v⟩ he rest hrest
  obtain ⟨hk, hv⟩ := Value.isSpreadable_dict.mp h _ he
  obtain ⟨name, rfl⟩ := Key.exists_eq_str hk
  exact exists_walk_cons hv name hrest

def field (p : String × String) : String :=
  Text.encodeComponent p.1 ++ "=" ++ Text.encodeComponent p.2

theorem fieldOf_field (p : String × String) : FieldOf (field p) p :=
  ⟨_, _, rfl, encodes_component p.1, encodes_component p.2⟩

def fragments : List (Key × Value) → List String
  | [] => []
  | (k, v) :: rest => entryFragments k.wireText v ++ fragments rest
where
  entryFragments (name : String) : Value → List String
    | .dict es => [joined "&" ((fragments es).filter fun f => !f.isEmpty)]
    | v => (spread.spreadValue name v).map field

theorem field_ne_empty (ps : List (String × String)) : ∀ f ∈ ps.map field, f ≠ "" :=
  List.forall_mem_map.mpr fun p _ => (fieldOf_field p).ne_empty

theorem marked_fragments {es : List (Key × Value)}
    (h : ∀ e ∈ es, ∀ name,
      marked ((fragments.entryFragments name e.2).filter fun f => !f.isEmpty) =
        marked ((spread.spreadValue name e.2).map field)) :
    marked ((fragments es).filter fun f => !f.isEmpty) = marked ((spread es).map field) := by
  induction es with
  | nil => rfl
  | cons e rest ih =>
    obtain ⟨he, hrest⟩ := List.forall_mem_cons.mp h
    rw [fragments, spread, List.filter_append, List.map_append, marked_append, marked_append, he, ih hrest]

theorem marked_entryFragments (v : Value) (name : String) :
    marked ((fragments.entryFragments name v).filter fun f => !f.isEmpty) =
      marked ((spread.spreadValue name v).map field) := by
  induction v generalizing name with
  | dict es ih =>
    rw [fragments.entryFragments, joined_eq_of_marked (marked_fragments ih),
      marked_joined (field_ne_empty _)]
    rfl
  | _ =>
    rw [fragments.entryFragments, filter_of_ne_empty (field_ne_empty _)]
    all_goals nofun

/-- A mapping inside may as well be exploded by itself, and left out if it has nothing to say. -/
theorem explode_eq_fragments (params : Entries Key Value) :
    explode params = joined "&" ((fragments params).filter fun f => !f.isEmpty) := by
  have hall : marked ((fragments params).filter fun f => !f.isEmpty) =
      marked ((spread params).map field) := marked_fragments fun e _ => marked_entryFragments e.2
  exact (joined_eq_of_marked hall).symm

theorem read_exploded (params : Entries Key Value) : read (explode params) =
    .dict ((byName (spread params)).map fun e => (.str e.1, gatheredValue e.2)) := by
  apply read_joined
  rw [List.forall₂_map_left_iff, List.forall₂_same]
  intro p _
  exact fieldOf_field p

theorem get?_str_map {α β : Type} (f : α → β) (es : Entries String α) (name : String) :
    Entries.get? (es.map fun e => (Key.str e.1, f e.2)) (.str name) = (es.get? name).map f := by
  induction es with
  | nil => rfl
  | cons e es ih =>
    rw [List.map_cons, Entries.get?_cons, Entries.get?_cons, ih, Key.str_beq_str]
    split <;> rfl

theorem get?_byName (ps : List (String × String)) {name : String} (h : textsUnder ps name ≠ []) :
    (byName ps).get? name = some (textsUnder ps name) := by
  have hmem : name ∈ ps.map Prod.fst := by
    obtain ⟨p, hp⟩ := List.exists_mem_of_ne_nil _ (mt List.map_eq_nil_iff.mpr h)
    obtain ⟨hp, hname⟩ := List.mem_filter.mp hp
    exact List.mem_map.mpr ⟨p, hp, eq_of_beq hname⟩
  rw [byName, Entries.get?_table, if_pos hmem]
  rfl

theorem groups_byName (ps : List (String × String)) :
    Groups ((byName ps).map fun e => (.str e.1, gatheredValue e.2)) ps where
  names := by
    rw [byName, Entries.keys, List.map_map, List.map_map]
    rfl
  once name s hs := by
    have hne : textsUnder ps name ≠ [] := by simp [hs]
    rw [get?_str_map, get?_byName ps hne, hs]
    rfl
  again name hlength := by
    have hne : textsUnder ps name ≠ [] := List.ne_nil_of_length_pos (by omega)
    have hlist : gatheredValue (textsUnder ps name) = .list ((textsUnder ps name).map .str) := by
      unfold gatheredValue
      split
      · next hs => simp [hs] at hlength
      · rfl
    rw [get?_str_map, get?_byName ps hne, Option.map_some, hlist]

def nestedParams : Entries Key Value :=
  [(.str "q&", .str "a=1 + 2%"), (.str "ids", .list [.int 1, .null, .str "x&y"]), (.str "none", .null),
    (.str "page", Value.object [("q&", .str ""), ("more", Value.object [("ids", .bool true)])])]

end Query

end OpenApi
