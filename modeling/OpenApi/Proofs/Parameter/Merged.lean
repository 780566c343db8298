import OpenApi.Parameter.Brackets
import OpenApi.Proofs.Operation.Parameters
/-! # What bracketed parameters are merged to

A parameter is built from an object without brackets, or from all objects with one name before the
bracket, in the location of the first of these. Nothing else of them but their schemas is looked at. -/
namespace OpenApi.Parameter

open Compile

def nameText (es : Entries Key Value) : String :=
  match nameOf es with
  | .ok name => name
  | .error _ => ""

def bracketName? (es : Entries Key Value) : Option String := (property? (nameText es)).map Prod.fst

/-- The name of the parameter that an object goes into. -/
def baseName (es : Entries Key Value) : String := (bracketName? es).getD (nameText es)

def locationOf? (es : Entries Key Value) : Option Location :=
  Location.ofValue? (entry es "in" (.str "query"))

def isMarked (es : Entries Key Value) : Bool := (Value.getD es "required").isTruthy

/-- The object stands for a parameter that no request can do without. -/
def IsRequired (es : Entries Key Value) : Prop :=
  ∃ l, locationOf? es = some l ∧ (isMarked es = true ∨ l = .path)

def firstOf? (objects : List (Entries Key Value)) (name : String) : Option (Entries Key Value) :=
  objects.find? fun es => bracketName? es == some name

/-- The objects have a parameter of this name in this location, which is marked as required or not. -/
inductive Builds (objects : List (Entries Key Value)) (name : String) : Location → Bool → Prop
  | alone {es : Entries Key Value} {l : Location} (mem : es ∈ objects)
      (plain : bracketName? es = none) (named : nameText es = name)
      (located : locationOf? es = some l) : Builds objects name l (isMarked es)
  | merged {es : Entries Key Value} {l : Location} (first : firstOf? objects name = some es)
      (located : locationOf? es = some l) : Builds objects name l false

/-- The object is one of those, or it gathers what is in brackets among them. -/
inductive Declared.ComesFrom (objects : List (Entries Key Value)) : Declared → Prop
  | plain {es : Entries Key Value} (mem : es ∈ objects) (plain : bracketName? es = none) :
      ComesFrom objects (.plain (.dict es))
  | gathered {name : String} {es : Entries Key Value} (properties : Entries Key Value)
      (first : firstOf? objects name = some es) :
      ComesFrom objects (.gathered name (entry es "in" (.str "query")) properties)

structure Merges (objects : List (Entries Key Value)) (ds : List Declared) : Prop where
  comes : ∀ d ∈ ds, d.ComesFrom objects
  plain : ∀ es ∈ objects, bracketName? es = none → .plain (.dict es) ∈ ds
  gathered : ∀ es ∈ objects, ∀ name, bracketName? es = some name → ∃ d ∈ ds, d.gathers name = true
  named : ∀ es ∈ objects, nameOf es = .ok (nameText es)

theorem firstOf?_append {objects : List (Entries Key Value)} {name : String}
    {first : Entries Key Value} (h : firstOf? objects name = some first)
    (more : List (Entries Key Value)) : firstOf? (objects ++ more) name = some first := by
  rw [firstOf?] at h ⊢
  rw [List.find?_append, h]
  rfl

theorem firstOf?_of_new {objects : List (Entries Key Value)} {name : String}
    (h : ∀ es ∈ objects, bracketName? es ≠ some name) {es : Entries Key Value}
    (hes : bracketName? es = some name) : firstOf? (objects ++ [es]) name = some es := by
  have hnone : objects.find? (fun es => bracketName? es == some name) = none := by
    refine List.find?_eq_none.2 fun d hd => ?_
    simpa using h d hd
  rw [firstOf?, List.find?_append, hnone]
  simp [hes]

namespace Declared

theorem ComesFrom.append {objects : List (Entries Key Value)} {d : Declared}
    (h : d.ComesFrom objects) (more : List (Entries Key Value)) :
    d.ComesFrom (objects ++ more) := by
  cases h with
  | plain hmem hplain => exact .plain (List.mem_append_left _ hmem) hplain
  | gathered properties hfirst => exact .gathered properties (firstOf?_append hfirst more)

theorem ComesFrom.gather {objects : List (Entries Key Value)} {d : Declared}
    (h : d.ComesFrom objects) (property : String) (schema : Value) :
    (d.gather property schema).ComesFrom objects := by
  cases h with
  | plain hmem hplain => exact .plain hmem hplain
  | gathered properties hfirst => exact .gathered _ hfirst

theorem gathers_gather (d : Declared) (property : String) (schema : Value) (name : String) :
    (d.gather property schema).gathers name = d.gathers name := by
  cases d <;> rfl

theorem add_dict {done ds : List Declared} {es : Entries Key Value}
    (h : add done (.dict es) = .ok ds) : nameOf es = .ok (nameText es) ∧
      match property? (nameText es) with
      | none => ds = done ++ [plain (.dict es)]
      | some (name, property) =>
        if done.any (gathers name) then
          ds = done.map fun d =>
            if d.gathers name then d.gather property (Value.getD es "schema") else d
        else ds = done ++ [gathered name (entry es "in" (.str "query"))
          [(.str property, Value.getD es "schema")]] := by
  obtain ⟨name, hname, h⟩ := bind_eq_ok.1 h
  have htext : nameText es = name := by
    rw [nameText, hname]
  rw [htext]
  refine ⟨hname, ?_⟩
  cases hp : property? name with
  | none =>
    rw [hp] at h
    cases h
    rfl
  | some p =>
    simp only [hp] at h
    dsimp only
    split at h
    · next hany =>
      rw [if_pos hany]
      cases h
      rfl
    · next hnew =>
      rw [if_neg hnew]
      cases h
      rfl

end Declared

theorem Merges.nil : Merges [] [] := by
  constructor <;> simp

namespace Merges

variable {objects : List (Entries Key Value)} {done : List Declared} (h : Merges objects done)
  {es : Entries Key Value} (hname : nameOf es = .ok (nameText es))

include h

theorem gathered_append (more : List Declared) {e : Entries Key Value} (he : e ∈ objects)
    {name : String} (hn : bracketName? e = some name) :
    ∃ d ∈ done ++ more, d.gathers name = true := by
  obtain ⟨d, hd, hg⟩ := h.gathered e he name hn
  exact ⟨d, List.mem_append_left _ hd, hg⟩

include hname

theorem named_append : ∀ e ∈ objects ++ [es], nameOf e = .ok (nameText e) := by
  intro e he
  rcases List.mem_append.1 he with he | he
  · exact h.named e he
  · rwa [List.mem_singleton.1 he]

theorem add_plain (hplain : bracketName? es = none) :
    Merges (objects ++ [es]) (done ++ [.plain (.dict es)]) := by
  refine ⟨?_, ?_, ?_, h.named_append hname⟩
  · intro d hd
    rcases List.mem_append.1 hd with hd | hd
    · exact (h.comes d hd).append [es]
    · rw [List.mem_singleton.1 hd]
      exact .plain (by simp) hplain
  · intro e he hn
    rcases List.mem_append.1 he with he | he
    · exact List.mem_append_left _ (h.plain e he hn)
    · rw [List.mem_singleton.1 he]
      exact List.mem_append_right _ List.mem_cons_self
  · intro e he name hn
    rcases List.mem_append.1 he with he | he
    · exact h.gathered_append _ he hn
    · rw [List.mem_singleton.1 he, hplain] at hn
      cases hn

theorem add_new {base : String} (hbase : bracketName? es = some base)
    (hnew : ¬ done.any (Declared.gathers base) = true) (properties : Entries Key Value) :
    Merges (objects ++ [es])
      (done ++ [.gathered base (entry es "in" (.str "query")) properties]) := by
  have hfirst : ∀ e ∈ objects, bracketName? e ≠ some base := by
    intro e he hn
    obtain ⟨d, hd, hg⟩ := h.gathered e he base hn
    exact hnew (List.any_eq_true.2 ⟨d, hd, hg⟩)
  refine ⟨?_, ?_, ?_, h.named_append hname⟩
  · intro d hd
    rcases List.mem_append.1 hd with hd | hd
    · exact (h.comes d hd).append [es]
    · rw [List.mem_singleton.1 hd]
      exact .gathered _ (firstOf?_of_new hfirst hbase)
  · intro e he hn
    rcases List.mem_append.1 he with he | he
    · exact List.mem_append_left _ (h.plain e he hn)
    · rw [List.mem_singleton.1 he, hbase] at hn
      cases hn
  · intro e he name hn
    rcases List.mem_append.1 he with he | he
    · exact h.gathered_append _ he hn
    · rw [List.mem_singleton.1 he, hbase, Option.some.injEq] at hn
      exact ⟨_, List.mem_append_right _ List.mem_cons_self, by simp [Declared.gathers, hn]⟩

theorem add_gathered {base : String} (hbase : bracketName? es = some base)
    (hany : done.any (Declared.gathers base) = true) (property : String) (schema : Value) :
    Merges (objects ++ [es])
      (done.map fun d => if d.gathers base then d.gather property schema else d) := by
  have hkeeps : ∀ d ∈ done, ∀ name, d.gathers name = true →
      ∃ d' ∈ done.map (fun d => if d.gathers base then d.gather property schema else d),
        d'.gathers name = true := by
    intro d hd name hg
    refine ⟨_, List.mem_map_of_mem hd, ?_⟩
    by_cases hb : d.gathers base = true
    · rw [if_pos hb, Declared.gathers_gather, hg]
    · rw [if_neg hb, hg]
  refine ⟨?_, ?_, ?_, h.named_append hname⟩
  · intro d' hd'
    obtain ⟨d, hd, rfl⟩ := List.mem_map.1 hd'
    split
    · exact ((h.comes d hd).append [es]).gather _ _
    · exact (h.comes d hd).append [es]
  · intro e he hn
    rcases List.mem_append.1 he with he | he
    · exact List.mem_map.2 ⟨_, h.plain e he hn, rfl⟩
    · rw [List.mem_singleton.1 he, hbase] at hn
      cases hn
  · intro e he name hn
    rcases List.mem_append.1 he with he | he
    · obtain ⟨d, hd, hg⟩ := h.gathered e he name hn
      exact hkeeps d hd name hg
    · rw [List.mem_singleton.1 he, hbase, Option.some.injEq] at hn
      obtain ⟨d, hd, hg⟩ := List.any_eq_true.1 hany
      exact hkeeps d hd name (hn ▸ hg)

omit hname in
theorem add {ds : List Declared} (hadd : Declared.add done (.dict es) = .ok ds) :
    Merges (objects ++ [es]) ds := by
  obtain ⟨hname, hadd⟩ := Declared.add_dict hadd
  cases hp : property? (nameText es) with
  | none =>
    have hplain : bracketName? es = none := by rw [bracketName?, hp]; rfl
    simp only [hp] at hadd
    subst hadd
    exact h.add_plain hname hplain
  | some p =>
    have hbase : bracketName? es = some p.1 := by rw [bracketName?, hp]; rfl
    simp only [hp] at hadd
    by_cases hany : done.any (Declared.gathers p.1) = true
    · rw [if_pos hany] at hadd
      subst hadd
      exact h.add_gathered hname hbase hany _ _
    · rw [if_neg hany] at hadd
      subst hadd
      exact h.add_new hname hbase hany _

end Merges

theorem foldlM_add {objects : List Value} {before : List (Entries Key Value)}
    {done ds : List Declared} (h : Merges before done)
    (hadd : objects.foldlM Declared.add done = .ok ds) :
    ∃ ess, objects = ess.map Value.dict ∧ Merges (before ++ ess) ds := by
  induction objects generalizing before done with
  | nil =>
    cases hadd
    exact ⟨[], rfl, by rwa [List.append_nil]⟩
  | cons v objects ih =>
    rw [List.foldlM_cons] at hadd
    obtain ⟨next, hv, hrest⟩ := bind_eq_ok.1 hadd
    cases v with
    | dict es =>
      obtain ⟨ess, rfl, hm⟩ := ih (h.add hv) hrest
      exact ⟨es :: ess, rfl, by simpa using hm⟩
    | _ => cases hv

theorem merges_of_mergeBracketed {objects merged : List Value}
    (h : mergeBracketed objects = .ok merged) : ∃ ess ds, objects = ess.map Value.dict ∧
      Merges ess ds ∧ merged = ds.map Declared.toValue := by
  obtain ⟨ds, hds, h⟩ := bind_eq_ok.1 h
  cases h
  obtain ⟨ess, he, hm⟩ := foldlM_add .nil hds
  exact ⟨ess, ds, he, hm, rfl⟩

theorem compile_located (document : Value) (arguments : Entries String String)
    (es : Entries Key Value) : (compile document arguments es).Gives fun r =>
      ∀ l, locationOf? es = some l → ∃ p, r = some p := by
  unfold compile locationOf?
  cases hl : Location.ofValue? (entry es "in" (.str "query")) with
  | none => exact gives_pure nofun
  | some location =>
    refine gives_bind fun name => gives_bind fun formatter => gives_bind fun codec => ?_
    refine gives_bind fun style => gives_bind fun description => gives_pure fun l _ => ?_
    exact ⟨_, rfl⟩

structure Stated (objects : List Value) (ps : List Parameter) : Prop where
  sound : ∀ p ∈ ps, ∃ arguments es, .dict es ∈ objects ∧ Declares arguments es p
  complete : ∀ es l, .dict es ∈ objects → locationOf? es = some l →
    ∃ p ∈ ps, ∃ arguments, Declares arguments es p

theorem compileAll_states (document : Value) (objects : List Value) :
    (compileAll document objects).Gives (Stated objects) := by
  unfold compileAll
  refine gives_bind_ofExcept fun ess hess => gives_bind fun names => ?_
  have hdict : objects = ess.map Value.dict := by
    have hf := mapM_eq_ok hess
    clear hess
    induction hf with
    | nil => rfl
    | @cons v es objects ess hv _ ih =>
      cases v with
      | dict fs =>
        cases hv
        rw [List.map_cons, ← ih]
      | _ => cases hv
  refine (gives_mapM fun es _ => (compile_declares document _ es).and
    (compile_located document _ es)).bind fun rs hrs => ?_
  refine gives_pure ⟨fun p hp => ?_, fun es l he hl => ?_⟩
  · obtain ⟨r, hr, rfl⟩ := List.mem_filterMap.1 hp
    obtain ⟨es, hes, hd, -⟩ := (partners hrs).2 _ hr
    exact ⟨_, es, hdict ▸ List.mem_map_of_mem hes, hd p rfl⟩
  · rw [hdict] at he
    obtain ⟨es', hes, he⟩ := List.mem_map.1 he
    cases he
    obtain ⟨r, hr, hd, hsome⟩ := (partners hrs).1 _ hes
    obtain ⟨p, rfl⟩ := hsome l hl
    exact ⟨p, List.mem_filterMap.2 ⟨_, hr, rfl⟩, _, hd p rfl⟩

theorem declares_gathered {name : String} {location : Value} {properties : Entries Key Value}
    {es : Entries Key Value} (he : (Declared.gathered name location properties).toValue = .dict es) :
    nameOf es = .ok name ∧ entry es "in" (.str "query") = location ∧ isMarked es = false := by
  cases he
  exact ⟨rfl, rfl, rfl⟩

theorem Stated.builds_iff {ess : List (Entries Key Value)} {ds : List Declared}
    {ps : List Parameter} (hm : Merges ess ds) (h : Stated (ds.map Declared.toValue) ps)
    (name : String) (l : Location) (required : Bool) :
    (∃ p ∈ ps, p.name = name ∧ p.location = l ∧ p.required = required) ↔
      ∃ marked, Builds ess name l marked ∧ required = (marked || decide (l = .path)) := by
  constructor
  · rintro ⟨p, hp, rfl, rfl, rfl⟩
    obtain ⟨arguments, es, hes, hd⟩ := h.sound p hp
    obtain ⟨d, hdm, he⟩ := List.mem_map.1 hes
    cases hm.comes d hdm with
    | @plain es' hmem hplain =>
      cases he
      refine ⟨isMarked es, .alone hmem hplain ?_ hd.location, hd.required⟩
      exact Except.ok.inj ((hm.named es hmem).symm.trans hd.name)
    | @gathered n first properties hfirst =>
      obtain ⟨hname, hlocation, hmarked⟩ := declares_gathered he
      have hn : n = p.name := Except.ok.inj (hname.symm.trans hd.name)
      have hl := hd.location
      rw [hlocation] at hl
      refine ⟨false, .merged (hn ▸ hfirst) hl, ?_⟩
      rw [hd.required, ← isMarked, hmarked]
  · rintro ⟨marked, hb, rfl⟩
    cases hb with
    | @alone es _ hmem hplain hnamed hlocated =>
      obtain ⟨p, hp, arguments, hd⟩ := h.complete es l
        (List.mem_map.2 ⟨_, hm.plain es hmem hplain, rfl⟩) hlocated
      have hl : p.location = l := Option.some.inj (hd.location.symm.trans hlocated)
      refine ⟨p, hp, ?_, hl, ?_⟩
      · rw [← hnamed]
        exact Except.ok.inj (hd.name.symm.trans (hm.named es hmem))
      · rw [hd.required, hl]
        rfl
    | @merged es _ hfirst hlocated =>
      have hmem := List.mem_of_find?_eq_some hfirst
      have hbracket : bracketName? es = some name := by simpa using List.find?_some hfirst
      obtain ⟨d, hdm, hg⟩ := hm.gathered es hmem name hbracket
      cases hm.comes d hdm with
      | plain _ _ => cases hg
      | @gathered n first properties hfirst' =>
        have hn : n = name := by simpa [Declared.gathers] using hg
        rw [hn, hfirst] at hfirst'
        cases hfirst'
        obtain ⟨p, hp, arguments, hd⟩ := h.complete _ l (List.mem_map.2 ⟨_, hdm, rfl⟩) hlocated
        have hl : p.location = l := Option.some.inj (hd.location.symm.trans hlocated)
        refine ⟨p, hp, ?_, hl, ?_⟩
        · rw [← hn]
          exact (Except.ok.inj hd.name).symm
        · rw [hd.required, hl]
          rfl

end OpenApi.Parameter
