import OpenApi.Proofs.Key
import OpenApi.Proofs.Operation.Notation
/-! # Interfaces with some of the operations

Leaving out operations by their tags changes nothing about the others. The compilation with options
goes beside the one without them, and stays where it is while that one compiles an operation that
is not wanted. -/
namespace OpenApi

open Compile

/-- Whether an operation is wanted. -/
def Options.keeps (options : Options) (o : Operation) : Bool :=
  !options.skips (o.tags.map Value.str)

def Options.all (optimistic : Bool) : Options := ⟨none, [], optimistic⟩

theorem Options.skips_all (optimistic : Bool) (tags : List Value) :
    (all optimistic).skips tags = false := by
  have hlists : lists [] = fun _ => false := by
    funext tag
    unfold lists
    cases tag.str? <;> rfl
  rw [skips, all, hlists]
  simp

namespace Operation

theorem mapM_text_eq_ok {vs : List Value} {ss : List String} (h : vs.mapM Field.text = .ok ss) :
    ss.map Value.str = vs := by
  have hall := mapM_eq_ok h
  clear h
  induction hall with
  | nil => rfl
  | @cons v s vs ss hv _ ih =>
    rw [List.map_cons, ih]
    cases v with
    | str t => rw [Except.ok.inj hv]
    | _ => cases hv

theorem Declared.compile_tags (document : Value) (d : Declared) (name : String) :
    (d.compile document name).Gives fun o =>
      o.tags.map Value.str = d.tags.elements?.getD [] := by
  unfold Declared.compile
  refine gives_bind fun objects => gives_bind fun parameters => gives_bind fun responses => ?_
  refine gives_bind fun codecs => gives_bind fun path => gives_bind fun body => ?_
  refine gives_bind fun returnsJson => gives_bind_ofExcept fun tags htags => ?_
  refine gives_bind fun tag => gives_bind fun summary => gives_bind fun description => ?_
  exact gives_pure (mapM_text_eq_ok htags)

namespace Progress

theorem namesOf_put (p : Progress) (os : List Operation) (key tag : Key) (names : List String) :
    (⟨os, p.taken.put key names⟩ : Progress).namesOf tag =
      if tag == key then names else p.namesOf tag := by
  unfold namesOf
  rw [Entries.get?_put]
  split <;> rfl

theorem namesOf_congr (p : Progress) {key tag : Key} (h : (tag == key) = true) :
    p.namesOf tag = p.namesOf key := by
  unfold namesOf
  rw [Entries.get?_congr p.taken h]

structure Placed (d : Declared) (p q p' q' : Progress) : Prop where
  operations : ∃ o o', o.NotedAlike o' ∧ o'.tags.map Value.str = d.tags.elements?.getD [] ∧
    p'.operations = p.operations ++ [o] ∧ q'.operations = q.operations ++ [o']
  names : ∀ tag, p'.namesOf tag ⊆ q'.namesOf tag
  kept : ∀ tag, q.namesOf tag ⊆ q'.namesOf tag

theorem place_shadows (document : Value) {p q : Progress}
    (h : ∀ tag, p.namesOf tag ⊆ q.namesOf tag) (d : Declared) :
    Shadows document (Placed d p q) (p.place document d) (q.place document d) := by
  unfold place
  refine shadows_bind_ofExcept fun name _ => shadows_bind_ofExcept fun first _ => ?_
  cases first.key? with
  | none => exact shadows_throw _
  | some key =>
    dsimp only
    by_cases hclash : (q.namesOf key).contains name = true
    · rw [if_pos hclash]
      exact shadows_throw _
    have hfree : ¬ (p.namesOf key).contains name = true := by
      intro hmem
      exact hclash (List.contains_iff_mem.mpr (h key (List.contains_iff_mem.mp hmem)))
    rw [if_neg hclash, if_neg hfree]
    have hcompile := (d.compile_shadows document name).and_gives (d.compile_tags document name)
    refine hcompile.bind fun o o' ho => (shadows_note _ _).bind fun _ _ _ => shadows_pure ?_
    refine ⟨⟨o, o', ho.1, ho.2, rfl, rfl⟩, fun tag => ?_, fun tag => ?_⟩
    · rw [namesOf_put, namesOf_put]
      by_cases htag : (tag == key) = true
      · rw [if_pos htag, if_pos htag]
        exact List.append_subset.mpr ⟨List.subset_append_of_subset_left _ (h key),
          List.subset_append_right _ _⟩
      · rw [if_neg htag, if_neg htag]
        exact h tag
    · rw [namesOf_put]
      by_cases htag : (tag == key) = true
      · rw [if_pos htag, namesOf_congr q htag]
        exact List.subset_append_left _ _
      · rw [if_neg htag]
        exact List.Subset.refl _

/-- What was compiled behind is what was compiled ahead, without the operations that the options
skip. -/
structure Filtered (options : Options) (p q : Progress) : Prop where
  operations : List.Forall₂ Operation.NotedAlike p.operations (q.operations.filter options.keeps)
  names : ∀ tag, p.namesOf tag ⊆ q.namesOf tag

variable {document : Value} {options : Options} {optimistic : Bool} {p q p' q' : Progress}
  {d : Declared} {tags : List Value}

theorem keeps_eq {o : Operation} (htags : d.tags.elements? = some tags)
    (ho : o.tags.map Value.str = d.tags.elements?.getD []) :
    options.keeps o = !options.skips tags := by
  rw [Options.keeps, ho, htags]
  rfl

theorem Filtered.placed (h : Filtered options p q) (hplaced : Placed d p q p' q')
    (htags : d.tags.elements? = some tags) (hkeep : options.skips tags = false) :
    Filtered options p' q' := by
  obtain ⟨o, o', ho, hotags, hp, hq⟩ := hplaced.operations
  refine ⟨?_, hplaced.names⟩
  have hwanted : [o'].filter options.keeps = [o'] := by
    rw [List.filter_singleton, keeps_eq htags hotags, hkeep]
    rfl
  rw [hp, hq, List.filter_append, hwanted]
  exact List.rel_append h.operations (.cons ho .nil)

theorem Filtered.skipped (h : Filtered options p q) {q₁ : Progress}
    (hplaced : Placed d q q q₁ q') (htags : d.tags.elements? = some tags)
    (hskip : options.skips tags = true) : Filtered options p q' := by
  obtain ⟨o, o', -, hotags, -, hq⟩ := hplaced.operations
  refine ⟨?_, fun tag => List.Subset.trans (h.names tag) (hplaced.kept tag)⟩
  have hunwanted : [o'].filter options.keeps = [] := by
    rw [List.filter_singleton, keeps_eq htags hotags, hskip]
    rfl
  rw [hq, List.filter_append, hunwanted, List.append_nil]
  exact h.operations

theorem add_shadows (h : Filtered options p q) (d : Declared) :
    Shadows document (Filtered options) (p.add document options d)
      (q.add document (.all optimistic) d) := by
  rw [add_eq, add_eq]
  cases d.tags.isTruthy with
  | false => exact shadows_throw _
  | true =>
    rw [if_pos rfl, if_pos rfl]
    cases htags : d.tags.elements? with
    | none => exact shadows_throw _
    | some tags =>
      dsimp only
      rw [Options.skips_all, if_neg Bool.false_ne_true]
      cases hskip : options.skips tags with
      | true =>
        rw [if_pos rfl]
        -- what is compiled ahead only could be compiled behind, so it clashes with nothing there
        apply Shadows.note_behind
        have hself := place_shadows document (fun tag => List.Subset.refl (q.namesOf tag)) d
        exact shadows_idle hself fun q₁ q' hq => h.skipped hq htags hskip
      | false =>
        rw [if_neg Bool.false_ne_true]
        exact (place_shadows document h.names d).mono fun p' q' hpq => h.placed hpq htags hskip

theorem addEntry_shadows (h : Filtered options p q) (path : Key) (item : Entries Key Value)
    (entry : Key × Value) :
    Shadows document (Filtered options) (p.addEntry document options path item entry)
      (q.addEntry document (.all optimistic) path item entry) := by
  unfold addEntry
  split
  · split
    · exact add_shadows h _
    · exact shadows_pure h
  · exact shadows_throw _

theorem addPath_shadows (h : Filtered options p q) (entry : Key × Value) :
    Shadows document (Filtered options) (p.addPath document options entry)
      (q.addPath document (.all optimistic) entry) := by
  unfold addPath
  refine shadows_bind_ofExcept fun v _ => ?_
  split
  · exact shadows_foldlM (fun p q hpq e _ => addEntry_shadows hpq _ _ e) h
  · exact shadows_pure h

end Progress

theorem compileAll_shadows (document : Value) (options : Options) (optimistic : Bool) :
    Shadows document
      (fun os ps => List.Forall₂ Operation.NotedAlike os (ps.filter options.keeps))
      (compileAll document options) (compileAll document (.all optimistic)) := by
  unfold compileAll
  refine shadows_bind_ofExcept fun paths _ => ?_
  have hstart : Progress.Filtered options .start .start := ⟨.nil, fun _ => List.Subset.refl _⟩
  refine (shadows_foldlM (fun p q hpq e _ => Progress.addPath_shadows hpq e) hstart).bind ?_
  exact fun p q hpq => shadows_pure hpq.operations

end Operation

namespace Api

variable {document : Entries Key Value} {options : Options} {optimistic : Bool} {defaults : Value}
  {api : Api} {d : Compilation}

theorem compile_shadows (document : Entries Key Value) (options : Options) (optimistic : Bool)
    (defaults : Value) :
    Shadows (.dict document)
      (fun a b => List.Forall₂ Operation.NotedAlike a.operations
          (b.operations.filter options.keeps) ∧ a.models.keys ⊆ b.models.keys)
      (compile document options defaults) (compile document (.all optimistic) defaults) := by
  unfold compile
  refine shadows_bind_ofExcept fun version _ => shadows_bind_ofExcept fun baseUrl _ => ?_
  refine (Operation.compileAll_shadows _ options optimistic).bind fun os ps hops => ?_
  refine shadows_catalogue.bind fun k l hkl => (shadows_note _ _).bind fun _ _ _ => ?_
  refine shadows_bind_ofExcept fun title _ => shadows_bind_ofExcept fun baseUrl _ => ?_
  exact shadows_pure ⟨hops, hkl⟩

/-- Where all operations compile, so do those that the options keep. Each has the notation that it
has among all of them, and no other models are met. -/
theorem compile_filtered
    (run : (compile document (.all optimistic) defaults).run .start = (.ok api, d))
    (options : Options) :
    ∃ filtered e, (compile document options defaults).run .start = (.ok filtered, e) ∧
      List.Forall₂ Operation.NotedAlike filtered.operations
        (api.operations.filter options.keeps) ∧
      filtered.models.keys ⊆ api.models.keys := by
  have hshadows := compile_shadows document options optimistic defaults
  have hrun := (hshadows .start .start (behind_start _)).of_run run
  obtain ⟨filtered, e, hfiltered, hab, -⟩ := hrun.2.exists_run
  exact ⟨filtered, e, hfiltered, hab⟩

def pathTo (tag model : String) : Key × Value :=
  (.str ("/" ++ tag), .object [("get", .object [("tags", .list [.str tag]),
    ("responses", .object [("200", .object [("content", .object [("application/json",
      .object [("schema", .object [("$ref", .str ("#/" ++ model))])])])])])])])

def ownersAndPets : Entries Key Value :=
  [("openapi", .str "3.0.0"),
    ("info", .object [("title", .str "Pets"), ("version", .str "1")]),
    ("Owner", .object [("properties", .object [("pet", .object [("$ref", .str "#/Pet")])])]),
    ("Pet", .object [("properties", .object [("owner", .object [("$ref", .str "#/Owner")])])]),
    ("paths", .dict [pathTo "owners" "Owner", pathTo "pets" "Pet"])]

theorem compile_filtered_pets : ∃ api d,
    (compile ownersAndPets (.all false) .null).run .start = (.ok api, d) ∧
      api.operations.map Operation.path = ["/owners", "/pets"] ∧
      ∃ filtered e, (compile ownersAndPets ⟨some ["pets"], [], false⟩ .null).run .start =
          (.ok filtered, e) ∧
        List.Forall₂ Operation.NotedAlike filtered.operations
          (api.operations.filter (Options.mk (some ["pets"]) [] false).keeps) ∧
        filtered.models.keys ⊆ api.models.keys := by
  obtain ⟨api, d, run⟩ := Compile.exists_run (c := .start)
    (x := compile ownersAndPets (.all false) .null) (by decide +kernel)
  have hpaths : ((compile ownersAndPets (.all false) .null).run .start).1.toOption.map
      (fun api => api.operations.map Operation.path) = some ["/owners", "/pets"] := by
    decide +kernel
  rw [run] at hpaths
  exact ⟨api, d, run, Option.some.inj hpaths, compile_filtered run _⟩

end Api

end OpenApi
