import OpenApi.Proofs.Call.Carried
import OpenApi.Proofs.Query.Fields
import OpenApi.Proofs.Url.Template
/-! # The query string of a call

All five ways to write a value come to the same field if the value has no members. So what a call
gives to its query parameters, and further names and values behind it, is read back from the URL. -/
namespace OpenApi

def Value.IsSingle (v : Value) : Prop := v.kind ≠ .list ∧ v.kind ≠ .tuple ∧ v.kind ≠ .dict

instance (v : Value) : Decidable v.IsSingle := inferInstanceAs (Decidable (_ ∧ _))

namespace Query

theorem flatten_of_single {v : Value} (h : v.IsSingle) : flatten v = [v] := by
  obtain ⟨hlist, htuple, hdict⟩ := h
  cases v with
  | list items => exact absurd rfl hlist
  | tuple items => exact absurd rfl htuple
  | dict es => exact absurd rfl hdict
  | _ => rfl

theorem spreadValue_of_single {v : Value} (h : v.IsSingle) (hn : v.kind ≠ .null) (name : String) :
    spread.spreadValue name v = [(name, v.wireText)] := by
  obtain ⟨hlist, htuple, hdict⟩ := h
  cases v with
  | null => exact absurd rfl hn
  | list items => exact absurd rfl hlist
  | tuple items => exact absurd rfl htuple
  | dict es => exact absurd rfl hdict
  | _ => rw [spread.spreadValue]; all_goals nofun

theorem leavesOf_of_single {v : Value} (h : v.IsSingle) (hn : v.kind ≠ .null)
    (path : List String) : leaves.leavesOf path v = [(path, v.wireText)] := by
  obtain ⟨hlist, htuple, hdict⟩ := h
  cases v with
  | null => exact absurd rfl hn
  | list items => exact absurd rfl hlist
  | tuple items => exact absurd rfl htuple
  | dict es => exact absurd rfl hdict
  | _ => rw [leaves.leavesOf]; all_goals nofun

theorem delimited_of_single {v : Value} (h : v.IsSingle) (hn : v.kind ≠ .null)
    (delimiter name : String) : delimited delimiter [(.str name, v)] =
      Text.encodeComponent name ++ "=" ++ Text.encodeComponent v.wireText := by
  have hkey : encodeKey (.str name) = Text.encodeComponent name := rfl
  simp [delimited, hn, flatten_of_single h, joined, hkey, encode]

end Query

theorem Formatter.fieldOf_write (f : Formatter) (name : String) {v : Value} (h : v.IsSingle)
    (hn : v.kind ≠ .null) : Query.FieldOf (f.write [(.str name, v)]) (name, v.wireText) := by
  refine ⟨Text.encodeComponent name, Text.encodeComponent v.wireText, ?_,
    Query.encodes_component name, Query.encodes_component v.wireText⟩
  cases f with
  | form => exact Query.delimited_of_single h hn _ name
  | space => exact Query.delimited_of_single h hn _ name
  | pipe => exact Query.delimited_of_single h hn _ name
  | explode =>
    have hkey : Key.wireText (.str name) = name := rfl
    simp [write, Query.explode, Query.spread, Query.spreadValue_of_single h hn, joined, hkey]
  | deep =>
    have hkey : Key.text (.str name) = name := rfl
    simp [write, Query.deep, Query.deepBelow, Query.leaves, Query.leavesOf_of_single h hn, joined,
      Query.pathKey, hkey]

theorem Query.fieldOf_further (e : String × Value) :
    FieldOf (furtherField (.str e.1, e.2)) (e.1, e.2.wireText) :=
  ⟨Text.encodeForm e.1, Text.encodeForm e.2.wireText, rfl, encodes_form _, encodes_form _⟩

theorem Entries.overlay_str {α : Type} (base upper : Entries String α) :
    overlay (base.map fun e => (Key.str e.1, e.2)) (upper.map fun e => (Key.str e.1, e.2)) =
      (overlay base upper).map fun e => (Key.str e.1, e.2) := by
  have hput : ∀ (es : Entries String α) (k : String) (v : α),
      put (es.map fun e => (Key.str e.1, e.2)) (.str k) v =
        (put es k v).map fun e => (Key.str e.1, e.2) := by
    intro es k v
    induction es with
    | nil => rfl
    | cons e es ih =>
      by_cases hk : k = e.1
      · simp [put, hk]
      · simpa [put, hk] using ih
  induction upper generalizing base with
  | nil => rfl
  | cons e upper ih =>
    simp only [overlay, List.map_cons, List.foldl_cons, hput] at ih ⊢
    exact ih _

namespace Operation

theorem Declared.compile_template (document : Value) (d : Declared) (name : String) :
    (d.compile document name).Gives fun o => o.template = .ofPath o.path := by
  unfold Declared.compile
  refine Compile.gives_bind fun objects => Compile.gives_bind fun parameters => ?_
  refine Compile.gives_bind fun responses => Compile.gives_bind fun codecs => ?_
  refine Compile.gives_bind fun path => Compile.gives_bind fun body => ?_
  refine Compile.gives_bind fun returnsJson => Compile.gives_bind fun tags => ?_
  refine Compile.gives_bind fun tag => Compile.gives_bind fun summary => ?_
  exact Compile.gives_bind fun description => Compile.gives_pure rfl

def queryPairs (o : Operation) (bound : Entries String Value) : List (String × String) :=
  (o.valuesAt bound .query).map fun p => (p.1.name, p.2.wireText)

def GivesFurther (bound further : Entries String Value) : Prop :=
  (bound.get? "query").getD .null = Value.object further ∨
    (bound.get? "query").getD .null = .null ∧ further = []

theorem not_null_of_valuesAt {o : Operation} {bound : Entries String Value} {l : Location}
    {p : Parameter × Value} (h : p ∈ o.valuesAt bound l) : p.2.kind ≠ .null := by
  obtain ⟨e, -, he⟩ := List.mem_filterMap.1 h
  dsimp only at he
  split at he
  · next hc =>
    cases he
    exact hc.2
  · cases he

theorem mapping_of_givesFurther {bound further : Entries String Value}
    (h : GivesFurther bound further) : Field.mapping ((bound.get? "query").getD .null) =
      .ok (further.map fun e => (.str e.1, e.2)) := by
  rcases h with h | ⟨h, rfl⟩
  · rw [h]
    cases further with
    | nil => rfl
    | cons e further => rfl
  · rw [h]
    rfl

theorem fields_of_valuesAt {o : Operation} {bound : Entries String Value}
    (h : ∀ p ∈ o.valuesAt bound .query, p.2.IsSingle) :
    List.Forall₂ Query.FieldOf ((o.valuesAt bound .query).map fun p =>
      p.1.formatter.write [(.str p.1.name, p.2)]) (o.queryPairs bound) := by
  rw [queryPairs, List.forall₂_map_left_iff, List.forall₂_map_right_iff, List.forall₂_same]
  intro p hp
  exact p.1.formatter.fieldOf_write p.1.name (h p hp) (not_null_of_valuesAt hp)

theorem says_url {o : Operation} (ht : o.template = .ofPath o.path) (hpath : '?' ∉ o.path.toList)
    {bound : Entries String Value} (h : ∀ p ∈ o.valuesAt bound .query, p.2.IsSingle)
    (query further : Entries String Value) :
    Query.Says (Query.append (o.url bound) (further.map fun e => (.str e.1, e.2))
      (query.map fun e => (.str e.1, e.2)))
      (o.queryPairs bound ++ (Entries.overlay query further).map fun e => (e.1, e.2.wireText)) := by
  have hfields := fields_of_valuesAt h
  have hfull : ∀ f ∈ (o.valuesAt bound .query).map (fun p =>
      p.1.formatter.write [(.str p.1.name, p.2)]), f ≠ "" := by
    intro f hf
    obtain ⟨p, -, hp⟩ := (partners hfields).1 f hf
    exact hp.ne_empty
  have hfurther : List.Forall₂ Query.FieldOf
      ((Entries.overlay query further).map fun e => Query.furtherField (.str e.1, e.2))
      ((Entries.overlay query further).map fun e => (e.1, e.2.wireText)) := by
    rw [List.forall₂_map_left_iff, List.forall₂_map_right_iff, List.forall₂_same]
    exact fun e _ => Query.fieldOf_further e
  have hbase : ∀ values, '?' ∉ (o.template.render values).toList := by
    intro values
    rw [ht]
    exact Url.not_mem_render (by decide) hpath values
  rw [url, Query.append_join (hbase _) hfull, Entries.overlay_str, List.map_map]
  exact Query.says_join (hbase _) (List.rel_append hfields hfurther)

end Operation

/-- The query string of a prepared call says exactly what was passed: what the call gives to the
query parameters and then the further values, on top of the default ones. -/
theorem Api.says_of_prepare {document : Entries Key Value} {options : Options} {defaults : Value}
    {c d : Compilation} {api : Api}
    (h : (Api.compile document options defaults).run c = (.ok api, d)) {o : Operation}
    (ho : o ∈ api.operations) (hpath : '?' ∉ o.path.toList) {a : Arguments}
    {bound further : Entries String Value} (hb : o.bind a = .ok bound)
    (hsingle : ∀ p ∈ o.valuesAt bound .query, p.2.IsSingle)
    (hfurther : Operation.GivesFurther bound further) (base : Option String)
    (query : Entries String Value) :
    match o.prepare base query a with
    | .ok r => Query.Says r.url (o.queryPairs bound ++
        (Entries.overlay query further).map fun e => (e.1, e.2.wireText))
    | .error f => Operation.settingsOf a bound = .error f ∨ ∃ b options, o.body = some b ∧
        b.encode ((bound.get? "body").getD .null) options = .error f := by
  have ht : o.template = .ofPath o.path :=
    (Api.compile_gives (Operation.Declared.compile_template _) options defaults).of_run h o ho
  have hm := Operation.mapping_of_givesFurther hfurther
  rcases Operation.prepare_cases hb base query with ⟨f, hf, hq | hother⟩ |
    ⟨values, own, sent, hv, -, -, hr⟩
  · rw [hm] at hq
    cases hq
  · rw [hf]
    exact hother
  · rw [hm] at hv
    cases hv
    rw [hr]
    exact Operation.says_url ht hpath hsingle query further

def queryObject (name style : String) (required : Bool) : Entries Key Value :=
  [(.str "name", .str name), (.str "in", .str "query"), (.str "required", .bool required),
    (.str "style", .str style), (.str "schema", Value.object [("type", .str "string")])]

def oneQuery (name style : String) (required : Bool) : Entries Key Value :=
  [(.str "openapi", .str "3.0.0"),
    (.str "info", Value.object [("title", .str "T"), ("version", .str "1")]),
    (.str "paths", Value.object [("/notes", Value.object [("get", Value.object [
      ("tags", .list [.str "notes"]),
      ("operationId", .str "findNotes"),
      ("parameters", .list [.dict (queryObject name style required)]),
      ("responses", Value.object [])])])])]

def textsOf (v : Value) : Option (List (Option String × Option String)) :=
  v.entries?.map fun es => es.map fun e => (e.1.toValue.str?, e.2.str?)

theorem object_of_texts {v : Value} {name text : String}
    (h : textsOf v = some [(some name, some text)]) : v = Value.object [(name, .str text)] := by
  obtain ⟨es, hes, htexts⟩ := Option.map_eq_some_iff.1 h
  cases v with
  | dict fs =>
    cases hes
    obtain ⟨⟨k, w⟩, rfl, he⟩ := List.map_eq_singleton_iff.1 htexts
    obtain ⟨hk, hw⟩ := Prod.mk.inj he
    cases k with
    | str s =>
      cases w with
      | str t =>
        cases hk
        cases hw
        rfl
      | _ => cases hw
    | _ => cases hk
  | _ => cases hes

theorem Api.says_of_prepare_marks : ∃ api d, ∃ o ∈ api.operations,
    (Api.compile (oneQuery "a&b" "deepObject" false) .default .null).run .start = (.ok api, d) ∧
      ∃ r, o.prepare none [("note", .null), ("page", .int 1)] ⟨[], [("aB", .str "x=1? y"),
        ("query", Value.object [("note", .str "50% + x")])], none⟩ = .ok r ∧
        Query.Says r.url [("a&b", "x=1? y"), ("note", "50% + x"), ("page", "1")] := by
  obtain ⟨api, d, hr⟩ := Compile.exists_run (c := .start)
    (x := Api.compile (oneQuery "a&b" "deepObject" false) .default .null) (by decide +kernel)
  have hall : ((Api.compile (oneQuery "a&b" "deepObject" false) .default .null).run
      .start).1.toOption.any (fun api => api.operations.any fun o =>
        (o.bind ⟨[], [("aB", .str "x=1? y"),
          ("query", Value.object [("note", .str "50% + x")])], none⟩).toOption.any fun bound =>
            decide (o.queryPairs bound = [("a&b", "x=1? y")] ∧
              '?' ∉ o.path.toList ∧ o.body.isNone ∧
              ((bound.get? "opts").getD .null).isTruthy = false ∧
              ∀ p ∈ o.valuesAt bound .query, p.2.IsSingle) &&
            decide (textsOf ((bound.get? "query").getD .null) =
              some [(some "note", some "50% + x")])) = true := by
    decide +kernel
  rw [hr] at hall
  obtain ⟨o, ho, hall⟩ := List.any_eq_true.1 hall
  refine ⟨api, d, o, ho, hr, ?_⟩
  cases hb : o.bind ⟨[], [("aB", .str "x=1? y"),
      ("query", Value.object [("note", .str "50% + x")])], none⟩ with
  | error f =>
    rw [hb] at hall
    cases hall
  | ok bound =>
    rw [hb] at hall
    obtain ⟨hall, hquery⟩ := Bool.and_eq_true_iff.1 hall
    obtain ⟨hpairs, hpath, hbody, hopts, hsingle⟩ := of_decide_eq_true hall
    have hfurther : Operation.GivesFurther bound [("note", .str "50% + x")] :=
      .inl (object_of_texts (of_decide_eq_true hquery))
    have hsays := Api.says_of_prepare hr ho hpath hb hsingle hfurther none
      [("note", .null), ("page", .int 1)]
    split at hsays
    · next r hprepared =>
      rw [hpairs] at hsays
      exact ⟨r, hprepared, hsays⟩
    · next f hf =>
      rcases hsays with hs | ⟨b, -, hb', -⟩
      · simp [Operation.settingsOf, hopts] at hs
      · rw [hb'] at hbody
        cases hbody

end OpenApi
