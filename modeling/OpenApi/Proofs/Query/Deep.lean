import OpenApi.Proofs.Induction
import OpenApi.Proofs.Query.Joined
import OpenApi.Proofs.Text.Runs
/-! # Deep objects are written in one way

A nested mapping is written as the paths to its leaves. The marks of a path are not found in its names, so
the fields tell all paths and leaves. Those that go through one name stand together, and what they go on
with tells what stands under the name: nothing for a text, an empty name for a list, and a name that is
not empty for a mapping. -/
namespace OpenApi

/-- A text, some texts, or a mapping that is not empty and whose names are not empty either. -/
inductive Value.IsDeep : Value → Prop where
  | text (s : String) : IsDeep (.str s)
  | texts {ss : List String} (hne : ss ≠ []) : IsDeep (.list (ss.map .str))
  | mapping {es : Entries Key Value} (hne : es ≠ [])
      (hnames : ∀ e ∈ es, ∃ name, name ≠ "" ∧ e.1 = .str name) (hd : es.keys.Nodup)
      (h : ∀ e ∈ es, IsDeep e.2) : IsDeep (.dict es)

/-- A mapping of texts, some texts and further mappings. It may be empty itself, and so may a name. -/
structure IsDeepObject (es : Entries Key Value) : Prop where
  names : ∀ e ∈ es, ∃ name, e.1 = .str name
  distinct : es.keys.Nodup
  values : ∀ e ∈ es, e.2.IsDeep

theorem IsDeepObject.tail {e : Key × Value} {rest : Entries Key Value}
    (h : IsDeepObject (e :: rest)) : IsDeepObject rest where
  names := (List.forall_mem_cons.mp h.names).2
  distinct := (List.nodup_cons.mp h.distinct).2
  values := (List.forall_mem_cons.mp h.values).2

theorem IsDeepObject.first {e : Key × Value} {rest : Entries Key Value}
    (h : IsDeepObject (e :: rest)) : ∃ name v, e = (.str name, v) ∧ v.IsDeep := by
  obtain ⟨k, v⟩ := e
  obtain ⟨name, hname⟩ := h.names (k, v) List.mem_cons_self
  cases hname
  exact ⟨name, v, rfl, h.values _ List.mem_cons_self⟩

namespace Query

open Text (isEncoded)

def bracketed (names : List String) : String :=
  String.join (names.map fun s => "[" ++ Text.encodeComponent s ++ "]")

theorem toList_bracketed_cons (name : String) (names : List String) :
    (bracketed (name :: names)).toList =
      '[' :: ((Text.encodeComponent name).toList ++ ']' :: (bracketed names).toList) := by
  rw [bracketed, List.map_cons, String.join_cons]
  simp [bracketed, String.toList_append]

theorem toList_pathKey (name : String) (names : List String) :
    (pathKey (name :: names)).toList =
      (Text.encodeComponent name).toList ++ (bracketed names).toList := by
  rw [pathKey, String.toList_append]
  rfl

theorem bracketed_unique {p q : List String}
    (h : (bracketed p).toList = (bracketed q).toList) : p = q := by
  induction p generalizing q with
  | nil =>
    cases q with
    | nil => rfl
    | cons t q =>
      rw [toList_bracketed_cons] at h
      cases h
  | cons s p ih =>
    cases q with
    | nil =>
      rw [toList_bracketed_cons] at h
      cases h
    | cons t q =>
      rw [toList_bracketed_cons, toList_bracketed_cons] at h
      have hclose : ∀ s, ']' ∉ (Text.encodeComponent s).toList := Text.not_mem_encodeComponent (by decide)
      obtain ⟨hst, hpq⟩ := front_unique (hclose s) (hclose t) (List.cons.inj h).2
      rw [Text.encodeComponent_injective (String.toList_inj.mp hst), ih hpq]

theorem head_bracketed (names : List String) : ∀ c ∈ (bracketed names).toList.head?, ¬ c ≠ '[' := by
  intro c hc hne
  cases names with
  | nil => cases hc
  | cons s names =>
    rw [toList_bracketed_cons] at hc
    exact hne (Option.some.inj hc).symm

theorem pathKey_unique {p q : List String} (hp : p ≠ []) (hq : q ≠ [])
    (h : (pathKey p).toList = (pathKey q).toList) : p = q := by
  obtain ⟨s, p, rfl⟩ := List.exists_cons_of_ne_nil hp
  obtain ⟨t, q, rfl⟩ := List.exists_cons_of_ne_nil hq
  rw [toList_pathKey, toList_pathKey] at h
  have hopen : ∀ s, ∀ c ∈ (Text.encodeComponent s).toList, c ≠ '[' := by
    rintro s c hc rfl
    exact Text.not_mem_encodeComponent (by decide) s hc
  obtain ⟨hst, hpq⟩ := run_unique (hopen s) (hopen t) (head_bracketed p) (head_bracketed q) h
  rw [Text.encodeComponent_injective (String.toList_inj.mp hst), bracketed_unique hpq]

theorem mem_bracketed {names : List String} {c : Char} (h : c ∈ (bracketed names).toList) :
    isEncoded c = true ∨ c = '[' ∨ c = ']' := by
  induction names with
  | nil => cases h
  | cons s names ih =>
    rw [toList_bracketed_cons] at h
    rcases List.mem_cons.mp h with rfl | h
    · exact .inr (.inl rfl)
    rcases List.mem_append.mp h with h | h
    · exact .inl (Text.isEncoded_of_mem_component h)
    rcases List.mem_cons.mp h with rfl | h
    · exact .inr (.inr rfl)
    · exact ih h

theorem mem_pathKey {p : List String} {c : Char} (h : c ∈ (pathKey p).toList) :
    isEncoded c = true ∨ c = '[' ∨ c = ']' := by
  cases p with
  | nil => cases h
  | cons s p =>
    rw [toList_pathKey] at h
    rcases List.mem_append.mp h with h | h
    · exact .inl (Text.isEncoded_of_mem_component h)
    · exact mem_bracketed h

def leafField (l : List String × String) : String := pathKey l.1 ++ "=" ++ Text.encodeComponent l.2

theorem toList_leafField (l : List String × String) :
    (leafField l).toList = (pathKey l.1).toList ++ '=' :: (Text.encodeComponent l.2).toList := by
  simp [leafField, String.toList_append]

theorem leafField_unique {l m : List String × String} (hl : l.1 ≠ []) (hm : m.1 ≠ [])
    (h : leafField l = leafField m) : l = m := by
  have hmark : ∀ p, '=' ∉ (pathKey p).toList := by
    intro p hp
    rcases mem_pathKey hp with h | h | h
    all_goals exact absurd h (by decide)
  have he := congrArg String.toList h
  rw [toList_leafField, toList_leafField] at he
  obtain ⟨hpath, htext⟩ := front_unique (hmark l.1) (hmark m.1) he
  exact Prod.ext (pathKey_unique hl hm hpath) (Text.encodeComponent_injective (String.toList_inj.mp htext))

theorem not_mem_leafField (l : List String × String) : '&' ∉ (leafField l).toList := by
  intro h
  rw [toList_leafField] at h
  rcases List.mem_append.mp h with h | h
  · rcases mem_pathKey h with h | h | h
    all_goals exact absurd h (by decide)
  rcases List.mem_cons.mp h with h | h
  · exact absurd h (by decide)
  · exact Text.not_mem_encodeComponent (by decide) l.2 h

theorem leafField_ne_empty (l : List String × String) : leafField l ≠ "" := by
  simp [leafField]

theorem leaves_unique {ls ms : List (List String × String)} (hl : ∀ l ∈ ls, l.1 ≠ [])
    (hm : ∀ m ∈ ms, m.1 ≠ [])
    (h : joined "&" (ls.map leafField) = joined "&" (ms.map leafField)) : ls = ms := by
  have hfields : ∀ ls : List (List String × String),
      ∀ f ∈ ls.map leafField, f ≠ "" ∧ '&' ∉ f.toList := by
    intro ls
    exact List.forall_mem_map.mpr fun l _ => ⟨leafField_ne_empty l, not_mem_leafField l⟩
  have hmaps := joined_unique (hfields ls) (hfields ms) h
  clear h
  induction ls generalizing ms with
  | nil => exact (List.map_eq_nil_iff.mp hmaps.symm).symm
  | cons l ls ih =>
    cases ms with
    | nil => cases hmaps
    | cons m ms =>
      obtain ⟨hl, hls⟩ := List.forall_mem_cons.mp hl
      obtain ⟨hm, hms⟩ := List.forall_mem_cons.mp hm
      obtain ⟨hlm, hrest⟩ := List.cons.inj hmaps
      rw [leafField_unique hl hm hlm, ih hls hms hrest]

theorem leaves_cons (path : List String) (e : Key × Value) (rest : List (Key × Value)) :
    leaves path (e :: rest) = leaves.leavesOf (path ++ [e.1.text]) e.2 ++ leaves path rest := rfl

def under (path : List String) (l : List String × String) : List String × String := (path ++ l.1, l.2)

theorem leaves_path {es : List (Key × Value)}
    (h : ∀ e ∈ es, ∀ path, leaves.leavesOf path e.2 = (leaves.leavesOf [] e.2).map (under path))
    (path : List String) : leaves path es = (leaves [] es).map (under path) := by
  induction es with
  | nil => rfl
  | cons e rest ih =>
    obtain ⟨he, hrest⟩ := List.forall_mem_cons.mp h
    rw [leaves_cons, leaves_cons, he, he ([] ++ _), ih hrest, List.map_append, List.map_map]
    simp [under, Function.comp_def, List.append_assoc]

theorem leavesOf_path (v : Value) (path : List String) :
    leaves.leavesOf path v = (leaves.leavesOf [] v).map (under path) := by
  induction v generalizing path with
  | dict es ih => exact leaves_path ih path
  | list items | tuple items =>
    rw [leaves.leavesOf, leaves.leavesOf, leaves.members, leaves.members, List.map_map]
    rfl
  | null => rfl
  | _ =>
    rw [leaves.leavesOf, leaves.leavesOf, List.map_singleton, under, List.append_nil]
    all_goals nofun

theorem leaves_cons_named (name : String) (v : Value) (rest : List (Key × Value)) :
    leaves [] ((.str name, v) :: rest) =
      (leaves.leavesOf [] v).map (under [name]) ++ leaves [] rest := by
  rw [leaves_cons, leavesOf_path]
  rfl

theorem exists_name_of_leaf {es : List (Key × Value)} {l : List String × String}
    (h : l ∈ leaves [] es) : ∃ e ∈ es, l.1.head? = some e.1.text := by
  induction es with
  | nil => cases h
  | cons e rest ih =>
    rw [leaves_cons, leavesOf_path] at h
    rcases List.mem_append.mp h with h | h
    · obtain ⟨m, -, rfl⟩ := List.mem_map.mp h
      exact ⟨e, List.mem_cons_self, rfl⟩
    · obtain ⟨d, hd, hhead⟩ := ih h
      exact ⟨d, List.mem_cons_of_mem e hd, hhead⟩

theorem leaves_texts (ss : List String) :
    leaves.leavesOf [] (.list (ss.map .str)) = ss.map fun s => ([""], s) := by
  have hfilter : (ss.map Value.str).filter (fun v => v.kind ≠ .null) = ss.map .str := by
    rw [List.filter_eq_self]
    exact List.forall_mem_map.mpr fun s _ => rfl
  rw [leaves.leavesOf, leaves.members, hfilter, List.map_map]
  rfl

theorem leaves_ne_nil {v : Value} (h : v.IsDeep) : leaves.leavesOf [] v ≠ [] := by
  induction h with
  | text s => exact List.cons_ne_nil _ _
  | texts hne =>
    rw [leaves_texts]
    exact mt List.map_eq_nil_iff.mp hne
  | @mapping es hne hnames hd _ ih =>
    obtain ⟨e, rest, rfl⟩ := List.exists_cons_of_ne_nil hne
    show leaves [] (e :: rest) ≠ []
    rw [leaves_cons, leavesOf_path]
    intro hnil
    have hfirst := (List.append_eq_nil_iff.mp hnil).1
    exact ih e List.mem_cons_self (List.map_eq_nil_iff.mp hfirst)

theorem under_injective (path : List String) : Function.Injective (under path) := by
  intro l m h
  obtain ⟨hpath, htext⟩ := Prod.mk.inj h
  exact Prod.ext (List.append_cancel_left hpath) htext

/-- The leaves of one name end where those of another one begin. -/
theorem head_rest {name : String} {v : Value} {rest : Entries Key Value}
    (h : IsDeepObject ((.str name, v) :: rest)) :
    ∀ l ∈ (leaves [] rest).head?, ¬ l.1.head? = some name := by
  intro l hl hname
  obtain ⟨⟨k, w⟩, he, hhead⟩ := exists_name_of_leaf (List.mem_of_mem_head? hl)
  obtain ⟨other, hother⟩ := h.tail.names _ he
  cases hother
  rw [hname] at hhead
  obtain rfl : name = other := Option.some.inj hhead
  have hmem : Key.str name ∈ Entries.keys rest := List.mem_map_of_mem (f := Prod.fst) he
  exact (List.nodup_cons.mp h.distinct).1 hmem

theorem path_of_leaf {params : Entries Key Value} {l : List String × String}
    (h : l ∈ leaves [] params) : l.1 ≠ [] := by
  intro hnil
  obtain ⟨e, -, hhead⟩ := exists_name_of_leaf h
  rw [hnil] at hhead
  cases hhead

theorem exists_first_leaf {name : String} {v : Value} (hv : v.IsDeep) (rest : Entries Key Value) :
    ∃ l ls, leaves [] ((.str name, v) :: rest) = l :: ls ∧ l.1.head? = some name := by
  obtain ⟨l, ls, hl⟩ := List.exists_cons_of_ne_nil (leaves_ne_nil hv)
  refine ⟨under [name] l, ls.map (under [name]) ++ leaves [] rest, ?_, rfl⟩
  rw [leaves_cons_named, hl, List.map_cons, List.cons_append]

/-- Mappings with the same leaves have the same first name, the same leaves under it and the same ones
behind these. -/
theorem eq_of_leaves_eq {es fs : Entries Key Value} (hes : IsDeepObject es) (hfs : IsDeepObject fs)
    (ih : ∀ e ∈ es, ∀ w : Value, w.IsDeep → leaves.leavesOf [] e.2 = leaves.leavesOf [] w → e.2 = w)
    (h : leaves [] es = leaves [] fs) : es = fs := by
  induction es generalizing fs with
  | nil =>
    cases fs with
    | nil => rfl
    | cons f fs =>
      obtain ⟨t, w, rfl, hw⟩ := hfs.first
      obtain ⟨l, ls, hl, -⟩ := exists_first_leaf hw fs
      rw [hl] at h
      cases h
  | cons e es ihes =>
    obtain ⟨s, v, rfl, hv⟩ := hes.first
    obtain ⟨l, ls, hl, hls⟩ := exists_first_leaf hv es
    cases fs with
    | nil =>
      rw [hl] at h
      cases h
    | cons f fs =>
      obtain ⟨t, w, rfl, hw⟩ := hfs.first
      obtain ⟨m, ms, hm, hms⟩ := exists_first_leaf hw fs
      obtain rfl : s = t := by
        rw [hl, hm] at h
        rw [(List.cons.inj h).1, hms] at hls
        exact (Option.some.inj hls).symm
      have hrun : ∀ v : Value, ∀ l ∈ (leaves.leavesOf [] v).map (under [s]), l.1.head? = some s := by
        intro v
        exact List.forall_mem_map.mpr fun _ _ => rfl
      rw [leaves_cons_named, leaves_cons_named] at h
      obtain ⟨hvalue, hrest⟩ := run_unique (hrun v) (hrun w) (head_rest hes) (head_rest hfs) h
      have hvw := List.map_injective_iff.mpr (under_injective [s]) hvalue
      obtain ⟨ihv, ihrest⟩ := List.forall_mem_cons.mp ih
      obtain rfl : v = w := ihv w hw hvw
      rw [ihes hes.tail hfs.tail ihrest hrest]

def deepFragments (path : List String) : List (Key × Value) → List String
  | [] => []
  | (k, v) :: rest => below (path ++ [k.text]) v ++ deepFragments path rest
where
  below (path : List String) : Value → List String
    | .dict es => [joined "&" ((deepFragments path es).filter fun f => !f.isEmpty)]
    | v => (leaves.leavesOf path v).map leafField

theorem leafFields_ne_empty (ls : List (List String × String)) : ∀ f ∈ ls.map leafField, f ≠ "" :=
  List.forall_mem_map.mpr fun l _ => leafField_ne_empty l

theorem marked_deepFragments {path : List String} {es : List (Key × Value)}
    (h : ∀ e ∈ es, ∀ path,
      marked ((deepFragments.below path e.2).filter fun f => !f.isEmpty) =
        marked ((leaves.leavesOf path e.2).map leafField)) :
    marked ((deepFragments path es).filter fun f => !f.isEmpty) =
      marked ((leaves path es).map leafField) := by
  induction es with
  | nil => rfl
  | cons e rest ih =>
    obtain ⟨he, hrest⟩ := List.forall_mem_cons.mp h
    rw [deepFragments, leaves_cons, List.filter_append, List.map_append, marked_append, marked_append,
      he, ih hrest]

theorem marked_below (v : Value) (path : List String) :
    marked ((deepFragments.below path v).filter fun f => !f.isEmpty) =
      marked ((leaves.leavesOf path v).map leafField) := by
  induction v generalizing path with
  | dict es ih =>
    rw [deepFragments.below, joined_eq_of_marked (marked_deepFragments ih),
      marked_joined (leafFields_ne_empty _)]
    rfl
  | _ =>
    rw [deepFragments.below, filter_of_ne_empty (leafFields_ne_empty _)]
    all_goals nofun

/-- A mapping inside may as well be written by itself, and left out if it has no leaves. -/
theorem deepBelow_eq_fragments (path : List String) (params : Entries Key Value) :
    deepBelow path params =
      joined "&" ((deepFragments path params).filter fun f => !f.isEmpty) := by
  have hall : marked ((deepFragments path params).filter fun f => !f.isEmpty) =
      marked ((leaves path params).map leafField) := marked_deepFragments fun e _ => marked_below e.2
  exact (joined_eq_of_marked hall).symm

theorem head_of_text {s : String} {l : List String × String}
    (h : l ∈ leaves.leavesOf [] (.str s)) : l.1.head? = none := by
  rw [List.mem_singleton.mp h]
  rfl

theorem head_of_texts {ss : List String} {l : List String × String}
    (h : l ∈ leaves.leavesOf [] (.list (ss.map .str))) : l.1.head? = some "" := by
  rw [leaves_texts] at h
  obtain ⟨s, -, rfl⟩ := List.mem_map.mp h
  rfl

theorem head_of_mapping {es : Entries Key Value}
    (hnames : ∀ e ∈ es, ∃ name, name ≠ "" ∧ e.1 = .str name) {l : List String × String}
    (h : l ∈ leaves.leavesOf [] (.dict es)) : ∃ name, name ≠ "" ∧ l.1.head? = some name := by
  obtain ⟨e, he, hhead⟩ := exists_name_of_leaf h
  obtain ⟨name, hne, hname⟩ := hnames e he
  rw [hname] at hhead
  exact ⟨name, hne, hhead⟩

theorem isDeepObject_of_mapping {es : Entries Key Value}
    (hnames : ∀ e ∈ es, ∃ name, name ≠ "" ∧ e.1 = .str name) (hd : es.keys.Nodup)
    (h : ∀ e ∈ es, e.2.IsDeep) : IsDeepObject es where
  names e he := (hnames e he).imp fun _ hname => hname.2
  distinct := hd
  values := h

/-- What a path goes on with tells a text, a list and a mapping apart. -/
theorem eq_of_leavesOf_eq {v w : Value} (hv : v.IsDeep) (hw : w.IsDeep)
    (h : leaves.leavesOf [] v = leaves.leavesOf [] w) : v = w := by
  induction hv generalizing w with
  | text s =>
    have hl : ([], s) ∈ leaves.leavesOf [] w := by
      rw [← h]
      exact List.mem_singleton_self _
    cases hw with
    | text t =>
      obtain ⟨-, htext⟩ := Prod.mk.inj (List.singleton_inj.mp h)
      have hst : s = t := htext
      rw [hst]
    | texts _ => cases head_of_texts hl
    | mapping _ hnames _ _ =>
      obtain ⟨name, -, hname⟩ := head_of_mapping hnames hl
      cases hname
  | @texts ss hne =>
    obtain ⟨l, hl⟩ := List.exists_mem_of_ne_nil _ (leaves_ne_nil (.texts hne))
    have hhead := head_of_texts hl
    rw [h] at hl
    cases hw with
    | text t =>
      rw [head_of_text hl] at hhead
      cases hhead
    | texts _ =>
      rw [leaves_texts, leaves_texts] at h
      have hinjective : Function.Injective fun s : String => ([""], s) :=
        fun _ _ he => (Prod.mk.inj he).2
      rw [List.map_injective_iff.mpr hinjective h]
    | mapping _ hnames _ _ =>
      obtain ⟨name, hname, hother⟩ := head_of_mapping hnames hl
      rw [hother] at hhead
      exact absurd (Option.some.inj hhead) hname
  | @mapping es hne hnames hd hvalues ih =>
    obtain ⟨l, hl⟩ := List.exists_mem_of_ne_nil _ (leaves_ne_nil (.mapping hne hnames hd hvalues))
    obtain ⟨name, hname, hhead⟩ := head_of_mapping hnames hl
    rw [h] at hl
    cases hw with
    | text t =>
      rw [head_of_text hl] at hhead
      cases hhead
    | texts _ =>
      rw [head_of_texts hl] at hhead
      exact absurd (Option.some.inj hhead).symm hname
    | mapping _ hnames' hd' hvalues' =>
      have hes := isDeepObject_of_mapping hnames hd hvalues
      have hfs := isDeepObject_of_mapping hnames' hd' hvalues'
      have hentries := eq_of_leaves_eq hes hfs (fun e he _ hw heq => ih e he hw heq) h
      rw [hentries]

/-- A query string of nested names comes from one mapping only. -/
theorem eq_of_deep_eq {es fs : Entries Key Value} (hes : IsDeepObject es) (hfs : IsDeepObject fs)
    (h : deep es = deep fs) : es = fs := by
  apply eq_of_leaves_eq hes hfs
  · intro e he w hw
    exact eq_of_leavesOf_eq (hes.values e he) hw
  · exact leaves_unique (fun _ => path_of_leaf) (fun _ => path_of_leaf) h

def petFilter : Entries Key Value :=
  [(.str "", .str ""), (.str "ids", .list [.str "2", .str "x,y"]),
    (.str "f[g]", .dict [(.str "h]=1&", .str "a b"), (.str "i", .dict [(.str "j", .list [.str ""])])])]

/-- A name that is taken out and put in again gets its old place if it was the last one. -/
theorem eq_of_deep_eq_petFilter :
    let other := (petFilter.erase (.str "f[g]")).put (.str "f[g]")
      (.dict [(.str "h]=1&", .str "a b"), (.str "i", .dict [(.str "j", .list [.str ""])])])
    IsDeepObject petFilter ∧ IsDeepObject other ∧ deep petFilter = deep other ∧ petFilter = other := by
  intro other
  have hone : (Value.list ([""].map .str)).IsDeep := .texts (by decide)
  have htwo : (Value.list (["2", "x,y"].map .str)).IsDeep := .texts (by decide)
  have hinner : (Value.dict [(.str "j", .list [.str ""])]).IsDeep := by
    refine .mapping (by decide) ?_ (by simp [Entries.keys]) ?_
    · simp
    · simpa using hone
  have hvalue : (Value.dict [(.str "h]=1&", .str "a b"),
      (.str "i", .dict [(.str "j", .list [.str ""])])]).IsDeep := by
    refine .mapping (by decide) ?_ (by simp [Entries.keys]) ?_
    · simp
    · simpa using ⟨.text _, hinner⟩
  have hfilter : IsDeepObject petFilter := by
    refine ⟨by simp [petFilter], by simp [petFilter, Entries.keys], ?_⟩
    simpa [petFilter] using ⟨.text _, htwo, hvalue⟩
  have hother : IsDeepObject other := hfilter
  have h : deep petFilter = deep other := by decide +kernel
  exact ⟨hfilter, hother, h, eq_of_deep_eq hfilter hother h⟩

end Query

end OpenApi
