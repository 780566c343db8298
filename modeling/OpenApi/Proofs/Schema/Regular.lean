import OpenApi.Proofs.Schema.Closed
/-! # Regular schemas

In the schema of a node, only a property can be optional, and properties under equal keys are
required together. What holds of the codecs of references and is kept by the ways in which regular
schemas put codecs together holds of the codec of every node. -/
namespace OpenApi

def Uniform {α : Type} (required : α → Bool) (fields : List (Key × α)) : Prop :=
  ∀ f ∈ fields, ∀ g ∈ fields, f.1 == g.1 → required f.2 = required g.2

def Codec.present : Codec → Codec
  | optional c => c
  | c => c

theorem Codec.present_of_required {c : Codec} (h : c.isRequired = true) : c.present = c := by
  cases c with
  | optional c => cases h
  | _ => rfl

/-- A property of codecs that is kept by the ways in which regular schemas put codecs together. -/
structure Codec.Closed (P : Codec → Prop) : Prop where
  required : ∀ {c}, P c → c.isRequired = true
  unknown : P .unknown
  string : P .string
  number : P .number
  boolean : P .boolean
  null : P .null
  date : P .date
  exactly : ∀ {v : Value}, v.kind ≠ .null → P (.exactly v)
  array : ∀ {c}, P c → P (.array c)
  maybe : ∀ {c}, P c → P (.maybe c)
  interface : ∀ {fields : List (Key × Codec)}, (∀ f ∈ fields, P f.2.present) →
    Uniform Codec.isRequired fields → P (.interface fields)
  record : ∀ {c}, P c → P (.record c)
  oneOf : ∀ {members : List Codec}, (∀ c ∈ members, P c) → P (.oneOf members)
  intersect : ∀ {c d}, P c → P d → P (.intersect c d)

namespace Schema

def isRequired : Schema → Bool
  | optional _ => false
  | _ => true

def present : Schema → Schema
  | optional s => s
  | s => s

inductive Regular : Schema → Prop where
  | any : Regular .any
  | malformed : Regular .malformed
  | ref (pointer : String) : Regular (.ref pointer)
  | nullable {s : Schema} (h : Regular s) : Regular (.nullable s)
  | union {members : List Schema} (h : ∀ s ∈ members, Regular s) : Regular (.union members)
  | intersection {members : List Schema} (h : ∀ s ∈ members, Regular s) :
      Regular (.intersection members)
  | array {item : Schema} (h : Regular item) : Regular (.array item)
  | object {fields : List (Key × Schema)} {additional : Option Schema}
      (hf : ∀ f ∈ fields, Regular f.2.present) (hu : Uniform isRequired fields)
      (ha : ∀ s, additional = some s → Regular s) : Regular (.object fields additional)
  | enumeration (literals : List Value) : Regular (.enumeration literals)
  | string : Regular .string
  | number : Regular .number
  | boolean : Regular .boolean
  | null : Regular .null
  | date : Regular .date

theorem Regular.present_eq {s : Schema} (h : s.Regular) : s.present = s := by
  cases h <;> rfl

theorem Regular.isRequired_eq {s : Schema} (h : s.Regular) : s.isRequired = true := by
  cases h <;> rfl

theorem contains_congr {required : List Key} {k l : Key} (h : k == l) :
    required.contains k = required.contains l := by
  rw [Bool.eq_iff_iff, List.contains_iff_exists_mem_beq, List.contains_iff_exists_mem_beq]
  constructor
  · rintro ⟨r, hr, hk⟩
    exact ⟨r, hr, BEq.trans (BEq.symm h) hk⟩
  · rintro ⟨r, hr, hl⟩
    exact ⟨r, hr, BEq.trans h hl⟩

theorem regular_marked {fields : List (Key × Schema)} (h : ∀ e ∈ fields, e.2.Regular)
    (required : List Key) {additional : Option Schema}
    (ha : ∀ s, additional = some s → s.Regular) :
    (object (marked required fields) additional).Regular := by
  have hreq : ∀ f ∈ fields, (if required.contains f.1 then f else (f.1, optional f.2)).2.isRequired =
      required.contains f.1 := by
    intro f hf
    by_cases hk : required.contains f.1 = true
    · rw [if_pos hk, (h f hf).isRequired_eq, hk]
    · rw [if_neg hk, Bool.eq_false_iff.mpr hk]
      rfl
  refine .object ?_ ?_ ha
  · intro e he
    obtain ⟨f, hf, rfl⟩ := List.mem_map.mp he
    by_cases hk : required.contains f.1 = true
    · rw [if_pos hk, (h f hf).present_eq]
      exact h f hf
    · rw [if_neg hk]
      exact h f hf
  · intro e he e' he' hkeys
    obtain ⟨f, hf, rfl⟩ := List.mem_map.mp he
    obtain ⟨g, hg, rfl⟩ := List.mem_map.mp he'
    have hkey : ∀ d : Key × Schema,
        (if required.contains d.1 then d else (d.1, optional d.2)).1 = d.1 := by
      intro d
      split <;> rfl
    rw [hkey, hkey] at hkeys
    rw [hreq f hf, hreq g hg, contains_congr hkeys]

theorem closed_regular : Closed Regular where
  any := .any
  malformed := .malformed
  nullable := .nullable
  union := .union
  intersection := .intersection
  array := .array
  object required hf ha := regular_marked hf required ha
  enumeration := .enumeration
  typed type format := by
    unfold typed
    repeat' split
    all_goals constructor

theorem regular_ofValue (v : Value) : (ofValue v).Regular :=
  closed_regular.ofValue v fun r _ => .ref r

section Compiled

variable {P : Codec → Prop} {f : String → Except Fault Codec} {c : Codec}

def givenLiterals (literals : List Value) : List Value := literals.filter fun v => v.kind ≠ .null

theorem kind_of_mem_givenLiterals {literals : List Value} {v : Value}
    (h : v ∈ givenLiterals literals) : v.kind ≠ .null := by
  simpa using (List.mem_filter.mp h).2

/-- Of several literals one is accepted, and a single one stands for itself. -/
def choice : List Value → Codec
  | [v] => .exactly v
  | vs => .oneOf (vs.map Codec.exactly)

theorem enumerationCodec_cases {literals : List Value} (hc : enumerationCodec literals = .ok c) :
    (c = .null ∧ givenLiterals literals = []) ∨
    (givenLiterals literals ≠ [] ∧
      ((c = .maybe (choice (givenLiterals literals)) ∧
          (givenLiterals literals).length ≠ literals.length) ∨
        (c = choice (givenLiterals literals) ∧
          (givenLiterals literals).length = literals.length))) := by
  dsimp only [enumerationCodec] at hc
  rw [← givenLiterals] at hc
  cases hn : (givenLiterals literals).length != literals.length with
  | true =>
    have hlen : (givenLiterals literals).length ≠ literals.length := bne_iff_ne.mp hn
    rw [hn] at hc
    generalize givenLiterals literals = given at hc hlen
    match given with
    | [] => cases hc; exact Or.inl ⟨rfl, rfl⟩
    | [v] => cases hc; exact Or.inr ⟨nofun, Or.inl ⟨rfl, hlen⟩⟩
    | v :: w :: rest => cases hc; exact Or.inr ⟨nofun, Or.inl ⟨rfl, hlen⟩⟩
  | false =>
    have hlen : (givenLiterals literals).length = literals.length := by simpa using hn
    rw [hn] at hc
    generalize givenLiterals literals = given at hc hlen
    match given with
    | [] => cases hc
    | [v] => cases hc; exact Or.inr ⟨nofun, Or.inr ⟨rfl, hlen⟩⟩
    | v :: w :: rest => cases hc; exact Or.inr ⟨nofun, Or.inr ⟨rfl, hlen⟩⟩

theorem choice_closed (hP : Codec.Closed P) {vs : List Value} (hvs : ∀ v ∈ vs, v.kind ≠ .null) :
    P (choice vs) := by
  have hall : ∀ d ∈ vs.map Codec.exactly, P d := by
    intro d hd
    obtain ⟨v, hv, rfl⟩ := List.mem_map.mp hd
    exact hP.exactly (hvs v hv)
  match vs with
  | [v] => exact hall _ List.mem_cons_self
  | [] => exact hP.oneOf hall
  | v :: w :: rest => exact hP.oneOf hall

theorem enumerationCodec_closed (hP : Codec.Closed P) {literals : List Value}
    (hc : enumerationCodec literals = .ok c) : P c := by
  have hchoice := choice_closed hP fun _ => @kind_of_mem_givenLiterals literals _
  rcases enumerationCodec_cases hc with ⟨rfl, -⟩ | ⟨-, ⟨rfl, -⟩ | ⟨rfl, -⟩⟩
  · exact hP.null
  · exact hP.maybe hchoice
  · exact hchoice

theorem intersectionCodec_closed (hP : Codec.Closed P) {cs : List Codec} (hcs : ∀ d ∈ cs, P d)
    (hc : intersectionCodec cs = .ok c) : P c := by
  cases cs with
  | nil => cases hc
  | cons d rest =>
    cases hc
    obtain ⟨hd, hrest⟩ := List.forall_mem_cons.mp hcs
    induction rest generalizing d with
    | nil => exact hd
    | cons e rest ih =>
      obtain ⟨he, hrest⟩ := List.forall_mem_cons.mp hrest
      have hde := hP.intersect hd he
      exact ih (d.intersect e) (List.forall_mem_cons.mpr ⟨hde, hrest⟩) hde hrest

theorem objectCodec_closed (hP : Codec.Closed P) {fields : List (Key × Codec)}
    {additional : Option Codec} (hf : P (.interface fields)) (ha : ∀ d, additional = some d → P d) :
    P (objectCodec fields additional) := by
  cases additional with
  | none => exact hf
  | some d =>
    have hd := hP.record (ha d rfl)
    cases fields with
    | nil => exact hd
    | cons e rest => exact hP.intersect hf hd

theorem compile_present {s : Schema} (h : s.present.Regular)
    (hs : ∀ d, s.present.compile f = .ok d → d.isRequired = true) (hc : s.compile f = .ok c) :
    s.present.compile f = .ok c.present ∧ c.isRequired = s.isRequired := by
  by_cases hopt : s.isRequired = true
  · have hp : s.present = s := by
      cases s with
      | optional s => cases hopt
      | _ => rfl
    rw [hp] at hs ⊢
    have hreq := hs c hc
    rw [Codec.present_of_required hreq, hreq, hopt]
    exact ⟨hc, rfl⟩
  · cases s with
    | optional s =>
      obtain ⟨b, hb, he⟩ := bind_eq_ok.mp hc
      cases he
      exact ⟨hb, rfl⟩
    | _ => exact absurd rfl hopt

theorem compileAll_closed {members : List Schema} {cs : List Codec}
    (h : ∀ s ∈ members, ∀ c, s.compile f = .ok c → P c)
    (hcs : compile.compileAll f members = .ok cs) : ∀ c ∈ cs, P c := by
  rw [compileAll_eq_ok] at hcs
  induction hcs with
  | nil => exact nofun
  | cons hc _ ih =>
    obtain ⟨hs, hrest⟩ := List.forall_mem_cons.mp h
    exact List.forall_mem_cons.mpr ⟨hs _ hc, ih hrest⟩

theorem compileFields_closed (hP : Codec.Closed P) {fields : List (Key × Schema)}
    {cs : List (Key × Codec)} (hf : ∀ e ∈ fields, e.2.present.Regular)
    (h : ∀ e ∈ fields, ∀ c, e.2.present.compile f = .ok c → P c)
    (hcs : compile.compileFields f fields = .ok cs) :
    List.Forall₂ (fun e c => e.1 = c.1 ∧ P c.2.present ∧ c.2.isRequired = e.2.isRequired)
      fields cs := by
  rw [compileFields_eq_ok] at hcs
  induction hcs with
  | nil => exact .nil
  | cons hc _ ih =>
    obtain ⟨hs, hrest⟩ := List.forall_mem_cons.mp h
    obtain ⟨hreg, hregs⟩ := List.forall_mem_cons.mp hf
    obtain ⟨hp, hreq⟩ := compile_present hreg (fun d hd => hP.required (hs d hd)) hc.2
    exact .cons ⟨hc.1, hs _ hp, hreq⟩ (ih hregs hrest)

theorem uniform_of_forall₂ {fields : List (Key × Schema)} {cs : List (Key × Codec)}
    (h : List.Forall₂ (fun e c => e.1 = c.1 ∧ P c.2.present ∧ c.2.isRequired = e.2.isRequired)
      fields cs)
    (hu : Uniform isRequired fields) : Uniform Codec.isRequired cs := by
  intro c hc d hd hkeys
  obtain ⟨e, he, hec, -, hce⟩ := (partners h).2 c hc
  obtain ⟨g, hg, hgd, -, hdg⟩ := (partners h).2 d hd
  rw [hce, hdg]
  apply hu e he g hg
  rwa [hec, hgd]

theorem interface_closed (hP : Codec.Closed P) {fields : List (Key × Schema)}
    {cs : List (Key × Codec)} (hf : ∀ e ∈ fields, e.2.present.Regular)
    (hu : Uniform isRequired fields)
    (h : ∀ e ∈ fields, ∀ c, e.2.present.compile f = .ok c → P c)
    (hcs : compile.compileFields f fields = .ok cs) : P (.interface cs) := by
  have hall := compileFields_closed hP hf h hcs
  refine hP.interface (fun c hc => ?_) (uniform_of_forall₂ hall hu)
  obtain ⟨-, -, -, hp, -⟩ := (partners hall).2 c hc
  exact hp

theorem refs_present (s : Schema) : s.present.refs = s.refs := by
  cases s <;> rfl

/-- What holds of the codecs of the references holds of the codec of a regular schema. -/
theorem compile_closed (hP : Codec.Closed P) {s : Schema} (hs : s.Regular)
    (hm : ∀ r ∈ s.refs, ∀ c, f r = .ok c → P c) (hc : s.compile f = .ok c) : P c := by
  induction hs generalizing c with
  | any | string | number | boolean | null | date =>
    cases hc
    first
      | exact hP.unknown
      | exact hP.string
      | exact hP.number
      | exact hP.boolean
      | exact hP.null
      | exact hP.date
  | malformed => cases hc
  | ref p => exact hm p (List.mem_singleton_self p) c hc
  | nullable h ih =>
    obtain ⟨b, hb, he⟩ := bind_eq_ok.mp hc
    cases he
    exact hP.maybe (ih hm hb)
  | array h ih =>
    obtain ⟨b, hb, he⟩ := bind_eq_ok.mp hc
    cases he
    exact hP.array (ih hm hb)
  | union h ih =>
    obtain ⟨cs, hcs, he⟩ := bind_eq_ok.mp hc
    cases he
    exact hP.oneOf (compileAll_closed
      (fun s hs c hc => ih s hs (fun r hr => hm r (mem_all_refs hs hr)) hc) hcs)
  | intersection h ih =>
    obtain ⟨cs, hcs, he⟩ := bind_eq_ok.mp hc
    have hall := compileAll_closed
      (fun s hs c hc => ih s hs (fun r hr => hm r (mem_all_refs hs hr)) hc) hcs
    exact intersectionCodec_closed hP hall (ofExcept_eq_ok.mp he)
  | enumeration literals => exact enumerationCodec_closed hP (ofExcept_eq_ok.mp hc)
  | @object fields additional hf hu ha ihf iha =>
    cases additional with
    | none =>
      obtain ⟨cs, hcs, he⟩ := bind_eq_ok.mp hc
      cases he
      refine objectCodec_closed hP (interface_closed hP hf hu (fun e hmem c => ?_) hcs) nofun
      refine ihf e hmem fun r hr => hm r (mem_field_refs hmem ?_)
      rwa [← refs_present]
    | some s =>
      obtain ⟨cs, hcs, hmore⟩ := bind_eq_ok.mp hc
      obtain ⟨b, hb, he⟩ := bind_eq_ok.mp hmore
      cases he
      have hb := iha s rfl (fun r hr => hm r (List.mem_append_right _ hr)) hb
      refine objectCodec_closed hP (interface_closed hP hf hu (fun e hmem c => ?_) hcs)
        fun d hd => Option.some.inj hd ▸ hb
      refine ihf e hmem fun r hr => hm r (List.mem_append_left _ (mem_field_refs hmem ?_))
      rwa [← refs_present]

end Compiled

end Schema

end OpenApi
