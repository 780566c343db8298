import OpenApi.Proofs.Codec.Aliases
import OpenApi.Proofs.Codec.Flat
import OpenApi.Proofs.Json.Quoted
import OpenApi.Proofs.Naming.Model
import OpenApi.Proofs.Text.Runs
/-! # The notation of codecs is read in one way

A notation is a word, and behind it what stands in brackets or the name of a model. Where no name of
a field holds what ends it, all literals are scalars, and models are known by their names, a notation
belongs to one codec only and ends at one place, whatever stands behind it. -/
namespace OpenApi

def Value.IsScalar (v : Value) : Prop := v.kind = .str ∨ v.kind = .int ∨ v.kind = .bool

/-- A name that ends before the colon or the question mark behind it, and is no closing bracket. -/
def Key.EndsBeforeMark (k : Key) : Prop :=
  ∃ s, k = .str s ∧ ∀ c ∈ s.toList, c ≠ ':' ∧ c ≠ '?' ∧ c ≠ '\x7d'

namespace Codec

/-- The names, the literals and the models in a codec have the properties given for them. Targets of
models are not looked into. -/
inductive Made (name : Key → Prop) (literal : Value → Prop) (known : Alias → Prop) : Codec → Prop where
  | unknown : Made name literal known .unknown
  | string : Made name literal known .string
  | number : Made name literal known .number
  | boolean : Made name literal known .boolean
  | null : Made name literal known .null
  | date : Made name literal known .date
  | exactly {v : Value} (h : literal v) : Made name literal known (.exactly v)
  | array {c : Codec} (h : Made name literal known c) : Made name literal known (.array c)
  | optional {c : Codec} (h : Made name literal known c) : Made name literal known (.optional c)
  | maybe {c : Codec} (h : Made name literal known c) : Made name literal known (.maybe c)
  | interface {fields : List (Key × Codec)} (hk : ∀ f ∈ fields, name f.1)
      (hf : ∀ f ∈ fields, Made name literal known f.2) : Made name literal known (.interface fields)
  | record {c : Codec} (h : Made name literal known c) : Made name literal known (.record c)
  | oneOf {members : List Codec} (h : ∀ c ∈ members, Made name literal known c) :
      Made name literal known (.oneOf members)
  | intersect {c d : Codec} (h : Made name literal known c) (k : Made name literal known d) :
      Made name literal known (.intersect c d)
  | model {name' ref : String} {target : Option Codec} (h : known ⟨name', ref, target⟩) :
      Made name literal known (.model name' ref target)

theorem Made.mono {name name' : Key → Prop} {literal : Value → Prop} {known known' : Alias → Prop}
    {c : Codec} (h : c.Made name literal known) (hname : ∀ k, name k → name' k)
    (hknown : ∀ a ∈ c.aliases, known' a) : c.Made name' literal known' := by
  induction h with
  | unknown => exact .unknown
  | string => exact .string
  | number => exact .number
  | boolean => exact .boolean
  | null => exact .null
  | date => exact .date
  | exactly h => exact .exactly h
  | array _ ih => exact .array (ih hknown)
  | optional _ ih => exact .optional (ih hknown)
  | maybe _ ih => exact .maybe (ih hknown)
  | interface hk _ ih =>
    exact .interface (fun f hf => hname f.1 (hk f hf))
      fun f hf => ih f hf (forall_inFields.mp hknown f hf)
  | record _ ih => exact .record (ih hknown)
  | oneOf _ ih => exact .oneOf fun c hc => ih c hc (forall_inMembers.mp hknown c hc)
  | intersect _ _ ihc ihd =>
    obtain ⟨hc, hd⟩ := List.forall_mem_append.mp hknown
    exact .intersect (ihc hc) (ihd hd)
  | model => exact .model (hknown _ List.mem_cons_self)

structure KnownByName (known : Alias → Prop) : Prop where
  wordlike : ∀ a, known a → Naming.Wordlike a.name.toList
  unique : ∀ a b, known a → known b → a.name = b.name → a = b

section Runs

/-- What stands behind a word does not go on with it. -/
def Stops (u : List Char) : Prop := ∀ c ∈ u.head?, Naming.isModelChar c = false

theorem stops_cons {c : Char} (h : Naming.isModelChar c = false) (u : List Char) :
    Stops (c :: u) := by
  intro d hd
  rw [← Option.some.inj hd]
  exact h

theorem wordlike_unique {a b u v : List Char} (ha : Naming.Wordlike a) (hb : Naming.Wordlike b)
    (hu : Stops u) (hv : Stops v) (h : a ++ u = b ++ v) : a = b ∧ u = v :=
  run_unique ha hb (fun c hc => Bool.eq_false_iff.mp (hu c hc))
    (fun c hc => Bool.eq_false_iff.mp (hv c hc)) h

end Runs

section Literals

theorem not_mem_digits {n : Nat} {c : Char} (hc : c.isDigit = false) :
    c ∉ (toString n).toList := by
  intro h
  rw [Nat.toString_eq_ofList_toDigits, String.toList_ofList] at h
  rw [Nat.isDigit_of_mem_toDigits (by decide) (by decide) h] at hc
  cases hc

theorem toString_int (n : Int) :
    toString n = if 0 ≤ n then toString n.toNat else "-" ++ toString (-n).toNat := Int.repr_eq_if

theorem not_mem_int {n : Int} {c : Char} (hc : c.isDigit = false) (hs : c ≠ '-') :
    c ∉ (toString n).toList := by
  rw [toString_int]
  split
  · exact not_mem_digits hc
  · intro h
    rw [String.toList_append] at h
    rcases List.mem_append.mp h with h | h
    · exact hs (List.mem_singleton.mp h)
    · exact not_mem_digits hc h

theorem toString_int_inj {m n : Int} (h : toString m = toString n) : m = n := by
  have hsign : ∀ (i : Nat) (j : Int), toString i ≠ "-" ++ toString (-j).toNat := by
    intro i j he
    have hmem : '-' ∈ ("-" ++ toString (-j).toNat).toList := by
      rw [String.toList_append]
      exact List.mem_append_left _ List.mem_cons_self
    rw [← he] at hmem
    exact not_mem_digits (by decide) hmem
  rw [toString_int, toString_int] at h
  split at h <;> split at h
  · have := Naming.toString_injective h
    omega
  · exact absurd h (hsign _ _)
  · exact absurd h.symm (hsign _ _)
  · have := Naming.toString_injective ((String.append_right_inj "-").mp h)
    omega

theorem literalSpelling_cases {v : Value} (hv : v.IsScalar) :
    (∃ s, v = .str s) ∨
      (v.kind ≠ .str ∧ '"' ∉ (literalSpelling v).toList ∧ ')' ∉ (literalSpelling v).toList) := by
  cases v with
  | str s => exact .inl ⟨s, rfl⟩
  | int n =>
    exact .inr ⟨nofun, not_mem_int (by decide) (by decide), not_mem_int (by decide) (by decide)⟩
  | bool b => cases b <;> exact .inr ⟨nofun, by decide, by decide⟩
  | _ => rcases hv with h | h | h <;> cases h

theorem literalSpelling_inj {v w : Value} (hv : v.IsScalar) (hw : w.IsScalar) (hvs : v.kind ≠ .str)
    (hws : w.kind ≠ .str) (h : literalSpelling v = literalSpelling w) : v = w := by
  have hbool : ∀ (b : Bool) (n : Int), literalSpelling (.bool b) ≠ literalSpelling (.int n) := by
    intro b n he
    have hmem : 'e' ∈ (literalSpelling (.bool b)).toList := by
      cases b <;> decide
    rw [he] at hmem
    exact not_mem_int (by decide) (by decide) hmem
  cases v with
  | str s => exact absurd rfl hvs
  | int n =>
    cases w with
    | str s => exact absurd rfl hws
    | int m => rw [toString_int_inj h]
    | bool b => exact absurd h.symm (hbool b n)
    | _ => rcases hw with h | h | h <;> cases h
  | bool b =>
    cases w with
    | str s => exact absurd rfl hws
    | int n => exact absurd h (hbool b n)
    | bool c => cases b <;> cases c <;> first | rfl | exact absurd h (by decide)
    | _ => rcases hw with h | h | h <;> cases h
  | _ => rcases hv with h | h | h <;> cases h

theorem quote_ne_bare {s : String} {w : Value} (hw : '"' ∉ (literalSpelling w).toList)
    {x y : List Char} :
    (literalSpelling (.str s)).toList ++ x ≠ (literalSpelling w).toList ++ ')' :: y := by
  intro h
  have hhead : (literalSpelling (.str s)).toList = '"' :: (s.toList.flatMap (Json.escapeChar true) ++
      ['"']) := by
    show (Json.quote true s).toList = _
    simp [Json.quote]
  rw [hhead, List.cons_append] at h
  cases htext : (literalSpelling w).toList with
  | nil =>
    rw [htext] at h
    cases h
  | cons c rest =>
    rw [htext, List.cons_append] at h
    rw [htext, ← (List.cons.inj h).1] at hw
    exact hw List.mem_cons_self

theorem literalSpelling_unique {v w : Value} (hv : v.IsScalar) (hw : w.IsScalar) {x y : List Char}
    (h : (literalSpelling v).toList ++ ')' :: x = (literalSpelling w).toList ++ ')' :: y) :
    v = w ∧ x = y := by
  rcases literalSpelling_cases hv with ⟨s, rfl⟩ | ⟨hvs, hvquote, hvclose⟩ <;>
    rcases literalSpelling_cases hw with ⟨t, rfl⟩ | ⟨hws, hwquote, hwclose⟩
  · obtain ⟨rfl, hxy⟩ := Json.quote_unique h
    exact ⟨rfl, (List.cons.inj hxy).2⟩
  · exact absurd h (quote_ne_bare hwquote)
  · exact absurd h.symm (quote_ne_bare hvquote)
  -- what is not quoted holds no bracket, so it ends at the first one
  · obtain ⟨htext, hxy⟩ := run_unique (p := (· ≠ ')')) (fun c hc he => hvclose (he ▸ hc))
      (fun c hc he => hwclose (he ▸ hc)) (by simp) (by simp) h
    exact ⟨literalSpelling_inj hv hw hvs hws (String.toList_inj.mp htext), (List.cons.inj hxy).2⟩

end Literals

section Parts

variable {α : Type} {S : α → Prop} {text : α → String}

/-- What begins with the text of `a` begins with no other text of the set, and goes on behind it. -/
def Told (S : α → Prop) (text : α → String) (a : α) : Prop :=
  ∀ b, S b → ∀ u v, Stops u → Stops v → (text a).toList ++ u = (text b).toList ++ v →
    a = b ∧ u = v

def following : List String → List Char
  | [] => []
  | p :: parts => ',' :: ' ' :: (joined ", " (p :: parts)).toList

theorem joined_cons (p : String) (parts : List String) :
    (joined ", " (p :: parts)).toList = p.toList ++ following parts := by
  cases parts with
  | nil => simp [joined, following]
  | cons q parts =>
    rw [joined, String.intercalate_cons_cons, String.toList_append, String.toList_append,
      List.append_assoc]
    rfl

theorem stops_following {close : Char} (hclose : Naming.isModelChar close = false)
    (parts : List String) (u : List Char) : Stops (following parts ++ close :: u) := by
  cases parts with
  | nil => exact stops_cons hclose u
  | cons p parts => exact stops_cons (by decide) _

/-- Parts between commas and a closing bracket are told from other parts, if each part is and none
begins with that bracket. -/
theorem parts_unique {close : Char} (hclose : Naming.isModelChar close = false) (hcomma : close ≠ ',')
    (hopen : ∀ a, S a → ∀ u v, (text a).toList ++ u ≠ close :: v) {l m : List α}
    (hl : ∀ a ∈ l, S a ∧ Told S text a) (hm : ∀ b ∈ m, S b) {u v : List Char}
    (h : (joined ", " (l.map text)).toList ++ close :: u =
      (joined ", " (m.map text)).toList ++ close :: v) : l = m ∧ u = v := by
  induction l generalizing m with
  | nil =>
    cases m with
    | nil => exact ⟨rfl, (List.cons.inj h).2⟩
    | cons b m =>
      rw [List.map_cons, joined_cons, List.append_assoc] at h
      exact absurd h.symm (hopen b (hm b List.mem_cons_self) _ _)
  | cons a l ih =>
    obtain ⟨⟨ha, htold⟩, hrestl⟩ := List.forall_mem_cons.mp hl
    rw [List.map_cons, joined_cons, List.append_assoc] at h
    cases m with
    | nil => exact absurd h (hopen a ha _ _)
    | cons b m =>
      obtain ⟨hb, hrestm⟩ := List.forall_mem_cons.mp hm
      rw [List.map_cons, joined_cons, List.append_assoc] at h
      -- after the first parts there is a comma or the bracket on both sides, so both lists go on or end
      obtain ⟨rfl, hrest⟩ := htold b hb _ _ (stops_following hclose _ u)
        (stops_following hclose _ v) h
      cases l with
      | nil =>
        cases m with
        | nil => exact ⟨rfl, (List.cons.inj hrest).2⟩
        | cons c m => exact absurd (List.cons.inj hrest).1 hcomma
      | cons d l =>
        cases m with
        | nil => exact absurd (List.cons.inj hrest).1.symm hcomma
        | cons c m =>
          obtain ⟨hlm, huv⟩ := ih hrestl hrestm (List.cons.inj (List.cons.inj hrest).2).2
          exact ⟨congrArg (a :: ·) hlm, huv⟩

end Parts

section Words

def word : Codec → String
  | unknown => "unknown"
  | string => "string"
  | number => "number"
  | boolean => "boolean"
  | null => "nullType"
  | date => "date"
  | exactly _ => "exactly"
  | array _ => "array"
  | optional _ => "optional"
  | maybe _ => "maybe"
  | interface _ => "interface"
  | record _ => "record"
  | oneOf _ => "oneOf"
  | intersect _ _ => "intersect"
  | model _ _ _ => "Models"

def arguments (u : List Char) : Codec → List Char
  | exactly v => '(' :: ((literalSpelling v).toList ++ ')' :: u)
  | array c | optional c | maybe c => '(' :: (c.spelling.toList ++ ')' :: u)
  | interface fields =>
    '(' :: '\x7b' :: ((joined ", " (fields.map fieldSpelling)).toList ++ '\x7d' :: ')' :: u)
  | record c => '(' :: ("string, ".toList ++ (c.spelling.toList ++ ')' :: u))
  | oneOf members =>
    '(' :: '[' :: ((joined ", " (members.map spelling)).toList ++ ']' :: ')' :: u)
  | intersect c d => '(' :: (c.spelling.toList ++ ',' :: ' ' :: (d.spelling.toList ++ ')' :: u))
  | model name _ _ => '.' :: (name.toList ++ u)
  | _ => u

theorem spelling_append (c : Codec) (u : List Char) :
    c.spelling.toList ++ u = c.word.toList ++ c.arguments u := by
  cases c with
  | unknown | string | number | boolean | null | date => rfl
  | exactly => simp [spelling_exactly, word, arguments]
  | array => simp [spelling_array, word, arguments]
  | optional => simp [spelling_optional, word, arguments]
  | maybe => simp [spelling_maybe, word, arguments]
  | interface => simp [spelling_interface, word, arguments]
  | record => simp [spelling_record, word, arguments]
  | oneOf => simp [spelling_oneOf, word, arguments]
  | intersect => simp [spelling_intersect, word, arguments]
  | model => simp [spelling_model, word, arguments]

theorem wordlike_word (c : Codec) : Naming.Wordlike c.word.toList := by
  have hall : ∀ s ∈ ["unknown", "string", "number", "boolean", "nullType", "date", "exactly", "array",
      "optional", "maybe", "interface", "record", "oneOf", "intersect", "Models"],
      s.toList.all Naming.isModelChar = true := by
    decide
  exact List.all_eq_true.mp (hall c.word (by cases c <;> simp [word]))

theorem spelling_ne_close {close : Char} (h : Naming.isModelChar close = false) (c : Codec)
    (u v : List Char) : c.spelling.toList ++ u ≠ close :: v := by
  rw [spelling_append]
  have hword := wordlike_word c
  cases hw : c.word.toList with
  | nil => cases c <;> simp [word] at hw
  | cons d rest =>
    rw [hw] at hword
    intro he
    rw [List.cons_append] at he
    rw [← (List.cons.inj he).1, hword d List.mem_cons_self] at h
    cases h

theorem stops_arguments {u : List Char} (hu : Stops u) (c : Codec) : Stops (c.arguments u) := by
  cases c with
  | unknown | string | number | boolean | null | date => exact hu
  | _ => exact stops_cons (by decide) _

theorem word_unique {c d : Codec} {u v : List Char} (hu : Stops u) (hv : Stops v)
    (h : c.spelling.toList ++ u = d.spelling.toList ++ v) :
    c.word = d.word ∧ c.arguments u = d.arguments v := by
  rw [spelling_append, spelling_append] at h
  obtain ⟨hword, hrest⟩ := wordlike_unique (wordlike_word c) (wordlike_word d)
    (stops_arguments hu c) (stops_arguments hv d) h
  exact ⟨String.toList_inj.mp hword, hrest⟩

end Words

section Unambiguous

variable {name : Key → Prop} {literal : Value → Prop} {known : Alias → Prop}

theorem fieldSpelling_append (f : Key × Codec) (u : List Char) :
    (fieldSpelling f).toList ++ u = f.1.text.toList ++
      ((if f.2.isRequired then [':', ' '] else ['?', ':', ' ']) ++ (f.2.present.spelling.toList ++ u)) := by
  obtain ⟨k, c⟩ := f
  cases c with
  | _ => simp [fieldSpelling, isRequired, present, String.toList_append]

theorem fieldSpelling_ne_close {f : Key × Codec} (hf : f.1.EndsBeforeMark) (u v : List Char) :
    (fieldSpelling f).toList ++ u ≠ '\x7d' :: v := by
  obtain ⟨k, c⟩ := f
  obtain ⟨s, rfl, hs⟩ := hf
  rw [fieldSpelling_append]
  show s.toList ++ _ ≠ _
  cases ht : s.toList with
  | nil => cases c.isRequired <;> simp
  | cons d rest =>
    rw [ht] at hs
    intro he
    exact (hs d List.mem_cons_self).2.2 (List.cons.inj he).1

theorem Made.present {c : Codec} (h : c.Made name literal known) :
    c.present.Made name literal known := by
  cases hreq : c.isRequired with
  | true => rwa [present_of_required hreq]
  | false =>
    cases h with
    | optional h => exact h
    | _ => cases hreq

theorem eq_of_present {c d : Codec} (hreq : c.isRequired = d.isRequired)
    (h : c.present = d.present) : c = d := by
  cases hc : c.isRequired with
  | true =>
    rw [← present_of_required hc, h, present_of_required (hreq.symm.trans hc)]
  | false =>
    have hd := hreq.symm.trans hc
    cases c with
    | optional c =>
      cases d with
      | optional d => exact congrArg optional h
      | _ => cases hd
    | _ => cases hc

/-- Codecs the notation of which is read in one way. -/
def Legible (known : Alias → Prop) : Codec → Prop := Made Key.EndsBeforeMark Value.IsScalar known

/-- Of a legible codec, what it says by itself. -/
def IsLegible (c : Codec) : Prop := c.Legible fun _ => True

def LegibleField (known : Alias → Prop) (f : Key × Codec) : Prop :=
  f.1.EndsBeforeMark ∧ f.2.Legible known

theorem told_field {f : Key × Codec} (hf : f.1.EndsBeforeMark)
    (h : Told (Legible known) spelling f.2.present) : Told (LegibleField known) fieldSpelling f := by
  intro g ⟨hg, hmade⟩ u v hu hv he
  obtain ⟨k, c⟩ := f
  obtain ⟨l, d⟩ := g
  obtain ⟨s, rfl, hs⟩ := hf
  obtain ⟨t, rfl, ht⟩ := hg
  rw [fieldSpelling_append, fieldSpelling_append] at he
  have hmark : ∀ (b : Bool) (w : List Char),
      ∀ x ∈ ((if b then [':', ' '] else ['?', ':', ' ']) ++ w).head?, ¬ (x ≠ ':' ∧ x ≠ '?') := by
    intro b w x hx
    cases b <;> simp at hx <;> simp [← hx]
  -- the names end at their marks, and the marks tell whether the fields are required
  obtain ⟨hname, hrest⟩ := run_unique (p := fun x => x ≠ ':' ∧ x ≠ '?')
    (fun x hx => ⟨(hs x hx).1, (hs x hx).2.1⟩) (fun x hx => ⟨(ht x hx).1, (ht x hx).2.1⟩)
    (hmark _ _) (hmark _ _) he
  obtain rfl := String.toList_inj.mp hname
  have hsame : c.isRequired = d.isRequired ∧
      c.present.spelling.toList ++ u = d.present.spelling.toList ++ v := by
    cases hc : c.isRequired <;> cases hd : d.isRequired <;>
      simp only [hc, hd] at hrest <;> simp at hrest ⊢
    · exact hrest
    · exact hrest
  obtain ⟨hpresent, huv⟩ := h d.present hmade.present u v hu hv hsame.2
  exact ⟨Prod.ext rfl (eq_of_present hsame.1 hpresent), huv⟩

theorem enclosed_unique {c d : Codec} {u v : List Char} (hc : Told (Legible known) spelling c)
    (hd : d.Legible known) (h : c.spelling.toList ++ ')' :: u = d.spelling.toList ++ ')' :: v) :
    c = d ∧ u = v := by
  obtain ⟨rfl, hrest⟩ := hc d hd _ _ (stops_cons (by decide) u) (stops_cons (by decide) v) h
  exact ⟨rfl, (List.cons.inj hrest).2⟩

theorem told_of_arguments {c : Codec}
    (h : ∀ d, d.Legible known → c.word = d.word → ∀ u v, Stops u → Stops v →
      c.arguments u = d.arguments v → c = d ∧ u = v) : Told (Legible known) spelling c := by
  intro d hd u v hu hv he
  obtain ⟨hword, hargs⟩ := word_unique hu hv he
  exact h d hd hword u v hu hv hargs

theorem told_optional {c : Codec} (h : Told (Legible known) spelling c) :
    Told (Legible known) spelling c.optional := by
  refine told_of_arguments fun d hd hword u v _ _ hargs => ?_
  cases hd with
  | optional hd =>
    obtain ⟨rfl, huv⟩ := enclosed_unique h hd (List.cons.inj hargs).2
    exact ⟨rfl, huv⟩
  | _ => simp [word] at hword

theorem told_of_present {c : Codec} (h : Told (Legible known) spelling c.present) :
    Told (Legible known) spelling c := by
  cases c with
  | optional c => exact told_optional h
  | _ => exact h

theorem told_present (hknown : KnownByName known) {c : Codec} (hc : c.Legible known) :
    Told (Legible known) spelling c.present := by
  -- a field is told by the codec under its mark, so the induction is about `present`
  induction hc with
  | optional _ ih => exact told_of_present ih
  | unknown | string | number | boolean | null | date =>
    refine told_of_arguments fun d hd hword u v _ _ hargs => ?_
    cases hd <;> first | exact ⟨rfl, hargs⟩ | simp [present, word] at hword
  | exactly hl =>
    refine told_of_arguments fun d hd hword u v _ _ hargs => ?_
    cases hd with
    | exactly hm =>
      obtain ⟨rfl, huv⟩ := literalSpelling_unique hl hm (List.cons.inj hargs).2
      exact ⟨rfl, huv⟩
    | _ => simp [present, word] at hword
  | array _ ih =>
    refine told_of_arguments fun d hd hword u v _ _ hargs => ?_
    cases hd with
    | array hd =>
      obtain ⟨rfl, huv⟩ := enclosed_unique (told_of_present ih) hd (List.cons.inj hargs).2
      exact ⟨rfl, huv⟩
    | _ => simp [present, word] at hword
  | maybe _ ih =>
    refine told_of_arguments fun d hd hword u v _ _ hargs => ?_
    cases hd with
    | maybe hd =>
      obtain ⟨rfl, huv⟩ := enclosed_unique (told_of_present ih) hd (List.cons.inj hargs).2
      exact ⟨rfl, huv⟩
    | _ => simp [present, word] at hword
  | record _ ih =>
    refine told_of_arguments fun d hd hword u v _ _ hargs => ?_
    cases hd with
    | record hd =>
      obtain ⟨rfl, huv⟩ := enclosed_unique (told_of_present ih) hd
        (List.append_cancel_left (List.cons.inj hargs).2)
      exact ⟨rfl, huv⟩
    | _ => simp [present, word] at hword
  | intersect _ _ ihl ihr =>
    refine told_of_arguments fun d hd hword u v _ _ hargs => ?_
    cases hd with
    | intersect hl hr =>
      obtain ⟨rfl, hright⟩ := told_of_present ihl _ hl _ _ (stops_cons (by decide) _)
        (stops_cons (by decide) _) (List.cons.inj hargs).2
      obtain ⟨rfl, huv⟩ := enclosed_unique (told_of_present ihr) hr
        (List.cons.inj (List.cons.inj hright).2).2
      exact ⟨rfl, huv⟩
    | _ => simp [present, word] at hword
  | oneOf hc ih =>
    refine told_of_arguments fun d hd hword u v _ _ hargs => ?_
    cases hd with
    | oneOf hd =>
      obtain ⟨rfl, hrest⟩ := parts_unique (by decide) (by decide)
        (fun a _ => spelling_ne_close (by decide) a)
        (fun a ha => ⟨hc a ha, told_of_present (ih a ha)⟩) hd
        (List.cons.inj (List.cons.inj hargs).2).2
      exact ⟨rfl, (List.cons.inj hrest).2⟩
    | _ => simp [present, word] at hword
  | interface hk hf ih =>
    refine told_of_arguments fun d hd hword u v _ _ hargs => ?_
    cases hd with
    | interface hl hg =>
      obtain ⟨rfl, hrest⟩ := parts_unique (by decide) (by decide)
        (fun f hmade => fieldSpelling_ne_close hmade.1)
        (fun f hmem => ⟨⟨hk f hmem, hf f hmem⟩, told_field (hk f hmem) (ih f hmem)⟩)
        (fun g hmem => ⟨hl g hmem, hg g hmem⟩) (List.cons.inj (List.cons.inj hargs).2).2
      exact ⟨rfl, (List.cons.inj hrest).2⟩
    | _ => simp [present, word] at hword
  | model ha =>
    refine told_of_arguments fun d hd hword u v hu hv hargs => ?_
    cases hd with
    | model hb =>
      obtain ⟨hname, huv⟩ := wordlike_unique (hknown.wordlike _ ha) (hknown.wordlike _ hb) hu hv
        (List.cons.inj hargs).2
      have heq := hknown.unique _ _ ha hb (String.toList_inj.mp hname)
      cases heq
      exact ⟨rfl, huv⟩
    | _ => simp [present, word] at hword

theorem eq_of_spelling_eq (hknown : KnownByName known) {c d : Codec} (hc : c.Legible known)
    (hd : d.Legible known) (h : c.spelling = d.spelling) : c = d :=
  (told_of_present (told_present hknown hc) d hd [] [] nofun nofun (by rw [h])).1

theorem eq_of_describe_eq (hknown : KnownByName known) {c d : Codec} (hc : c.Legible known)
    (hd : d.Legible known) {text : String} (h : c.describe = .ok text)
    (k : d.describe = .ok text) : c = d :=
  eq_of_spelling_eq hknown hc hd ((spelling_of_describe h).trans (spelling_of_describe k).symm)

end Unambiguous

end Codec

end OpenApi
