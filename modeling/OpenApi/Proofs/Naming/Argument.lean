import OpenApi.Naming.Argument
import OpenApi.Proofs.Entries
import OpenApi.Proofs.Text.Utf8
import Mathlib.Data.List.Nodup
/-! # Arguments keep names apart

Every name of a parameter has an argument of letters and digits of ASCII, and different names have
different ones. They stay apart where arguments are spelled for a signature, and there none of them
is an argument that every operation has. -/
namespace OpenApi.Naming

def Alphanumeric (cs : List Char) : Prop := ∀ c ∈ cs, c.isAlphanum = true

theorem letterCase_of_isAlphanum {c : Char} (h : c.isAlphanum = true) :
    c.toLower.isAlphanum = true ∧ c.toUpper.isAlphanum = true := by
  revert h
  apply Text.forall_isAlphanum
  decide +kernel

theorem addLetter_of_other {c : Char} (h : c.isAlphanum = false) (ws : List (List Char)) :
    addLetter c ws = [] :: ws := by
  cases ws with
  | nil => simp [addLetter, h]
  | cons w ws => simp [addLetter, h]

theorem addLetter_of_alphanumeric {c : Char} (h : c.isAlphanum = true) (ws : List (List Char)) :
    addLetter c ws =
      if joins c (ws.headD []) then (c :: ws.headD []) :: ws.tail else [c] :: ws := by
  cases ws with
  | nil => simp [addLetter, joins, h]
  | cons w ws => simp [addLetter, h]

theorem flatten_addLetter (c : Char) (ws : List (List Char)) :
    (addLetter c ws).flatten = [c].filter Char.isAlphanum ++ ws.flatten := by
  cases h : c.isAlphanum with
  | true =>
    rw [addLetter_of_alphanumeric h]
    cases ws with
    | nil => simp [joins, h]
    | cons w ws => split <;> simp [h]
  | false => simp [addLetter_of_other h, h]

/-- No letter or digit is lost, doubled or moved when a text is cut into words. -/
theorem flatten_words (cs : List Char) : (words cs).flatten = cs.filter Char.isAlphanum := by
  rw [words, List.flatten_filter_not_isEmpty]
  induction cs with
  | nil => rfl
  | cons c cs ih =>
    rw [List.foldr_cons, flatten_addLetter, ih, ← List.filter_append]
    rfl

theorem alphanumeric_words (cs : List Char) : ∀ w ∈ words cs, Alphanumeric w := by
  intro w hw c hc
  have hmem : c ∈ (words cs).flatten := List.mem_flatten_of_mem hw hc
  rw [flatten_words] at hmem
  exact (List.mem_filter.1 hmem).2

theorem alphanumeric_small {w : List Char} (h : Alphanumeric w) : Alphanumeric (small w) := by
  intro c hc
  obtain ⟨d, hd, rfl⟩ := List.mem_map.1 hc
  exact (letterCase_of_isAlphanum (h d hd)).1

theorem alphanumeric_capitalised {w : List Char} (h : Alphanumeric w) :
    Alphanumeric (capitalised w) := by
  cases w with
  | nil => exact h
  | cons c w =>
    obtain ⟨hc, hw⟩ := List.forall_mem_cons.1 h
    exact List.forall_mem_cons.2 ⟨(letterCase_of_isAlphanum hc).2, alphanumeric_small hw⟩

theorem alphanumeric_camelCase (s : String) : Alphanumeric (camelCase s).toList := by
  have hw := alphanumeric_words s.toList
  rw [camelCase, String.toList_ofList]
  generalize words s.toList = ws at hw ⊢
  cases ws with
  | nil => simp [camelLetters, Alphanumeric]
  | cons w ws =>
    intro c hc
    rcases List.mem_append.1 hc with hc | hc
    · exact alphanumeric_small (hw w List.mem_cons_self) c hc
    · obtain ⟨t, ht, hc⟩ := List.mem_flatten.1 hc
      obtain ⟨v, hv, rfl⟩ := List.mem_map.1 ht
      exact alphanumeric_capitalised (hw v (List.mem_cons_of_mem _ hv)) c hc

theorem toString_injective {m n : Nat} (h : toString m = toString n) : m = n := by
  have hd : Nat.toDigits 10 m = Nat.toDigits 10 n := by
    rw [Nat.toString_eq_ofList_toDigits, Nat.toString_eq_ofList_toDigits] at h
    simpa only [String.ofList_inj] using h
  rw [← @Nat.ofDigitChars_ten_toDigits m, hd, Nat.ofDigitChars_ten_toDigits]

theorem exists_new_candidate (taken : List String) (name : String) :
    ∃ k < taken.length + 1, name ++ toString (k + 2) ∉ taken := by
  by_contra hall
  push Not at hall
  -- one candidate more than there are names that are taken
  have hn : ((List.range (taken.length + 1)).map fun k => name ++ toString (k + 2)).Nodup := by
    apply List.Nodup.map_on _ List.nodup_range
    intro j _ k _ hjk
    have := toString_injective ((String.append_right_inj name).1 hjk)
    omega
  have hs : ((List.range (taken.length + 1)).map fun k => name ++ toString (k + 2)) ⊆ taken := by
    intro s hm
    obtain ⟨k, hk, rfl⟩ := List.mem_map.1 hm
    exact hall k (List.mem_range.1 hk)
  have hl := (List.subperm_of_subset hn hs).length_le
  rw [List.length_map, List.length_range] at hl
  omega

theorem fresh_cases (taken : List String) (name : String) :
    (name ∉ taken ∧ fresh taken name = name) ∨
      ∃ k, fresh taken name = name ++ toString (k + 2) ∧ name ++ toString (k + 2) ∉ taken ∧
        name ∈ taken ∧ ∀ j < k, name ++ toString (j + 2) ∈ taken := by
  unfold fresh
  by_cases h : taken.contains name
  · rw [if_pos h, List.find?_map]
    cases hf : (List.range (taken.length + 1)).find?
        ((fun candidate => !taken.contains candidate) ∘ fun k => name ++ toString (k + 2)) with
    | some k =>
      obtain ⟨hnew, -, hleast⟩ := List.find?_range_eq_some.mp hf
      exact .inr ⟨k, rfl, by simpa using hnew, by simpa using h, by simpa using hleast⟩
    | none =>
      obtain ⟨k, hk, hnew⟩ := exists_new_candidate taken name
      have := List.find?_eq_none.mp hf k (List.mem_range.mpr hk)
      exact absurd (by simpa using this) hnew
  · rw [if_neg h]
    exact .inl ⟨by simpa using h, rfl⟩

theorem fresh_not_mem (taken : List String) (name : String) : fresh taken name ∉ taken := by
  rcases fresh_cases taken name with ⟨hnew, he⟩ | ⟨k, he, hnew, -⟩
  · rwa [he]
  · rwa [he]

theorem alphanumeric_fresh {taken : List String} {name : String} (h : Alphanumeric name.toList) :
    Alphanumeric (fresh taken name).toList := by
  rcases fresh_cases taken name with ⟨-, he⟩ | ⟨k, he, -, -⟩
  · rwa [he]
  · rw [he, String.toList_append, Nat.toString_eq_ofList_toDigits, String.toList_ofList]
    intro c hc
    rcases List.mem_append.1 hc with hc | hc
    · exact h c hc
    · have hd := Nat.isDigit_of_mem_toDigits (by decide) (by decide) hc
      simp [Char.isAlphanum, hd]

/-- What holds of the arguments at every point where some names have chosen theirs. -/
structure Apart (assigned : Entries String String) : Prop where
  names : assigned.keys.Nodup
  arguments : assigned.values.Nodup
  alphanumeric : ∀ a ∈ assigned.values, Alphanumeric a.toList

theorem assign_of_has {assigned : Entries String String} {name : String}
    (h : name ∈ assigned.keys) : assign assigned name = assigned := by
  rw [assign, if_pos (Entries.has_iff.2 h)]

theorem assign_of_new {assigned : Entries String String} {name : String}
    (h : name ∉ assigned.keys) : ∃ argument, Alphanumeric argument.toList ∧
      assign assigned name = assigned ++ [(name, fresh assigned.values argument)] := by
  have hh : ¬ assigned.has name = true := fun hh => h (Entries.has_iff.1 hh)
  rw [assign, if_neg hh]
  refine ⟨_, ?_, rfl⟩
  split
  · exact alphanumeric_camelCase name
  · exact alphanumeric_camelCase _

theorem Apart.assign {assigned : Entries String String} (h : Apart assigned) (name : String) :
    Apart (assign assigned name) := by
  by_cases hm : name ∈ assigned.keys
  · rwa [assign_of_has hm]
  · obtain ⟨argument, ha, he⟩ := assign_of_new hm
    have hv : (Naming.assign assigned name).values =
        assigned.values ++ [fresh assigned.values argument] := by
      simp [he, Entries.values]
    constructor
    · rw [he, Entries.keys_append]
      exact List.nodup_append.2 ⟨h.names, by simp, by
        rintro n hn _ hn' rfl
        have he : n = name := by simpa using hn'
        exact hm (he ▸ hn)⟩
    · rw [hv]
      exact List.nodup_append.2 ⟨h.arguments, by simp, by
        rintro a hm _ ha rfl
        exact fresh_not_mem _ _ (List.mem_singleton.1 ha ▸ hm)⟩
    · rw [hv]
      intro a hm
      rcases List.mem_append.1 hm with hm | hm
      · exact h.alphanumeric a hm
      · rw [List.mem_singleton.1 hm]
        exact alphanumeric_fresh ha

theorem mem_keys_assign {assigned : Entries String String} {name n : String} :
    n ∈ (assign assigned name).keys ↔ n ∈ assigned.keys ∨ n = name := by
  by_cases hm : name ∈ assigned.keys
  · rw [assign_of_has hm]
    constructor
    · exact .inl
    · rintro (h | rfl)
      · exact h
      · exact hm
  · obtain ⟨argument, -, he⟩ := assign_of_new hm
    rw [he, Entries.keys_append, List.mem_append]
    simp

theorem apart_foldl {assigned : Entries String String} (names : List String)
    (h : Apart assigned) : Apart (names.foldl assign assigned) := by
  induction names generalizing assigned with
  | nil => exact h
  | cons name names ih => exact ih (h.assign name)

theorem mem_keys_foldl {assigned : Entries String String} {names : List String} {n : String} :
    n ∈ (names.foldl assign assigned).keys ↔ n ∈ assigned.keys ∨ n ∈ names := by
  induction names generalizing assigned with
  | nil => simp
  | cons name names ih => rw [List.foldl_cons, ih, mem_keys_assign, List.mem_cons, or_assoc]

theorem apart_argumentNames (names : List String) : Apart (argumentNames names) :=
  apart_foldl _ ⟨List.nodup_nil, List.nodup_nil, by simp [Entries.values]⟩

theorem mem_keys_argumentNames {names : List String} {n : String} :
    n ∈ (argumentNames names).keys ↔ n ∈ names := by
  rw [argumentNames, mem_keys_foldl, List.mem_mergeSort]
  simp

theorem exists_argument {names : List String} {n : String} (h : n ∈ names) :
    ∃ a, (argumentNames names).get? n = some a := by
  have hn := mem_keys_argumentNames.2 h
  have : (argumentNames names).get? n ≠ none := fun he => Entries.get?_eq_none_iff.1 he hn
  exact Option.ne_none_iff_exists'.1 this

theorem name_eq_of_argument_eq {names : List String} {m n a : String}
    (hm : (argumentNames names).get? m = some a) (hn : (argumentNames names).get? n = some a) :
    m = n := by
  obtain ⟨d, hd, hmd, hda⟩ := Entries.mem_of_get? hm
  obtain ⟨e, he, hne, hea⟩ := Entries.mem_of_get? hn
  have hde := List.inj_on_of_nodup_map (apart_argumentNames names).arguments hd he
    (hda.trans hea.symm)
  rw [eq_of_beq hmd, eq_of_beq hne, hde]

theorem alphanumeric_of_argument {names : List String} {n a : String}
    (h : (argumentNames names).get? n = some a) : Alphanumeric a.toList := by
  obtain ⟨e, he, -, rfl⟩ := Entries.mem_of_get? h
  exact (apart_argumentNames names).alphanumeric _ (List.mem_map.2 ⟨e, he, rfl⟩)

theorem signatureName_not_reserved (argument : String) :
    signatureName argument ∉ reservedArguments := by
  simp only [signatureName]
  generalize (if Text.isIdentifier argument then argument else "_" ++ argument) = name
  by_cases h : (isKeyword name || reservedArguments.contains name) = true
  · rw [if_pos h]
    -- no reserved argument ends in an underscore
    intro hm
    have hl : (name ++ "_").toList.getLast? = some '_' := by simp
    rcases List.mem_cons.1 hm with he | hm
    · rw [he] at hl
      exact absurd hl (by decide)
    rcases List.mem_cons.1 hm with he | hm
    · rw [he] at hl
      exact absurd hl (by decide)
    rw [List.mem_singleton.1 hm] at hl
    exact absurd hl (by decide)
  · rw [if_neg h]
    intro hm
    exact h (by simp [hm])

theorem signatureName_letters {argument : String} (h : Alphanumeric argument.toList) :
    (signatureName argument).toList.filter Char.isAlphanum = argument.toList := by
  have hf : argument.toList.filter Char.isAlphanum = argument.toList :=
    List.filter_eq_self.2 h
  have hu : ('_' : Char).isAlphanum = false := by decide
  simp only [signatureName]
  split <;> split <;> simp [hf, hu]

theorem signatureName_injective {a b : String} (ha : Alphanumeric a.toList)
    (hb : Alphanumeric b.toList) (h : signatureName a = signatureName b) : a = b := by
  apply String.toList_inj.1
  rw [← signatureName_letters ha, ← signatureName_letters hb, h]

end OpenApi.Naming
