import OpenApi.Proofs.Text.Utf8
import OpenApi.Text.Percent
/-! # Reading percent encoding

A text that is written as a component of a URL or as a field of a form is read back as it was. What is
written holds none of the marks by which the parts of a URL and the fields of a form are told apart. -/
namespace OpenApi.Text

def unplus (c : Char) : Char := if c == '+' then ' ' else c

def isEncoded (c : Char) : Bool := isComponentSafe c || c == '%' || c == '+'

theorem isAlphanum_upperHexDigit {n : Nat} (h : n < 16) :
    (upperHexDigit n).isAlphanum = true := by
  revert n
  decide

theorem hexDigit?_upperHexDigit {n : Nat} (h : n < 16) : hexDigit? (upperHexDigit n) = some n := by
  revert n
  decide

theorem digits_of_byte (b : UInt8) : b.toNat / 16 < 16 ∧ b.toNat % 16 < 16 := by
  have := b.toNat_lt
  omega

theorem hexPair?_of_byte (b : UInt8) :
    hexPair? (upperHexDigit (b.toNat / 16)) (upperHexDigit (b.toNat % 16)) = some b := by
  obtain ⟨hhigh, hlow⟩ := digits_of_byte b
  have hn : 16 * (b.toNat / 16) + b.toNat % 16 = b.toNat := by omega
  have hb : byte b.toNat = b := UInt8.ofNat_toNat
  simp only [hexPair?, hexDigit?_upperHexDigit hhigh, hexDigit?_upperHexDigit hlow,
    Option.bind_eq_bind, Option.bind_some, hn, hb]

theorem isAlphanum_ne_plus {c : Char} (h : c.isAlphanum = true) : c ≠ '+' := by
  rintro rfl
  exact absurd h (by decide)

theorem map_unplus_percentByte (b : UInt8) : (percentByte b).map unplus = percentByte b := by
  obtain ⟨hhigh, hlow⟩ := digits_of_byte b
  have h₁ := isAlphanum_ne_plus (isAlphanum_upperHexDigit hhigh)
  have h₂ := isAlphanum_ne_plus (isAlphanum_upperHexDigit hlow)
  simp [percentByte, unplus, h₁, h₂]

theorem unpercent_percentByte (b : UInt8) (bytes : List UInt8) (rest : List Char) :
    unpercent bytes (percentByte b ++ rest) = unpercent (b :: bytes) rest := by
  simp only [percentByte, List.cons_append, List.nil_append, unpercent, hexPair?_of_byte]

theorem unpercent_percentBytes (bs bytes : List UInt8) (rest : List Char) :
    unpercent bytes (bs.flatMap percentByte ++ rest) = unpercent (bs.reverse ++ bytes) rest := by
  induction bs generalizing bytes with
  | nil => rfl
  | cons b bs ih =>
    rw [List.flatMap_cons, List.append_assoc, unpercent_percentByte, ih, List.reverse_cons,
      List.append_assoc]
    rfl

theorem unpercent_ascii {c : Char} (h : c.toNat < 0x80) (hc : c ≠ '%') (bytes : List UInt8)
    (rest : List Char) : unpercent bytes (c :: rest) = unpercent (byte c.toNat :: bytes) rest := by
  rw [unpercent, if_pos h]
  intro a b rest' hp
  exact absurd hp hc

theorem encodeChar_ascii {c : Char} (h : c.toNat < 0x80) : encodeChar c = [byte c.toNat] := by
  simp [encodeChar, h]

/-- Every character is read back as its bytes, in a form where a plus sign is a space. -/
def Readable (write : Char → List Char) : Prop :=
  ∀ (c : Char) (bytes : List UInt8) (rest : List Char),
    unpercent bytes ((write c).map unplus ++ rest) =
      unpercent ((encodeChar c).reverse ++ bytes) rest

def SafeSet (safe : Char → Bool) : Prop :=
  ∀ c, safe c = true → c.toNat < 0x80 ∧ c ≠ '%' ∧ c ≠ '+'

theorem isUnreserved_cases {c : Char} (h : isUnreserved c = true) :
    c.isAlphanum = true ∨ c = '_' ∨ c = '.' ∨ c = '-' ∨ c = '~' := by
  simpa [isUnreserved, or_assoc] using h

theorem safeSet_unreserved : SafeSet isUnreserved := by
  intro c h
  rcases isUnreserved_cases h with h | rfl | rfl | rfl | rfl
  · refine ⟨Nat.lt_trans (toNat_lt_of_isAlphanum h) (by decide), ?_, isAlphanum_ne_plus h⟩
    rintro rfl
    exact absurd h (by decide)
  all_goals decide

theorem safeSet_component : SafeSet isComponentSafe := by
  intro c h
  have hc : isUnreserved c = true ∨ c = '!' ∨ c = '\'' ∨ c = '(' ∨ c = ')' ∨ c = '*' := by
    simpa [isComponentSafe, or_assoc] using h
  rcases hc with h | rfl | rfl | rfl | rfl | rfl
  · exact safeSet_unreserved c h
  all_goals decide

theorem readable_percentChar {safe : Char → Bool} (h : SafeSet safe) :
    Readable (percentChar safe) := by
  intro c bytes rest
  by_cases hc : safe c = true
  · obtain ⟨hascii, hpercent, hplus⟩ := h c hc
    have hsame : unplus c = c := by simp [unplus, hplus]
    rw [percentChar, if_pos hc, List.map_singleton, hsame, encodeChar_ascii hascii]
    exact unpercent_ascii hascii hpercent bytes rest
  · rw [percentChar, if_neg hc, List.map_flatMap]
    simp only [map_unplus_percentByte]
    exact unpercent_percentBytes (encodeChar c) bytes rest

theorem readable_formChar : Readable formChar := by
  intro c bytes rest
  by_cases hc : c = ' '
  · subst hc
    exact unpercent_ascii (by decide) (by decide) bytes rest
  · have hform : formChar c = percentChar isUnreserved c := by simp [formChar, hc]
    rw [hform]
    exact readable_percentChar safeSet_unreserved c bytes rest

theorem unpercent_written {write : Char → List Char} (h : Readable write) (cs : List Char)
    (bytes : List UInt8) : unpercent bytes ((cs.flatMap write).map unplus) =
      decodeReplacing (bytes.reverse ++ cs.flatMap encodeChar) := by
  induction cs generalizing bytes with
  | nil => simp [unpercent]
  | cons c cs ih =>
    rw [List.flatMap_cons, List.map_append, h c bytes, ih, List.flatMap_cons]
    simp

theorem decodeForm_written {write : Char → List Char} (h : Readable write) (s : String) :
    decodeForm (String.ofList (s.toList.flatMap write)) = s := by
  have hread := unpercent_written h s.toList []
  rw [List.reverse_nil, List.nil_append, decodeReplacing_encode] at hread
  rw [decodeForm, String.toList_ofList]
  exact (congrArg String.ofList hread).trans (String.ofList_toList)

theorem decodeForm_encodeComponent (s : String) : decodeForm (encodeComponent s) = s :=
  decodeForm_written (readable_percentChar safeSet_component) s

theorem encodeComponent_injective : Function.Injective encodeComponent :=
  Function.LeftInverse.injective decodeForm_encodeComponent

theorem decodeForm_encodeForm (s : String) : decodeForm (encodeForm s) = s :=
  decodeForm_written readable_formChar s

theorem isEncoded_of_mem_percentByte {b : UInt8} {c : Char} (h : c ∈ percentByte b) :
    isEncoded c = true := by
  obtain ⟨hhigh, hlow⟩ := digits_of_byte b
  have hdigit : ∀ n < 16, isEncoded (upperHexDigit n) = true := by decide
  simp only [percentByte, List.mem_cons, List.not_mem_nil, or_false] at h
  rcases h with rfl | rfl | rfl
  · decide
  · exact hdigit _ hhigh
  · exact hdigit _ hlow

theorem isEncoded_of_mem_percentChar {safe : Char → Bool}
    (h : ∀ c, safe c = true → isEncoded c = true) {c d : Char} (hd : d ∈ percentChar safe c) :
    isEncoded d = true := by
  unfold percentChar at hd
  split at hd
  · next hc =>
    rw [List.mem_singleton.1 hd]
    exact h c hc
  · obtain ⟨b, -, hb⟩ := List.mem_flatMap.1 hd
    exact isEncoded_of_mem_percentByte hb

theorem isEncoded_of_mem_component {s : String} {c : Char} (h : c ∈ (encodeComponent s).toList) :
    isEncoded c = true := by
  rw [encodeComponent, String.toList_ofList] at h
  obtain ⟨d, -, hd⟩ := List.mem_flatMap.1 h
  exact isEncoded_of_mem_percentChar (fun c hc => by simp [isEncoded, hc]) hd

theorem not_mem_encodeComponent {c : Char} (hc : isEncoded c = false) (s : String) :
    c ∉ (encodeComponent s).toList := by
  intro h
  rw [isEncoded_of_mem_component h] at hc
  cases hc

theorem isEncoded_of_mem_form {s : String} {c : Char} (h : c ∈ (encodeForm s).toList) :
    isEncoded c = true := by
  rw [encodeForm, String.toList_ofList] at h
  obtain ⟨d, -, hd⟩ := List.mem_flatMap.1 h
  unfold formChar at hd
  split at hd
  · rw [List.mem_singleton.1 hd]
    decide
  · exact isEncoded_of_mem_percentChar
      (fun c hc => by simp [isEncoded, isComponentSafe, hc]) hd

theorem mem_percentChar {safe : Char → Bool} {c d : Char} (h : d ∈ percentChar safe c) :
    d = c ∨ d = '%' ∨ d.isAlphanum = true := by
  unfold percentChar at h
  split at h
  · exact .inl (List.mem_singleton.mp h)
  · obtain ⟨b, -, hb⟩ := List.mem_flatMap.mp h
    obtain ⟨hhigh, hlow⟩ := digits_of_byte b
    simp only [percentByte, List.mem_cons, List.not_mem_nil, or_false] at hb
    rcases hb with rfl | rfl | rfl
    · exact .inr (.inl rfl)
    · exact .inr (.inr (isAlphanum_upperHexDigit hhigh))
    · exact .inr (.inr (isAlphanum_upperHexDigit hlow))

inductive Writes : List Char → List Char → Prop where
  | nil : Writes [] []
  | plain {c : Char} {cs text : List Char} (h : c ≠ '%') (rest : Writes cs text) :
      Writes (c :: cs) (c :: text)
  | encoded {c : Char} {cs text : List Char} (rest : Writes cs text) :
      Writes (c :: cs) ((encodeChar c).flatMap percentByte ++ text)

theorem Writes.append {cs ds text more : List Char} (h : Writes cs text) (hmore : Writes ds more) :
    Writes (cs ++ ds) (text ++ more) := by
  induction h with
  | nil => exact hmore
  | plain hc _ ih => exact .plain hc ih
  | encoded _ ih =>
    rw [List.append_assoc]
    exact .encoded ih

theorem writes_percentChars {safe : Char → Bool} (hpercent : safe '%' = false) (cs : List Char) :
    Writes cs (cs.flatMap (percentChar safe)) := by
  induction cs with
  | nil => exact .nil
  | cons c cs ih =>
    rw [List.flatMap_cons]
    unfold percentChar
    split
    · next hc =>
      refine .plain ?_ ih
      rintro rfl
      rw [hpercent] at hc
      cases hc
    · exact .encoded ih

theorem unpercent_beyond_ascii {c : Char} (h : ¬ c.toNat < 0x80) (bytes : List UInt8) (rest : List Char) :
    unpercent bytes (c :: rest) = decodeReplacing bytes.reverse ++ c :: unpercent [] rest := by
  rw [unpercent, if_neg h]
  rintro a b rest' rfl
  exact absurd (by decide) h

/-- The characters before are given as the bytes that were gathered for them. -/
theorem Writes.unpercent {cs text : List Char} (h : Writes cs text) (before : List Char) :
    unpercent (before.flatMap encodeChar).reverse text = before ++ cs := by
  have hgather : ∀ (before : List Char) (c : Char),
      (encodeChar c).reverse ++ (before.flatMap encodeChar).reverse =
        ((before ++ [c]).flatMap encodeChar).reverse := by simp
  induction h generalizing before with
  | nil => rw [Text.unpercent, List.reverse_reverse, decodeReplacing_encode, List.append_nil]
  | @plain c cs text hc _ ih =>
    by_cases hascii : c.toNat < 0x80
    · have hbytes := hgather before c
      rw [encodeChar_ascii hascii, List.reverse_singleton, List.singleton_append] at hbytes
      rw [unpercent_ascii hascii hc, hbytes, ih, List.append_assoc]
      rfl
    · rw [unpercent_beyond_ascii hascii, List.reverse_reverse, decodeReplacing_encode]
      exact congrArg (before ++ c :: ·) (ih [])
  | @encoded c cs text _ ih =>
    rw [unpercent_percentBytes, hgather, ih, List.append_assoc]
    rfl

/-- A text is read back, whatever characters but the percent sign stand for themselves. -/
theorem decodePercent_of_writes {s : String} {text : List Char} (h : Writes s.toList text) :
    decodePercent (String.ofList text) = s := by
  rw [decodePercent, String.toList_ofList]
  exact (congrArg String.ofList (h.unpercent [])).trans String.ofList_toList

theorem writes_encodeComponent (s : String) : Writes s.toList (encodeComponent s).toList := by
  rw [encodeComponent, String.toList_ofList]
  exact writes_percentChars (by decide) s.toList

theorem decodePercent_encodeComponent (s : String) : decodePercent (encodeComponent s) = s := by
  have h := decodePercent_of_writes (writes_encodeComponent s)
  rwa [String.ofList_toList] at h

end OpenApi.Text
