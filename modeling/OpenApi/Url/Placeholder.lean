/-! # Placeholders

A path holds placeholders: names between braces. A name has at least one character, does not
leave its line, and ends at the first closing brace behind its first character.
-/
namespace OpenApi.Url

def openingBrace : Char := '\x7b'

def closingBrace : Char := '\x7d'

/-- What stands before the first closing brace of the line, and what behind it. -/
def untilClosing : List Char → Option (List Char × List Char)
  | [] => none
  | c :: rest =>
    if c == closingBrace then some ([], rest)
    else if c == '\n' then none
    else (untilClosing rest).map fun (name, after) => (c :: name, after)

def placeholderName : List Char → Option (List Char × List Char)
  | [] => none
  | c :: rest =>
    if c == '\n' then none
    else (untilClosing rest).map fun (name, after) => (c :: name, after)

structure Placeholder where
  before : List Char
  name : List Char
  after : List Char

def firstPlaceholder : List Char → Option Placeholder
  | [] => none
  | c :: rest =>
    let later := (firstPlaceholder rest).map fun p => { p with before := c :: p.before }
    if c == openingBrace then
      match placeholderName rest with
      | some (name, after) => some ⟨[], name, after⟩
      | none => later
    else later

theorem untilClosing_length {cs name after : List Char} (h : untilClosing cs = some (name, after)) :
    after.length < cs.length := by
  induction cs generalizing name after with
  | nil => simp [untilClosing] at h
  | cons c rest ih =>
    simp only [untilClosing] at h
    split at h
    · simp only [Option.some.injEq, Prod.mk.injEq] at h
      simp [← h.2]
    · split at h
      · simp at h
      · obtain ⟨⟨n, a⟩, hn, he⟩ := Option.map_eq_some_iff.1 h
        simp only [Prod.mk.injEq] at he
        have := ih hn
        simp [← he.2]
        omega

theorem placeholderName_length {cs name after : List Char}
    (h : placeholderName cs = some (name, after)) : after.length < cs.length := by
  cases cs with
  | nil => simp [placeholderName] at h
  | cons c rest =>
    simp only [placeholderName] at h
    split at h
    · simp at h
    · obtain ⟨⟨n, a⟩, hn, he⟩ := Option.map_eq_some_iff.1 h
      simp only [Prod.mk.injEq] at he
      have := untilClosing_length hn
      simp [← he.2]
      omega

theorem firstPlaceholder_length {cs : List Char} {p : Placeholder}
    (h : firstPlaceholder cs = some p) : p.after.length < cs.length := by
  induction cs generalizing p with
  | nil => simp [firstPlaceholder] at h
  | cons c rest ih =>
    have later : ∀ {q : Placeholder},
        (firstPlaceholder rest).map (fun p => { p with before := c :: p.before }) = some q →
          q.after.length < (c :: rest).length := by
      intro q hq
      obtain ⟨r, hr, rfl⟩ := Option.map_eq_some_iff.1 hq
      have := ih hr
      simp
      omega
    simp only [firstPlaceholder] at h
    split at h
    · split at h
      · rename_i hn
        have := placeholderName_length hn
        simp only [Option.some.injEq] at h
        simp [← h]
        omega
      · exact later h
    · exact later h

end OpenApi.Url
