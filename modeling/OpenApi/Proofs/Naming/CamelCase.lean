import Mathlib
import OpenApi.Proofs.Naming.Argument
/-! # The letters of a name in camel case

Camel case leaves out what is neither a letter nor a digit and changes the case of letters. It keeps every
letter and digit in its place. -/
namespace OpenApi.Naming

theorem small_small (w : List Char) : small (small w) = small w := by
  rw [small, small, List.map_map]
  exact List.map_congr_left fun c _ => Char.toLower_toLower_eq_toLower c

theorem small_capitalised (w : List Char) : small (capitalised w) = small w := by
  cases w with
  | nil => rfl
  | cons c w =>
    have hrest := small_small w
    simp only [small, capitalised, List.map_cons] at hrest ⊢
    rw [Char.toLower_toUpper_eq_toLower, hrest]

theorem small_camelLetters (ws : List (List Char)) : small (camelLetters ws) = small ws.flatten := by
  cases ws with
  | nil => rfl
  | cons w ws =>
    have hrest : small (ws.map capitalised).flatten = small ws.flatten := by
      rw [small, small, List.map_flatten, List.map_flatten, List.map_map]
      exact congrArg List.flatten (List.map_congr_left fun v _ => small_capitalised v)
    have hfirst := small_small w
    simp only [small, camelLetters, List.flatten_cons, List.map_append] at hfirst hrest ⊢
    rw [hfirst, hrest]

/-- Camel case says the letters and digits of a text in their order, up to letter case. -/
theorem small_camelCase (s : String) :
    small (camelCase s).toList = small (s.toList.filter Char.isAlphanum) := by
  rw [camelCase, String.toList_ofList, small_camelLetters, flatten_words]

end OpenApi.Naming
