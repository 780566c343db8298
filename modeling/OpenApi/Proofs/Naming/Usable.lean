import OpenApi.Proofs.Naming.Argument
/-! # Arguments that can be written in a call

An argument is made of letters and digits. In a signature it is spelled so that it is an identifier and
no keyword: an underscore goes in front of a digit or of nothing, and one behind a keyword. -/
namespace OpenApi

namespace Text

theorem isIdentifierContinue_of_isAlphanum {c : Char} (h : c.isAlphanum = true) :
    isIdentifierContinue c = true := by
  have hc := toNat_lt_of_isAlphanum h
  rw [isIdentifierContinue, if_pos (by omega), h]
  rfl

theorem isIdentifier_append_underscore {s : String} (h : isIdentifier s = true) :
    isIdentifier (s ++ "_") = true := by
  have hu : isIdentifierContinue '_' = true := by decide
  have htoList : (s ++ "_").toList = s.toList ++ ['_'] := String.toList_append
  unfold isIdentifier at *
  rw [htoList]
  cases hs : s.toList with
  | nil =>
    rw [hs] at h
    cases h
  | cons c rest =>
    rw [hs] at h
    simpa [hu] using h

end Text

namespace Naming

theorem isIdentifier_underscore_append {s : String} (h : Alphanumeric s.toList) :
    Text.isIdentifier ("_" ++ s) = true := by
  have htoList : ("_" ++ s).toList = '_' :: s.toList := String.toList_append
  rw [Text.isIdentifier, htoList]
  refine Bool.and_eq_true_iff.2 ⟨by decide, List.all_eq_true.2 fun c hc => ?_⟩
  exact Text.isIdentifierContinue_of_isAlphanum (h c hc)

theorem not_isKeyword_append_underscore (s : String) : isKeyword (s ++ "_") = false := by
  have hlast : ∀ word ∈ keywords, word.toList.getLast? ≠ some '_' := by decide
  rw [isKeyword, ← Bool.not_eq_true, List.contains_iff_mem]
  intro hm
  exact hlast _ hm (by simp)

theorem isUsable_signatureName {argument : String} (h : Alphanumeric argument.toList) :
    isUsable (signatureName argument) = true := by
  have hspelled : Text.isIdentifier
      (if Text.isIdentifier argument then argument else "_" ++ argument) = true := by
    split
    · assumption
    · exact isIdentifier_underscore_append h
  simp only [signatureName, isUsable, Bool.and_eq_true, Bool.not_eq_true']
  generalize (if Text.isIdentifier argument then argument else "_" ++ argument) = name at hspelled ⊢
  by_cases hreserved : (isKeyword name || reservedArguments.contains name) = true
  · rw [if_pos hreserved]
    exact ⟨Text.isIdentifier_append_underscore hspelled, not_isKeyword_append_underscore name⟩
  · rw [if_neg hreserved]
    refine ⟨hspelled, Bool.eq_false_iff.2 fun hk => hreserved ?_⟩
    rw [hk, Bool.true_or]

end Naming

end OpenApi
