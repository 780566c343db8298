import OpenApi.Proofs.Call.Carried
import OpenApi.Proofs.Query.Fields
/-! # Joined fragments

What stands between the marks of a query string is told by it, and a run of fragments may as well be
joined by itself first. -/
namespace OpenApi.Query

def marked (parts : List String) : String := String.join (parts.map (· ++ "&"))

theorem marked_append (fs gs : List String) : marked (fs ++ gs) = marked fs ++ marked gs := by
  rw [marked, List.map_append, String.join_append]
  rfl

theorem marked_eq_joined {fs : List String} (h : fs ≠ []) : marked fs = joined "&" fs ++ "&" := by
  induction fs with
  | nil => exact absurd rfl h
  | cons f fs ih =>
    have hcons : marked (f :: fs) = f ++ "&" ++ marked fs := by
      rw [marked, List.map_cons, String.join_cons]
      rfl
    rw [hcons]
    cases fs with
    | nil => simp [marked, joined]
    | cons g gs =>
      rw [ih (List.cons_ne_nil g gs), joined, joined, String.intercalate_cons_cons]
      simp [String.append_assoc]

theorem joined_eq_of_marked {fs gs : List String} (h : marked fs = marked gs) :
    joined "&" fs = joined "&" gs := by
  have hempty : ∀ parts : List String, marked [] = marked parts → parts = [] := by
    intro parts he
    by_contra hne
    rw [marked_eq_joined hne] at he
    simp [marked] at he
  by_cases hf : fs = []
  · subst hf
    rw [hempty gs h]
  by_cases hg : gs = []
  · subst hg
    rw [hempty fs h.symm]
  · rw [marked_eq_joined hf, marked_eq_joined hg] at h
    exact (String.append_left_inj "&").mp h

/-- Parts stand for themselves if they are joined first, and so do none. -/
theorem marked_joined {parts : List String} (h : ∀ p ∈ parts, p ≠ "") :
    marked ([joined "&" parts].filter fun f => !f.isEmpty) = marked parts := by
  cases parts with
  | nil => rfl
  | cons p ps =>
    have hfull : joined "&" (p :: ps) ≠ "" := Operation.joined_ne_empty (h p List.mem_cons_self) ps
    rw [List.filter_cons_of_pos (by simpa using hfull), marked_eq_joined (by simp),
      marked_eq_joined (by simp)]
    rfl

theorem filter_of_ne_empty {parts : List String} (h : ∀ p ∈ parts, p ≠ "") :
    (parts.filter fun f => !f.isEmpty) = parts := by
  rw [List.filter_eq_self]
  intro p hp
  simpa using h p hp

theorem joined_unique {fs gs : List String} (hf : ∀ f ∈ fs, f ≠ "" ∧ '&' ∉ f.toList)
    (hg : ∀ g ∈ gs, g ≠ "" ∧ '&' ∉ g.toList) (h : joined "&" fs = joined "&" gs) : fs = gs := by
  have hmaps : fs.map String.toList = gs.map String.toList := by
    rw [← pieces_joined hf, ← pieces_joined hg, h]
  have hinjective : Function.Injective String.toList := fun _ _ => String.toList_inj.mp
  exact List.map_injective_iff.mpr hinjective hmaps

end OpenApi.Query
