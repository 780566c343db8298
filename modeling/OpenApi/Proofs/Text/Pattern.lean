import Mathlib.Data.List.Basic
/-! # Patterns

A pattern says how words are written. It may leave several ways to read a word; these are tried in order, and
the first that leads to an end counts. A search goes through a text from its front and passes over a character
only where the pattern cannot be read. -/
namespace OpenApi.Text

/-- A character of a kind, or a run of one or more of them, and what is made of such parts. -/
inductive Pattern where
  | letter (kind : Char → Bool)
  | run (kind : Char → Bool)
  | maybe (p : Pattern)
  | next (p q : Pattern)
  | either (p q : Pattern)
  | ahead (p : Pattern)

namespace Pattern

/-- What may stand behind a run of one kind. A run is as long as it can be, and gives back its last characters
one by one where what follows it needs them. -/
def runRests (kind : Char → Bool) : List Char → List (List Char)
  | [] => []
  | c :: cs => if kind c then runRests kind cs ++ [cs] else []

/-- What is left of a text behind the pattern, for each way to read it, in the order in which these are tried.
An optional part is there before it is missing, and what is looked ahead at is left where it is. -/
def rests : Pattern → List Char → List (List Char)
  | letter _, [] => []
  | letter kind, c :: cs => if kind c then [cs] else []
  | run kind, cs => runRests kind cs
  | maybe p, cs => p.rests cs ++ [cs]
  | next p q, cs => (p.rests cs).flatMap q.rests
  | either p q, cs => p.rests cs ++ q.rests cs
  | ahead p, cs => if (p.rests cs).isEmpty then [] else [cs]

/-- The words that a search for the pattern finds in a text. Each is read in the first way there is, and the
search goes on behind it. -/
inductive Finds (p : Pattern) : List Char → List (List Char) → Prop where
  | done (hnone : p.rests [] = []) : Finds p [] []
  | skip {c cs ws} (hnone : p.rests (c :: cs) = []) (hrest : Finds p cs ws) : Finds p (c :: cs) ws
  | found {cs w rest ws} (htext : cs = w ++ rest) (hne : w ≠ [])
      (hfirst : (p.rests cs).head? = some rest) (hrest : Finds p rest ws) : Finds p cs (w :: ws)

theorem Finds.unique {p : Pattern} {cs : List Char} {ws vs : List (List Char)} (h : p.Finds cs ws)
    (h' : p.Finds cs vs) : ws = vs := by
  induction h generalizing vs with
  | done hnone =>
    cases h' with
    | done => rfl
    | found htext hne _ _ => exact absurd (List.append_eq_nil_iff.mp htext.symm).1 hne
  | skip hnone _ ih =>
    cases h' with
    | skip _ hrest => exact ih hrest
    | found _ _ hfirst _ =>
      rw [hnone] at hfirst
      cases hfirst
  | found htext hne hfirst _ ih =>
    cases h' with
    | done => exact absurd (List.append_eq_nil_iff.mp htext.symm).1 hne
    | skip hnone _ =>
      rw [hnone] at hfirst
      cases hfirst
    | found htext' _ hfirst' hrest' =>
      -- both are read in the first way, so the same is left, and so the words are the same
      obtain rfl := Option.some.inj (hfirst.symm.trans hfirst')
      obtain rfl := List.append_cancel_right (htext.symm.trans htext')
      rw [ih hrest']

variable {kind : Char → Bool} {c : Char} {cs : List Char}

theorem runRests_of_kind (h : kind c = true) : runRests kind (c :: cs) = runRests kind cs ++ [cs] := by
  rw [runRests, if_pos h]

theorem runRests_of_other (h : kind c = false) : runRests kind (c :: cs) = [] := by
  rw [runRests, h]
  rfl

theorem runRests_of_front (h : cs.head?.any kind = false) : runRests kind cs = [] := by
  cases cs with
  | nil => rfl
  | cons c cs => exact runRests_of_other h

theorem runRests_ne_nil (h : cs.head?.any kind = true) : runRests kind cs ≠ [] := by
  cases cs with
  | nil => cases h
  | cons c cs =>
    rw [runRests_of_kind h]
    exact List.append_ne_nil_of_right_ne_nil _ (List.cons_ne_nil _ _)

theorem head?_runRests_cons (h : kind c = true) : (runRests kind (c :: cs)).head? =
    if cs.head?.any kind then (runRests kind cs).head? else some cs := by
  rw [runRests_of_kind h]
  by_cases hnext : cs.head?.any kind = true
  · rw [if_pos hnext]
    exact List.head?_append_of_ne_nil _ (runRests_ne_nil hnext)
  · rw [if_neg hnext, runRests_of_front (Bool.eq_false_iff.mpr hnext)]
    rfl

end Pattern

end OpenApi.Text
