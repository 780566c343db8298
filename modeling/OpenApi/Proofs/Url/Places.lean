import OpenApi.Proofs.Url.Template
import Mathlib.Data.List.TakeWhile
/-! # Values in their places

An encoded value holds none of the marks that divide a URL. So the marks of a rendered path are those of
its literal texts, and if a slash stands between any two parameters, the text of every value can be told
from the URL: it ends where the literal text behind it begins. -/
namespace OpenApi

namespace Url

def textOf (values : Entries String Value) (name : String) : String :=
  ((values.get? name).getD .null).wireText

def isPlaceMark (c : Char) : Bool := c == '/' || c == '?' || c == '#'

def firstStep (text : String) : List Char := text.toList.takeWhile (· != '/')

theorem firstStep_append {text : String} (h : '/' ∉ text.toList) (rest : String) :
    firstStep (text ++ rest) = text.toList ++ firstStep rest := by
  have hall : ∀ c ∈ text.toList, (c != '/') = true := by
    intro c hc
    rw [bne_iff_ne]
    rintro rfl
    exact h hc
  rw [firstStep, String.toList_append, List.takeWhile_append_of_pos hall]
  rfl

theorem firstStep_append_of_mem {text : String} (h : '/' ∈ text.toList) (rest : String) :
    firstStep (text ++ rest) = firstStep text := by
  have hshort : (text.toList.takeWhile (· != '/')).length ≠ text.toList.length := by
    intro hlength
    have hall := List.takeWhile_eq_self_iff.mp
      ((List.takeWhile_prefix (p := (· != '/'))).eq_of_length hlength) '/' h
    exact absurd hall (by decide)
  rw [firstStep, String.toList_append, List.takeWhile_append, if_neg hshort]
  rfl

theorem filter_encodeComponent (s : String) :
    (Text.encodeComponent s).toList.filter isPlaceMark = [] := by
  rw [List.filter_eq_nil_iff]
  intro c hc hmark
  have hencoded := Text.isEncoded_of_mem_component hc
  simp only [isPlaceMark, Bool.or_eq_true, beq_iff_eq] at hmark
  rcases hmark with (rfl | rfl) | rfl
  all_goals exact absurd hencoded (by decide)

namespace Template

def literals : Template → List String
  | [] => []
  | .literal text :: rest => text :: literals rest
  | .parameter _ :: rest => literals rest

/-- If there is a parameter, a literal text in front of the first one has a slash. -/
def SlashFirst : Template → Prop
  | [] => True
  | .literal text :: rest => '/' ∈ text.toList ∨ SlashFirst rest
  | .parameter _ :: _ => False

/-- Between any two parameters there is a literal text that has a slash. -/
def Apart : Template → Prop
  | [] => True
  | .literal _ :: rest => Apart rest
  | .parameter _ :: rest => SlashFirst rest ∧ Apart rest

instance decidableSlashFirst : DecidablePred SlashFirst
  | [] => isTrue trivial
  | .literal text :: rest =>
    have := decidableSlashFirst rest
    inferInstanceAs (Decidable ('/' ∈ text.toList ∨ SlashFirst rest))
  | .parameter _ :: _ => isFalse id

instance decidableApart : DecidablePred Apart
  | [] => isTrue trivial
  | .literal _ :: rest => decidableApart rest
  | .parameter _ :: rest =>
    have := decidableApart rest
    inferInstanceAs (Decidable (SlashFirst rest ∧ Apart rest))

variable {t rest : Template} {v w : Entries String Value}

theorem render_cons (s : Segment) (t : Template) (values : Entries String Value) :
    render (s :: t) values = s.render values ++ render t values := by
  rw [render, List.map_cons, String.join_cons]
  rfl

theorem SlashFirst.firstStep_render (h : SlashFirst t) (v w : Entries String Value) :
    firstStep (t.render v) = firstStep (t.render w) := by
  induction t with
  | nil => rfl
  | cons s rest ih =>
    cases s with
    | parameter name => exact absurd h id
    | literal text =>
      have htext : ∀ values, Segment.render values (.literal text) = text := fun _ => rfl
      rw [render_cons, render_cons, htext, htext]
      by_cases hslash : '/' ∈ text.toList
      · rw [firstStep_append_of_mem hslash, firstStep_append_of_mem hslash]
      · rw [firstStep_append hslash, firstStep_append hslash, ih (h.resolve_left hslash)]

theorem SlashFirst.value_eq (h : SlashFirst rest) {name : String}
    (he : render (.parameter name :: rest) v = render (.parameter name :: rest) w) :
    textOf v name = textOf w name ∧ Template.render rest v = Template.render rest w := by
  have hvalue : ∀ values, Segment.render values (.parameter name) =
      Text.encodeComponent (textOf values name) := fun _ => rfl
  rw [render_cons, render_cons, hvalue, hvalue] at he
  have hslash : ∀ s, '/' ∉ (Text.encodeComponent s).toList :=
    Text.not_mem_encodeComponent (by decide)
  have hfirst := congrArg firstStep he
  rw [firstStep_append (hslash _), firstStep_append (hslash _), h.firstStep_render v w] at hfirst
  have hencoded : Text.encodeComponent (textOf v name) = Text.encodeComponent (textOf w name) :=
    String.toList_inj.mp (List.append_cancel_right hfirst)
  rw [hencoded] at he
  exact ⟨Text.encodeComponent_injective hencoded, (String.append_right_inj _).mp he⟩

theorem Apart.textOf_eq (h : Apart t) (he : t.render v = t.render w) {name : String}
    (hname : .parameter name ∈ t) : textOf v name = textOf w name := by
  induction t with
  | nil => cases hname
  | cons s rest ih =>
    cases s with
    | literal text =>
      rw [render_cons, render_cons] at he
      have hrest : render rest v = render rest w := (String.append_right_inj text).mp he
      rcases List.mem_cons.mp hname with hhead | hname
      · cases hhead
      · exact ih h hrest hname
    | parameter other =>
      obtain ⟨hvalue, hrest⟩ := SlashFirst.value_eq h.1 he
      rcases List.mem_cons.mp hname with hhead | hname
      · cases hhead
        exact hvalue
      · exact ih h.2 hrest hname

/-- The marks of a rendered template are those of its literal texts. -/
theorem filter_render (t : Template) (values : Entries String Value) :
    (t.render values).toList.filter isPlaceMark =
      t.literals.flatMap fun text => text.toList.filter isPlaceMark := by
  induction t with
  | nil => rfl
  | cons s rest ih =>
    rw [render_cons, String.toList_append, List.filter_append, ih]
    cases s with
    | literal text => rw [literals, List.flatMap_cons, Segment.render]
    | parameter name => rw [literals, Segment.render, filter_encodeComponent, List.nil_append]

end Template

/-- Values stay in their places. The marks of a URL are those of the literal texts of its path, whatever
the values are, and if the parameters have slashes between them, equal URLs have equal values. -/
theorem render_keeps_places (path : String) :
    ((Template.ofPath path).Apart → ∀ v w : Entries String Value,
      (Template.ofPath path).render v = (Template.ofPath path).render w →
        ∀ name, .parameter name ∈ Template.ofPath path → textOf v name = textOf w name) ∧
    ∀ values, ((Template.ofPath path).render values).toList.filter isPlaceMark =
      (Template.ofPath path).literals.flatMap fun text => text.toList.filter isPlaceMark := by
  refine ⟨fun h v w he name hname => h.textOf_eq he hname, fun values => ?_⟩
  exact (Template.ofPath path).filter_render values

def toyPath : String := "/pets/\x7bid\x7d/toys-\x7btoy\x7d/\x7bid\x7d"

theorem render_keeps_places_toyPath :
    let v : Entries String Value := [("id", .int 5), ("toy", .str "a/b?\x7bid\x7d")]
    let w : Entries String Value := [("toy", .str "a/b?\x7bid\x7d"), ("id", .str "5")]
    (Template.ofPath toyPath).Apart ∧
      (Template.ofPath toyPath).render v = (Template.ofPath toyPath).render w ∧
        ∀ name, .parameter name ∈ Template.ofPath toyPath → textOf v name = textOf w name := by
  intro v w
  have hapart : (Template.ofPath toyPath).Apart := by decide +kernel
  have he : (Template.ofPath toyPath).render v = (Template.ofPath toyPath).render w := by
    decide +kernel
  exact ⟨hapart, he, (render_keeps_places toyPath).1 hapart v w he⟩

end Url

end OpenApi
