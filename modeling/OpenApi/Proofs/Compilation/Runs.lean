import OpenApi.Compilation
import OpenApi.Proofs.Schema.Related
import Mathlib.Logic.Relation
/-! # Runs of a compilation

A run ends in a result and a state, or in a fault and a state. What holds at the end of a run is
found by going through it step by step. -/
namespace OpenApi

namespace Compile

variable {α β : Type}

/-- Started in `c`, the computation succeeds in a state where `Q` holds of it and its result, or it
fails with a fault and in a state of which `F` holds. -/
def Ends (x : Compile α) (Q : α → Compilation → Prop) (F : Fault → Compilation → Prop)
    (c : Compilation) : Prop :=
  match x.run c with
  | (.ok a, d) => Q a d
  | (.error e, d) => F e d

/-- Started in `c`, the computation succeeds in a state where `Q` holds of it and its result, or it
fails in a state where `F` holds. -/
def EndsIn (x : Compile α) (Q : α → Compilation → Prop) (F : Compilation → Prop)
    (c : Compilation) : Prop :=
  match x.run c with
  | (.ok a, d) => Q a d
  | (.error _, d) => F d

theorem run_bind (x : Compile α) (f : α → Compile β) (c : Compilation) :
    (x >>= f).run c =
      match x.run c with
      | (.ok a, d) => (f a).run d
      | (.error e, d) => (.error e, d) := by
  have h : (x >>= f).run c = ExceptT.bindCont f (x.run c).1 (x.run c).2 := rfl
  rw [h]
  rcases x.run c with ⟨_ | _, d⟩ <;> rfl

theorem run_bind_eq_ok {x : Compile α} {f : α → Compile β} {b : β} {c d : Compilation} :
    (x >>= f).run c = (.ok b, d) ↔
      ∃ a e, x.run c = (.ok a, e) ∧ (f a).run e = (.ok b, d) := by
  rw [run_bind]
  rcases x.run c with ⟨_ | a, e⟩
  · exact ⟨nofun, nofun⟩
  · exact ⟨fun h => ⟨a, e, rfl, h⟩, fun ⟨_, _, h, hf⟩ => by cases h; exact hf⟩

theorem run_ofExcept_eq_ok {r : Except Fault α} {a : α} {c d : Compilation} :
    (ofExcept r : Compile α).run c = (.ok a, d) ↔ r = .ok a ∧ c = d := by
  cases r with
  | error e => exact ⟨nofun, nofun⟩
  | ok b => exact ⟨fun h => by cases h; exact ⟨rfl, rfl⟩, fun ⟨h, hd⟩ => by cases h; cases hd; rfl⟩

section Faults

variable {x : Compile α} {f : α → Compile β} {Q : β → Compilation → Prop}
  {F : Fault → Compilation → Prop} {c : Compilation}

theorem ends_bind : (x >>= f).Ends Q F c ↔ x.Ends (fun a d => (f a).Ends Q F d) F c := by
  unfold Ends
  rw [run_bind]
  rcases x.run c with ⟨_ | _, d⟩ <;> rfl

theorem ends_pure {Q : α → Compilation → Prop} (a : α) :
    (pure a : Compile α).Ends Q F c ↔ Q a c := Iff.rfl

theorem ends_catalogue {Q : Catalogue → Compilation → Prop} :
    catalogue.Ends Q F c ↔ Q c.catalogue c := Iff.rfl

theorem ends_setCatalogue {Q : Unit → Compilation → Prop} {k : Catalogue} :
    (setCatalogue k).Ends Q F c ↔ Q () { c with catalogue := k } := Iff.rfl

theorem ends_note {Q : Unit → Compilation → Prop} {e : Event} :
    (note e).Ends Q F c ↔ Q () { c with journal := c.journal ++ [e] } := Iff.rfl

theorem ends_of_except {Q : α → Compilation → Prop} {r : Except Fault α}
    (hQ : ∀ a, r = .ok a → Q a c) (hF : ∀ e, r = .error e → F e c) :
    (ofExcept r : Compile α).Ends Q F c := by
  cases r with
  | error e => exact hF e rfl
  | ok a => exact hQ a rfl

theorem Ends.mono {Q R : α → Compilation → Prop} {F G : Fault → Compilation → Prop}
    (h : x.Ends Q F c) (hQ : ∀ a d, Q a d → R a d) (hF : ∀ e d, F e d → G e d) : x.Ends R G c := by
  unfold Ends at *
  rcases hx : x.run c with ⟨e | a, d⟩
  · rw [hx] at h
    exact hF e d h
  · rw [hx] at h
    exact hQ a d h

theorem Ends.of_run {Q : α → Compilation → Prop} {a : α} {d : Compilation}
    (h : x.Ends Q F c) (hx : x.run c = (.ok a, d)) : Q a d := by
  unfold Ends at h
  rwa [hx] at h

theorem Ends.of_failed_run {Q : α → Compilation → Prop} {e : Fault} {d : Compilation}
    (h : x.Ends Q F c) (hx : x.run c = (.error e, d)) : F e d := by
  unfold Ends at h
  rwa [hx] at h

end Faults

variable {x : Compile α} {f : α → Compile β} {Q : β → Compilation → Prop}
  {F : Compilation → Prop} {c : Compilation}

theorem endsIn_bind :
    (x >>= f).EndsIn Q F c ↔ x.EndsIn (fun a d => (f a).EndsIn Q F d) F c :=
  ends_bind (F := fun _ => F)

theorem endsIn_pure {Q : α → Compilation → Prop} (a : α) :
    (pure a : Compile α).EndsIn Q F c ↔ Q a c := Iff.rfl

theorem endsIn_ok {Q : α → Compilation → Prop} {a : α} :
    (ofExcept (.ok a : Except Fault α) : Compile α).EndsIn Q F c ↔ Q a c := Iff.rfl

theorem endsIn_throw {Q : α → Compilation → Prop} (e : Fault) :
    (throw e : Compile α).EndsIn Q F c ↔ F c := Iff.rfl

theorem endsIn_catalogue {Q : Catalogue → Compilation → Prop} :
    catalogue.EndsIn Q F c ↔ Q c.catalogue c := Iff.rfl

theorem endsIn_setCatalogue {Q : Unit → Compilation → Prop} {k : Catalogue} :
    (setCatalogue k).EndsIn Q F c ↔ Q () { c with catalogue := k } := Iff.rfl

theorem endsIn_note {Q : Unit → Compilation → Prop} {e : Event} :
    (note e).EndsIn Q F c ↔ Q () { c with journal := c.journal ++ [e] } := Iff.rfl

theorem endsIn_of_except {Q : α → Compilation → Prop} {r : Except Fault α}
    (hQ : ∀ a, r = .ok a → Q a c) (hF : F c) : (ofExcept r : Compile α).EndsIn Q F c :=
  ends_of_except (F := fun _ => F) hQ fun _ _ => hF

theorem EndsIn.mono {Q R : α → Compilation → Prop} {F G : Compilation → Prop}
    (h : x.EndsIn Q F c) (hQ : ∀ a d, Q a d → R a d) (hF : ∀ d, F d → G d) : x.EndsIn R G c :=
  Ends.mono (F := fun _ => F) (G := fun _ => G) h hQ fun _ => hF

theorem EndsIn.and {Q R : α → Compilation → Prop} {F G : Compilation → Prop}
    (h : x.EndsIn Q F c) (k : x.EndsIn R G c) :
    x.EndsIn (fun a d => Q a d ∧ R a d) (fun d => F d ∧ G d) c := by
  unfold EndsIn at *
  rcases hx : x.run c with ⟨_ | _, d⟩
  · rw [hx] at h k
    exact ⟨h, k⟩
  · rw [hx] at h k
    exact ⟨h, k⟩

theorem EndsIn.of_run {Q : α → Compilation → Prop} {a : α} {d : Compilation}
    (h : x.EndsIn Q F c) (hx : x.run c = (.ok a, d)) : Q a d :=
  Ends.of_run (F := fun _ => F) h hx

theorem EndsIn.of_failed_run {Q : α → Compilation → Prop} {e : Fault} {d : Compilation}
    (h : x.EndsIn Q F c) (hx : x.run c = (.error e, d)) : F d :=
  Ends.of_failed_run (F := fun _ => F) h hx

theorem endsIn_iff_of_run {Q : α → Compilation → Prop} {a : α} {d : Compilation}
    (hx : x.run c = (.ok a, d)) : x.EndsIn Q F c ↔ Q a d := by
  unfold EndsIn
  rw [hx]

/-- A run that cannot fail has a result. -/
theorem EndsIn.exists_run {Q : α → Compilation → Prop} (h : x.EndsIn Q (fun _ => False) c) :
    ∃ a d, x.run c = (.ok a, d) ∧ Q a d := by
  unfold EndsIn at h
  rcases hx : x.run c with ⟨_ | a, d⟩
  · rw [hx] at h
    cases h
  · rw [hx] at h
    exact ⟨a, d, rfl, h⟩

theorem EndsIn.run_eq {a : α} {d : Compilation}
    (h : x.EndsIn (fun b e => b = a ∧ e = d) (fun _ => False) c) : x.run c = (.ok a, d) := by
  obtain ⟨b, e, hx, rfl, rfl⟩ := h.exists_run
  exact hx

theorem exists_run (h : (x.run c).1.isOk = true) : ∃ a d, x.run c = (.ok a, d) := by
  rcases hx : x.run c with ⟨_ | a, d⟩
  · rw [hx] at h
    cases h
  · exact ⟨a, d, rfl⟩

theorem exists_run_of_any {p : α → Bool} (h : (x.run c).1.toOption.any p = true) :
    ∃ a d, x.run c = (.ok a, d) ∧ p a = true := by
  rcases hx : x.run c with ⟨_ | a, d⟩
  · rw [hx] at h
    cases h
  · rw [hx] at h
    exact ⟨a, d, rfl, h⟩

end Compile

end OpenApi
