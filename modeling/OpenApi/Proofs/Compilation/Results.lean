import OpenApi.Proofs.Compilation.Runs
/-! # Results of a compilation

What holds of every result of a computation, whatever state it is started in. -/
namespace OpenApi.Compile

variable {α β : Type} {x : Compile α} {P : α → Prop}

def Gives (x : Compile α) (P : α → Prop) : Prop := ∀ c, x.EndsIn (fun a _ => P a) (fun _ => True) c

theorem Gives.of_run (h : x.Gives P) {a : α} {c d : Compilation} (hr : x.run c = (.ok a, d)) :
    P a := (h c).of_run hr

theorem gives_of_run (h : ∀ a c d, x.run c = (.ok a, d) → P a) : x.Gives P := by
  intro c
  unfold EndsIn
  rcases hx : x.run c with ⟨_ | a, d⟩
  · trivial
  · exact h a c d hx

theorem gives_true : x.Gives fun _ => True := gives_of_run fun _ _ _ _ => trivial

theorem gives_pure {a : α} (h : P a) : (pure a : Compile α).Gives P := fun _ => h

theorem gives_throw (e : Fault) : (throw e : Compile α).Gives P :=
  fun _ => (endsIn_throw e).mpr trivial

theorem gives_ofExcept {r : Except Fault α} (h : ∀ a, r = .ok a → P a) :
    (ofExcept r : Compile α).Gives P := fun _ => endsIn_of_except h trivial

theorem Gives.mono {Q : α → Prop} (h : x.Gives P) (hQ : ∀ a, P a → Q a) : x.Gives Q :=
  fun c => (h c).mono (fun a _ => hQ a) fun _ => id

theorem Gives.and {Q : α → Prop} (h : x.Gives P) (k : x.Gives Q) : x.Gives fun a => P a ∧ Q a :=
  fun c => ((h c).and (k c)).mono (fun _ _ => id) fun _ _ => trivial

theorem Gives.bind {f : α → Compile β} {Q : β → Prop} (h : x.Gives P)
    (hf : ∀ a, P a → (f a).Gives Q) : (x >>= f).Gives Q := by
  intro c
  rw [endsIn_bind]
  exact (h c).mono (fun a d ha => hf a ha d) fun _ => id

theorem gives_bind_ofExcept {r : Except Fault α} {f : α → Compile β} {Q : β → Prop}
    (hf : ∀ a, r = .ok a → (f a).Gives Q) : (ofExcept r >>= f).Gives Q :=
  (gives_ofExcept (P := fun a => r = .ok a) fun _ => id).bind hf

theorem gives_bind {f : α → Compile β} {Q : β → Prop} (hf : ∀ a, (f a).Gives Q) :
    (x >>= f).Gives Q := gives_true.bind fun a _ => hf a

theorem gives_mapM {f : α → Compile β} {R : α → β → Prop} {as : List α}
    (h : ∀ a ∈ as, (f a).Gives (R a)) : (as.mapM f).Gives (List.Forall₂ R as) := by
  induction as with
  | nil => exact gives_pure .nil
  | cons a as ih =>
    obtain ⟨ha, has⟩ := List.forall_mem_cons.1 h
    rw [List.mapM_cons]
    refine ha.bind fun b hb => (ih has).bind fun bs hbs => ?_
    exact gives_pure (.cons hb hbs)

theorem gives_foldlM {f : β → α → Compile β} {P : β → Prop} {as : List α}
    (h : ∀ b, P b → ∀ a ∈ as, (f b a).Gives P) {b : β} (hb : P b) :
    (as.foldlM f b).Gives P := by
  induction as generalizing b with
  | nil => exact gives_pure hb
  | cons a as ih =>
    rw [List.foldlM_cons]
    refine (h b hb a List.mem_cons_self).bind fun b' hb' => ?_
    exact ih (fun b hb a ha => h b hb a (List.mem_cons_of_mem _ ha)) hb'

end OpenApi.Compile
