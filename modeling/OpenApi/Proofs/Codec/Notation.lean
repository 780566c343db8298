import OpenApi.Proofs.Schema.Regular
/-! # Codecs of one notation

The notation of a codec is made of the notations of its parts, and a model is noted by its name
alone. So codecs that are put together alike, from models of the same names, have one notation, or
none of them has one. -/
namespace OpenApi.Codec

variable {c d : Codec}

structure NotedAlike (c d : Codec) : Prop where
  required : c.isRequired = d.isRequired
  noted : c.describe = d.describe
  present : c.present.describe = d.present.describe

theorem notedAlike_of_required (hc : c.isRequired = true) (hd : d.isRequired = true)
    (h : c.describe = d.describe) : NotedAlike c d where
  required := hc.trans hd.symm
  noted := h
  present := by rw [present_of_required hc, present_of_required hd, h]

theorem map_bind {ε α β γ : Type} (x : Except ε α) (f : α → β) (g : β → Except ε γ) :
    (x.map f >>= g) = (x >>= fun a => g (f a)) := by
  cases x <;> rfl

theorem describeFields_cons (k : Key) (c : Codec) (rest : List (Key × Codec)) :
    describe.describeFields ((k, c) :: rest) = (do
      let name ← k.writeText
      let text ← c.present.describe
      return (name ++ (if c.isRequired then ": " else "?: ") ++ text) ::
        (← describe.describeFields rest)) := by
  rw [describe.describeFields]
  refine congrArg (k.writeText >>= ·) (funext fun name => ?_)
  cases c with
  | optional inner => exact map_bind inner.describe _ _
  | _ => exact map_bind (describe _) _ _

theorem describeFields_eq {fs gs : List (Key × Codec)}
    (h : List.Forall₂ (fun e d => e.1 = d.1 ∧ NotedAlike e.2 d.2) fs gs) :
    describe.describeFields fs = describe.describeFields gs := by
  induction h with
  | nil => rfl
  | @cons e d fs gs hed _ ih =>
    obtain ⟨k, c⟩ := e
    obtain ⟨l, d⟩ := d
    obtain ⟨rfl, hcd⟩ : k = l ∧ NotedAlike c d := hed
    rw [describeFields_cons, describeFields_cons, hcd.present, hcd.required, ih]

theorem describeAll_eq {cs ds : List Codec} (h : cs.map describe = ds.map describe) :
    describe.describeAll cs = describe.describeAll ds := by
  induction cs generalizing ds with
  | nil =>
    rw [List.map_eq_nil_iff.mp h.symm]
  | cons c cs ih =>
    cases ds with
    | nil => cases h
    | cons d ds =>
      obtain ⟨hfirst, hrest⟩ := List.cons.inj h
      rw [describe.describeAll, describe.describeAll, hfirst, ih hrest]

theorem map_describe_eq {cs ds : List Codec} (h : List.Forall₂ NotedAlike cs ds) :
    cs.map describe = ds.map describe := by
  rw [← List.forall₂_eq_eq_eq, List.forall₂_map_left_iff, List.forall₂_map_right_iff]
  exact h.imp fun _ _ hcd => hcd.noted

theorem congruence_notedAlike : Congruence NotedAlike where
  refl _ := ⟨rfl, rfl, rfl⟩
  array h := notedAlike_of_required rfl rfl (by rw [describe, describe, h.noted])
  optional h := ⟨rfl, by rw [describe, describe, h.noted], h.noted⟩
  maybe h := notedAlike_of_required rfl rfl (by rw [describe, describe, h.noted])
  record h := notedAlike_of_required rfl rfl (by rw [describe, describe, h.noted])
  interface h := notedAlike_of_required rfl rfl (by
    rw [describe, describe, describeFields_eq h])
  oneOf h := notedAlike_of_required rfl rfl (by
    rw [describe, describe, describeAll_eq (map_describe_eq h)])
  intersect h k := notedAlike_of_required rfl rfl (by
    rw [describe, describe, h.noted, k.noted])

theorem notedAlike_model (name : String) {r s : String} {t u : Option Codec} :
    NotedAlike (.model name r t) (.model name s u) := notedAlike_of_required rfl rfl rfl

end OpenApi.Codec
