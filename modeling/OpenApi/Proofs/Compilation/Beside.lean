import OpenApi.Proofs.Codec.Notation
import OpenApi.Proofs.Compilation.Complete
import OpenApi.Proofs.Compilation.Results
/-! # Compilations side by side

Two compilations of one document go side by side, and the one behind does a part of what the one
ahead does. So it knows fewer references, and its models may have been cut at other places of a
cycle. As long as the one ahead succeeds, so does the one behind, and the codecs that both compile
from one schema have one notation. -/
namespace OpenApi

open Catalogue (Coherent)
open Compile

variable {document : Value} {α β γ δ : Type}

/-- No reference waits in either compilation, and the one ahead knows those of the one behind. -/
structure Behind (document : Value) (c e : Compilation) : Prop where
  first : Coherent document [] [] c.catalogue
  second : Coherent document [] [] e.catalogue
  within : c.catalogue.Within e.catalogue

/-- Whenever `y` succeeds ahead, then `x` succeeds behind it, stays behind, and has a related
result. -/
def Shadows (document : Value) (R : α → β → Prop) (x : Compile α) (y : Compile β) : Prop :=
  ∀ c e, Behind document c e → y.EndsIn
    (fun b f => e.catalogue.Within f.catalogue ∧
      x.EndsIn (fun a d => R a b ∧ Behind document d f) (fun _ => False) c)
    (fun _ => True) e

namespace Catalogue

theorem within_refl (c : Catalogue) : c.Within c := fun _ a ha => ⟨a, ha⟩

theorem Coherent.keys_subset {c k : Catalogue} (h : Coherent document [] [] c)
    (hk : Coherent document [] [] k) (hck : c.Within k) : c.models.keys ⊆ k.models.keys := by
  intro name hname
  obtain ⟨t, ht⟩ := Option.isSome_iff_exists.mp (Entries.has_iff.mpr hname)
  obtain ⟨r, hr⟩ := h.defined_owned ht
  obtain ⟨a, ha, rfl⟩ := h.owned hr
  obtain ⟨b, hb⟩ := hck r a ha
  rw [h.name_eq hk ha hb]
  apply Entries.has_iff.mp
  refine Option.isSome_iff_ne_none.mpr fun hnone => ?_
  have hundefined : b.target = none := (hk.defined_eq hb).symm.trans hnone
  exact absurd ((hk.pending_iff hb).mp hundefined) List.not_mem_nil

end Catalogue

theorem behind_start (document : Value) : Behind document .start .start :=
  ⟨Catalogue.coherent_empty document, Catalogue.coherent_empty document,
    Catalogue.within_refl _⟩

section Rules

variable {R : α → β → Prop} {S : γ → δ → Prop} {x : Compile α} {y : Compile β}

theorem shadows_pure {a : α} {b : β} (h : R a b) : Shadows document R (pure a) (pure b) :=
  fun _ _ hb => ⟨Catalogue.within_refl _, h, hb⟩

theorem shadows_throw (e : Fault) : Shadows document R x (throw e) := fun _ _ _ => trivial

theorem Shadows.mono {R' : α → β → Prop} (h : Shadows document R x y)
    (hR : ∀ a b, R a b → R' a b) : Shadows document R' x y := by
  intro c e hb
  refine (h c e hb).mono (fun b f hf => ?_) fun _ => id
  exact ⟨hf.1, hf.2.mono (fun a d had => ⟨hR a b had.1, had.2⟩) fun _ => id⟩

theorem Shadows.bind {f : α → Compile γ} {g : β → Compile δ} (h : Shadows document R x y)
    (hf : ∀ a b, R a b → Shadows document S (f a) (g b)) :
    Shadows document S (x >>= f) (y >>= g) := by
  intro c e hb
  refine endsIn_bind.mpr ((h c e hb).mono (fun b e' he' => ?_) fun _ => id)
  obtain ⟨hee', hx⟩ := he'
  obtain ⟨a, d, hrun, hab, hd⟩ := hx.exists_run
  refine (hf a b hab d e' hd).mono (fun b' f' hf' => ?_) fun _ => id
  exact ⟨hee'.trans hf'.1, endsIn_bind.mpr ((endsIn_iff_of_run hrun).mpr hf'.2)⟩

theorem shadows_bind_ofExcept {r : Except Fault α} {f : α → Compile γ} {g : α → Compile δ}
    (hf : ∀ a, r = .ok a → Shadows document S (f a) (g a)) :
    Shadows document S (ofExcept r >>= f) (ofExcept r >>= g) := by
  cases r with
  | error e => exact fun _ _ _ => trivial
  | ok a =>
    intro c e hb
    refine endsIn_bind.mpr (endsIn_ok.mpr ?_)
    refine (hf a rfl c e hb).mono (fun b f hbf => ?_) fun _ => id
    exact ⟨hbf.1, endsIn_bind.mpr (endsIn_ok.mpr hbf.2)⟩

theorem shadows_note (e e' : Event) :
    Shadows document (fun _ _ => True) (note e) (note e') :=
  fun _ _ hb => ⟨Catalogue.within_refl _, trivial, hb.first, hb.second, hb.within⟩

theorem shadows_catalogue : Shadows document
    (fun k l => k.models.keys ⊆ l.models.keys) catalogue catalogue :=
  fun _ _ hb => ⟨Catalogue.within_refl _, hb.first.keys_subset hb.second hb.within, hb⟩

theorem Shadows.and_gives {P : β → Prop} (h : Shadows document R x y) (hy : y.Gives P) :
    Shadows document (fun a b => R a b ∧ P b) x y := by
  intro c e hb
  refine ((h c e hb).and (hy e)).mono (fun b f hf => ?_) fun _ => fun _ => trivial
  exact ⟨hf.1.1, hf.1.2.mono (fun a d had => ⟨⟨had.1, hf.2⟩, had.2⟩) fun _ => id⟩

/-- The one behind may stay where it is, if what is done ahead could be done behind as well. -/
theorem shadows_idle {P : β → β → Prop} (h : Shadows document P y y) {a : α}
    (hR : ∀ b b', P b b' → R a b') : Shadows document R (pure a) y := by
  intro c e hb
  have hself : Behind document e e := ⟨hb.second, hb.second, Catalogue.within_refl _⟩
  refine (h e e hself).mono (fun b' f hf => ?_) fun _ => id
  obtain ⟨hef, hrun⟩ := hf
  obtain ⟨b, _, _, hbb, hbehind⟩ := hrun.exists_run
  exact ⟨hef, hR b b' hbb, hb.first, hbehind.second, hb.within.trans hef⟩

theorem Shadows.note_behind (h : Shadows document R x y) (e : Event) :
    Shadows document R (note e >>= fun _ => x) y :=
  fun c f hb => h { c with journal := c.journal ++ [e] } f ⟨hb.first, hb.second, hb.within⟩

theorem shadows_mapM {f : γ → Compile α} {g : γ → Compile β} {as : List γ}
    (h : ∀ a ∈ as, Shadows document R (f a) (g a)) :
    Shadows document (List.Forall₂ R) (as.mapM f) (as.mapM g) := by
  induction as with
  | nil => exact shadows_pure .nil
  | cons a as ih =>
    obtain ⟨ha, has⟩ := List.forall_mem_cons.mp h
    rw [List.mapM_cons, List.mapM_cons]
    refine ha.bind fun b d hbd => (ih has).bind fun bs ds hall => ?_
    exact shadows_pure (.cons hbd hall)

theorem shadows_foldlM {f : α → γ → Compile α} {g : β → γ → Compile β} {as : List γ}
    (h : ∀ p q, R p q → ∀ a ∈ as, Shadows document R (f p a) (g q a)) {p : α} {q : β}
    (hpq : R p q) : Shadows document R (as.foldlM f p) (as.foldlM g q) := by
  induction as generalizing p q with
  | nil => exact shadows_pure hpq
  | cons a as ih =>
    rw [List.foldlM_cons, List.foldlM_cons]
    refine (h p q hpq a List.mem_cons_self).bind fun p' q' hpq' => ?_
    exact ih (fun p q hpq a ha => h p q hpq a (List.mem_cons_of_mem _ ha)) hpq'

end Rules

theorem Behind.answer {c e : Compilation} (h : Behind document c e) {r : String} {codec : Codec}
    (hr : c.catalogue.answer [] r = .ok codec) :
    ∃ d, e.catalogue.answer [] r = .ok d ∧ codec.NotedAlike d := by
  obtain ⟨a, ha⟩ := Catalogue.known_of_answer hr
  obtain ⟨b, hb⟩ := h.within r a ha
  obtain ⟨-, t, -, hanswer, -⟩ := h.first.model_of_lookup ha
  obtain ⟨-, u, -, hahead, -⟩ := h.second.model_of_lookup hb
  rw [hr] at hanswer
  cases hanswer
  refine ⟨_, hahead, ?_⟩
  rw [h.first.name_eq h.second ha hb]
  exact Codec.notedAlike_model b.name

/-- A schema that compiles ahead compiles behind, to a codec of the same notation. -/
theorem compileSchema_shadows (document node : Value) :
    Shadows document Codec.NotedAlike (compileSchema document node)
      (compileSchema document node) := by
  intro c e hb
  unfold EndsIn
  rcases hrun : (compileSchema document node).run e with ⟨_ | codec, f⟩
  · trivial
  obtain ⟨hf, hef, hcodec⟩ := compileSchema_ok hb.second hrun
  have hcf : c.catalogue.Within f.catalogue := hb.within.trans hef.within
  refine ⟨hef.within, ?_⟩
  -- all references of the schema are known ahead now, and those behind are among them
  obtain ⟨a, d, hbehind, hdf⟩ := (compileSchema_succeeds hf hcodec hb.first hcf).exists_run
  obtain ⟨hd, -, ha⟩ := compileSchema_ok hb.first hbehind
  have hdf' : Behind document d f := ⟨hd, hf, hdf⟩
  obtain ⟨b, hb, hab⟩ := Schema.compile_congruent Codec.congruence_notedAlike
    (fun _ _ _ hr => hdf'.answer hr) ha
  rw [hcodec] at hb
  cases hb
  exact (endsIn_iff_of_run hbehind).mpr ⟨hab, hdf'⟩

end OpenApi
