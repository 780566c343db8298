import OpenApi.Proofs.Compilation.Recompiled
/-! # What a compilation gives for good

A schema that was compiled compiles to the same codec in every later state, and nothing changes
then. So the codecs of a list of schemas may all be asked for at its end. -/
namespace OpenApi

open Catalogue (Coherent)

/-- Compiled so far are some schemas of the document, whatever was noted in between. -/
def Visited (document : Value) (c : Compilation) : Prop :=
  ∃ d, Reachable document d ∧ d.catalogue = c.catalogue

theorem visited_start (document : Value) : Visited document .start := ⟨.start, .start, rfl⟩

theorem Visited.coherent {document : Value} {c : Compilation} (h : Visited document c) :
    ∃ abandoned, Coherent document abandoned abandoned c.catalogue := by
  obtain ⟨d, hd, hdc⟩ := h
  rw [← hdc]
  exact hd.coherent

section Lasting

variable {document : Value} {abandoned : List String} {α β : Type}

/-- Run in a state that knows at least this much, the computation gives `a` and changes nothing. -/
def Lasts (document : Value) (abandoned : List String) (x : Compile α) (a : α) (k : Catalogue) :
    Prop :=
  ∀ e : Compilation, Coherent document abandoned abandoned e.catalogue →
    k.Extends e.catalogue → x.run e = (.ok a, e)

theorem Lasts.mono {x : Compile α} {a : α} {k l : Catalogue}
    (h : Lasts document abandoned x a k) (hkl : k.Extends l) : Lasts document abandoned x a l :=
  fun e he hle => h e he (hkl.trans hle)

/-- Where the computation succeeds, the catalogue stays coherent, is only added to, and is related
to the result. -/
def Establishes (document : Value) (abandoned : List String) (R : α → Catalogue → Prop)
    (x : Compile α) : Prop :=
  ∀ c : Compilation, Coherent document abandoned abandoned c.catalogue →
    x.EndsIn (fun a d => Coherent document abandoned abandoned d.catalogue ∧
      c.catalogue.Extends d.catalogue ∧ R a d.catalogue) (fun _ => True) c

theorem establishes_pure {R : α → Catalogue → Prop} {a : α} (h : ∀ k, R a k) :
    Establishes document abandoned R (pure a) :=
  fun c hc => ⟨hc, Catalogue.extends_refl _, h c.catalogue⟩

theorem Establishes.map {R : α → Catalogue → Prop} {S : β → Catalogue → Prop} {x : Compile α}
    {f : α → β} (h : Establishes document abandoned R x) (hRS : ∀ a k, R a k → S (f a) k) :
    Establishes document abandoned S (do return f (← x)) := by
  intro c hc
  refine Compile.endsIn_bind.mpr ((h c hc).mono (fun a d had => ?_) fun _ => id)
  exact ⟨had.1, had.2.1, hRS a _ had.2.2⟩

theorem establishes_mapM {R : α → β → Catalogue → Prop} {f : α → Compile β} {as : List α}
    (hmono : ∀ a b {k l : Catalogue}, R a b k → k.Extends l → R a b l)
    (h : ∀ a ∈ as, Establishes document abandoned (R a) (f a)) :
    Establishes document abandoned (fun bs k => List.Forall₂ (fun a b => R a b k) as bs)
      (as.mapM f) := by
  induction as with
  | nil => exact establishes_pure fun _ => .nil
  | cons a as ih =>
    obtain ⟨ha, has⟩ := List.forall_mem_cons.mp h
    intro c hc
    rw [List.mapM_cons]
    refine Compile.endsIn_bind.mpr ((ha c hc).mono (fun b d hb => ?_) fun _ => id)
    obtain ⟨hd, hcd, hb⟩ := hb
    refine Compile.endsIn_bind.mpr ((ih has d hd).mono (fun bs e hbs => ?_) fun _ => id)
    obtain ⟨he, hde, hbs⟩ := hbs
    exact ⟨he, hcd.trans hde, .cons (hmono a b hb hde) hbs⟩

theorem compileSchema_lasts (node : Value) :
    Establishes document abandoned (Lasts document abandoned (compileSchema document node))
      (compileSchema document node) := by
  intro c hc
  unfold Compile.EndsIn
  rcases hrun : (compileSchema document node).run c with ⟨_ | codec, d⟩
  · trivial
  obtain ⟨hd, hcd, hcodec⟩ := compileSchema_ok hc hrun
  refine ⟨hd, hcd, fun e he hde => ?_⟩
  -- answers are never taken back, so the schema compiles from those of `e` as well
  have hlater : (Schema.ofValue node).compile (e.catalogue.answer abandoned) = .ok codec :=
    Schema.compile_mono (fun _ _ => hde.answer) hcodec
  exact Schema.compile_related (relates_settles e) _ (fun r _ => modelCodec_settles he _ r) codec
    hlater

end Lasting

end OpenApi
