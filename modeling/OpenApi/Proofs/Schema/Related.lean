import OpenApi.Proofs.Induction
import Mathlib.Data.List.Forall2
/-! # Related compilations of one schema

Compiling a schema asks for the codecs of its references and does nothing else that depends on
its surroundings. So two compilations of one schema are related in whatever way the answers to
their references are: either as computations in two monads, or in the codecs that they yield. -/
namespace OpenApi

theorem bind_eq_ok {ε α β : Type} {x : Except ε α} {f : α → Except ε β} {b : β} :
    x >>= f = .ok b ↔ ∃ a, x = .ok a ∧ f a = .ok b := by
  cases x with
  | error e => exact ⟨nofun, nofun⟩
  | ok a => exact ⟨fun h => ⟨a, rfl, h⟩, fun ⟨_, h, hf⟩ => Except.ok.inj h ▸ hf⟩

theorem map_eq_ok {ε α β : Type} {x : Except ε α} {f : α → β} {b : β} :
    x.map f = .ok b ↔ ∃ a, x = .ok a ∧ f a = b := by
  cases x with
  | error e => exact ⟨nofun, nofun⟩
  | ok a => exact ⟨fun h => ⟨a, rfl, Except.ok.inj h⟩, fun ⟨_, h, hf⟩ => Except.ok.inj h ▸ congrArg _ hf⟩

theorem mapError_eq_ok {ε ε' α : Type} {x : Except ε α} {f : ε → ε'} {a : α} :
    x.mapError f = .ok a ↔ x = .ok a := by
  cases x with
  | error e => exact ⟨nofun, nofun⟩
  | ok b => exact ⟨fun h => congrArg _ (Except.ok.inj h), fun h => congrArg _ (Except.ok.inj h)⟩

theorem ofExcept_eq_ok {ε α : Type} {r : Except ε α} {a : α} :
    (ofExcept r : Except ε α) = .ok a ↔ r = .ok a := by
  cases r <;> exact Iff.rfl

theorem mapM_eq_ok {ε α β : Type} {f : α → Except ε β} {as : List α} {bs : List β}
    (h : as.mapM f = .ok bs) : List.Forall₂ (fun a b => f a = .ok b) as bs := by
  induction as generalizing bs with
  | nil =>
    cases h
    exact .nil
  | cons a as ih =>
    rw [List.mapM_cons] at h
    obtain ⟨b, hb, h⟩ := bind_eq_ok.1 h
    obtain ⟨bs, hbs, h⟩ := bind_eq_ok.1 h
    cases h
    exact .cons hb (ih hbs)

/-- A fold that fails does so at one of its steps. -/
theorem exists_of_foldlM_eq_error {ε α β : Type} {f : β → α → Except ε β} {as : List α} {b : β} {e : ε}
    (h : as.foldlM f b = .error e) : ∃ c, ∃ a ∈ as, f c a = .error e := by
  induction as generalizing b with
  | nil => cases h
  | cons a as ih =>
    rw [List.foldlM_cons] at h
    cases hstep : f b a with
    | error e' =>
      rw [hstep] at h
      cases h
      exact ⟨b, a, List.mem_cons_self, hstep⟩
    | ok next =>
      rw [hstep] at h
      obtain ⟨c, a', ha', hc⟩ := ih h
      exact ⟨c, a', List.mem_cons_of_mem a ha', hc⟩

theorem partners {α β : Type} {R : α → β → Prop} {as : List α} {bs : List β}
    (h : List.Forall₂ R as bs) :
    (∀ a ∈ as, ∃ b ∈ bs, R a b) ∧ ∀ b ∈ bs, ∃ a ∈ as, R a b := by
  induction h with
  | nil => exact ⟨fun _ ha => absurd ha List.not_mem_nil, fun _ hb => absurd hb List.not_mem_nil⟩
  | @cons a b as bs hab _ ih =>
    constructor
    · refine List.forall_mem_cons.mpr ⟨⟨b, List.mem_cons_self, hab⟩, fun a' ha => ?_⟩
      obtain ⟨b', hb, hR⟩ := ih.1 a' ha
      exact ⟨b', List.mem_cons_of_mem b hb, hR⟩
    · refine List.forall_mem_cons.mpr ⟨⟨a, List.mem_cons_self, hab⟩, fun b' hb => ?_⟩
      obtain ⟨a', ha, hR⟩ := ih.2 b' hb
      exact ⟨a', List.mem_cons_of_mem a ha, hR⟩

theorem forall₂_of_members {α β : Type} {R S : α → β → Prop} {as : List α} {bs : List β}
    (h : List.Forall₂ R as bs) (hS : ∀ a ∈ as, ∀ b, R a b → S a b) : List.Forall₂ S as bs := by
  have hmem := (List.forall₂_and_left as bs).mpr ⟨fun a ha => ha, h⟩
  exact hmem.imp fun a b hab => hS a hab.1 b hab.2

theorem forall₂_of_right_members {α β : Type} {R S : α → β → Prop} {as : List α} {bs : List β}
    (h : List.Forall₂ R as bs) (hS : ∀ b ∈ bs, ∀ a, R a b → S a b) : List.Forall₂ S as bs :=
  (forall₂_of_members (R := flip R) h.flip hS).flip

/-- A relation between codecs that agrees with how codecs are put together. -/
structure Codec.Congruence (R : Codec → Codec → Prop) : Prop where
  refl : ∀ c, R c c
  array : ∀ {c d}, R c d → R (.array c) (.array d)
  optional : ∀ {c d}, R c d → R (.optional c) (.optional d)
  maybe : ∀ {c d}, R c d → R (.maybe c) (.maybe d)
  record : ∀ {c d}, R c d → R (.record c) (.record d)
  interface : ∀ {fs gs}, List.Forall₂ (fun e d => e.1 = d.1 ∧ R e.2 d.2) fs gs →
    R (.interface fs) (.interface gs)
  oneOf : ∀ {cs ds}, List.Forall₂ R cs ds → R (.oneOf cs) (.oneOf ds)
  intersect : ∀ {a b c d}, R a c → R b d → R (.intersect a b) (.intersect c d)

namespace Schema

/-- The references that compiling a schema asks for. -/
def refs : Schema → List String
  | ref pointer => [pointer]
  | nullable s => refs s
  | optional s => refs s
  | union members => all members
  | intersection members => all members
  | array item => refs item
  | object fields none => fieldRefs fields
  | object fields (some s) => fieldRefs fields ++ refs s
  | _ => []
where
  all : List Schema → List String
    | [] => []
    | s :: rest => refs s ++ all rest
  fieldRefs : List (Key × Schema) → List String
    | [] => []
    | (_, s) :: rest => refs s ++ fieldRefs rest

/-- A relation between computations that agrees with how computations are put together. -/
structure Relates (m n : Type → Type) [Monad m] [MonadExceptOf Fault m] [Monad n]
    [MonadExceptOf Fault n] (R : (α : Type) → m α → n α → Prop) : Prop where
  pure : ∀ {α : Type} (a : α), R α (pure a) (pure a)
  throw : ∀ {α : Type} (e : Fault), R α (throw e) (throw e)
  bind : ∀ {α β : Type} {x : m α} {y : n α} {f : α → m β} {g : α → n β},
    R α x y → (∀ a, R β (f a) (g a)) → R β (x >>= f) (y >>= g)

/-- The faults of a schema itself, whatever its references stand for. -/
inductive OwnFault : Fault → Prop where
  | malformed : OwnFault .malformed
  | emptyIntersection : OwnFault .emptyIntersection
  | emptyEnumeration : OwnFault .emptyEnumeration

/-- As `Relates`, where of the faults only those of a schema itself have to be related. -/
structure RelatesOwn (m n : Type → Type) [Monad m] [MonadExceptOf Fault m] [Monad n]
    [MonadExceptOf Fault n] (R : (α : Type) → m α → n α → Prop) : Prop where
  pure : ∀ {α : Type} (a : α), R α (pure a) (pure a)
  throw : ∀ {α : Type} {e : Fault}, OwnFault e → R α (throw e) (throw e)
  bind : ∀ {α β : Type} {x : m α} {y : n α} {f : α → m β} {g : α → n β},
    R α x y → (∀ a, R β (f a) (g a)) → R β (x >>= f) (y >>= g)

theorem ownFault_of_intersectionCodec {cs : List Codec} {e : Fault}
    (h : intersectionCodec cs = .error e) : OwnFault e := by
  cases cs with
  | nil =>
    cases h
    exact .emptyIntersection
  | cons c rest => cases h

theorem ownFault_of_enumerationCodec {literals : List Value} {e : Fault}
    (h : enumerationCodec literals = .error e) : OwnFault e := by
  unfold enumerationCodec at h
  dsimp only at h
  split at h
  · split at h
    · cases h
    · cases h
      exact .emptyEnumeration
  · cases h
  · cases h

section Monads

variable {m n : Type → Type} [Monad m] [MonadExceptOf Fault m] [Monad n] [MonadExceptOf Fault n]
  {R : (α : Type) → m α → n α → Prop} {f : String → m Codec} {g : String → n Codec}

theorem Relates.own (hR : Relates m n R) : RelatesOwn m n R := ⟨hR.pure, fun _ => hR.throw _, hR.bind⟩

theorem RelatesOwn.of_except (hR : RelatesOwn m n R) {α : Type} {r : Except Fault α}
    (h : ∀ e, r = .error e → OwnFault e) : R α (ofExcept r) (ofExcept r) := by
  cases r with
  | error e => exact hR.throw (h e rfl)
  | ok a => exact hR.pure a

theorem RelatesOwn.compileAll (hR : RelatesOwn m n R) {members : List Schema}
    (h : ∀ s ∈ members, R _ (s.compile f) (s.compile g)) :
    R _ (compile.compileAll f members) (compile.compileAll g members) := by
  induction members with
  | nil => exact hR.pure []
  | cons s rest ih =>
    obtain ⟨hs, hrest⟩ := List.forall_mem_cons.mp h
    exact hR.bind hs fun c => hR.bind (ih hrest) fun cs => hR.pure (c :: cs)

theorem RelatesOwn.compileFields (hR : RelatesOwn m n R) {fields : List (Key × Schema)}
    (h : ∀ e ∈ fields, R _ (e.2.compile f) (e.2.compile g)) :
    R _ (compile.compileFields f fields) (compile.compileFields g fields) := by
  induction fields with
  | nil => exact hR.pure []
  | cons e rest ih =>
    obtain ⟨he, hrest⟩ := List.forall_mem_cons.mp h
    exact hR.bind he fun c => hR.bind (ih hrest) fun cs => hR.pure ((e.1, c) :: cs)

end Monads

theorem mem_all_refs {members : List Schema} {s : Schema} (hs : s ∈ members) {r : String}
    (hr : r ∈ s.refs) : r ∈ refs.all members := by
  induction members with
  | nil => cases hs
  | cons t rest ih =>
    rcases List.mem_cons.mp hs with rfl | hs
    · exact List.mem_append_left _ hr
    · exact List.mem_append_right _ (ih hs)

theorem mem_field_refs {fields : List (Key × Schema)} {e : Key × Schema} (he : e ∈ fields)
    {r : String} (hr : r ∈ e.2.refs) : r ∈ refs.fieldRefs fields := by
  induction fields with
  | nil => cases he
  | cons d rest ih =>
    rcases List.mem_cons.mp he with rfl | he
    · exact List.mem_append_left _ hr
    · exact List.mem_append_right _ (ih he)

theorem exists_of_mem_all_refs {members : List Schema} {r : String} (h : r ∈ refs.all members) :
    ∃ s ∈ members, r ∈ s.refs := by
  induction members with
  | nil => cases h
  | cons s rest ih =>
    rcases List.mem_append.mp h with hs | hrest
    · exact ⟨s, List.mem_cons_self, hs⟩
    · obtain ⟨t, ht, hr⟩ := ih hrest
      exact ⟨t, List.mem_cons_of_mem s ht, hr⟩

theorem exists_of_mem_field_refs {fields : List (Key × Schema)} {r : String}
    (h : r ∈ refs.fieldRefs fields) : ∃ e ∈ fields, r ∈ e.2.refs := by
  induction fields with
  | nil => cases h
  | cons e rest ih =>
    rcases List.mem_append.mp h with he | hrest
    · exact ⟨e, List.mem_cons_self, he⟩
    · obtain ⟨d, hd, hr⟩ := ih hrest
      exact ⟨d, List.mem_cons_of_mem e hd, hr⟩

/-- Compilations in two monads are related if the answers to every reference are. -/
theorem compile_related_own {m n : Type → Type} [Monad m] [MonadExceptOf Fault m] [Monad n]
    [MonadExceptOf Fault n] {R : (α : Type) → m α → n α → Prop} {f : String → m Codec}
    {g : String → n Codec} (hR : RelatesOwn m n R) (s : Schema) (h : ∀ r ∈ s.refs, R _ (f r) (g r)) :
    R _ (s.compile f) (s.compile g) := by
  induction s with
  | any | string | number | boolean | null | date => exact hR.pure _
  | malformed => exact hR.throw .malformed
  | ref p => exact h p (List.mem_singleton_self p)
  | nullable s ih => exact hR.bind (ih h) fun c => hR.pure (Codec.maybe c)
  | optional s ih => exact hR.bind (ih h) fun c => hR.pure (Codec.optional c)
  | array s ih => exact hR.bind (ih h) fun c => hR.pure (Codec.array c)
  | union members ih =>
    have hs : ∀ s ∈ members, R _ (s.compile f) (s.compile g) :=
      fun s hs => ih s hs fun r hr => h r (mem_all_refs hs hr)
    exact hR.bind (hR.compileAll hs) fun cs => hR.pure (Codec.oneOf cs)
  | intersection members ih =>
    have hs : ∀ s ∈ members, R _ (s.compile f) (s.compile g) :=
      fun s hs => ih s hs fun r hr => h r (mem_all_refs hs hr)
    exact hR.bind (hR.compileAll hs) fun cs =>
      hR.of_except fun _ => ownFault_of_intersectionCodec
  | enumeration literals => exact hR.of_except fun _ => ownFault_of_enumerationCodec
  | object fields additional ihf iha =>
    cases additional with
    | none =>
      have hf : ∀ e ∈ fields, R _ (e.2.compile f) (e.2.compile g) :=
        fun e he => ihf e he fun r hr => h r (mem_field_refs he hr)
      exact hR.bind (hR.compileFields hf) fun cs => hR.pure (objectCodec cs none)
    | some s =>
      have hf : ∀ e ∈ fields, R _ (e.2.compile f) (e.2.compile g) :=
        fun e he => ihf e he fun r hr =>
          h r (List.mem_append_left _ (mem_field_refs he hr))
      have hs : R _ (s.compile f) (s.compile g) :=
        iha s rfl fun r hr => h r (List.mem_append_right _ hr)
      exact hR.bind (hR.compileFields hf) fun cs =>
        hR.bind hs fun c => hR.pure (objectCodec cs (some c))

theorem compile_related {m n : Type → Type} [Monad m] [MonadExceptOf Fault m] [Monad n]
    [MonadExceptOf Fault n] {R : (α : Type) → m α → n α → Prop} {f : String → m Codec}
    {g : String → n Codec} (hR : Relates m n R) (s : Schema) (h : ∀ r ∈ s.refs, R _ (f r) (g r)) :
    R _ (s.compile f) (s.compile g) := compile_related_own hR.own s h

/-- A way in which relations between results become relations between computations. -/
structure Lifts (m n : Type → Type) [Monad m] [MonadExceptOf Fault m] [Monad n]
    [MonadExceptOf Fault n] (L : ∀ {α β : Type}, (α → β → Prop) → m α → n β → Prop) : Prop where
  pure : ∀ {α β : Type} {S : α → β → Prop} {a : α} {b : β}, S a b → L S (pure a) (pure b)
  throw : ∀ {α β : Type} {S : α → β → Prop} (e : Fault), L S (throw e) (throw e)
  bind : ∀ {α β γ δ : Type} {S : α → β → Prop} {T : γ → δ → Prop} {x : m α} {y : n β}
    {f : α → m γ} {g : β → n δ}, L S x y → (∀ a b, S a b → L T (f a) (g b)) →
      L T (x >>= f) (y >>= g)

section Codecs

variable {m n : Type → Type} [Monad m] [MonadExceptOf Fault m] [Monad n] [MonadExceptOf Fault n]
  {L : ∀ {α β : Type}, (α → β → Prop) → m α → n β → Prop} {R : Codec → Codec → Prop}
  {f : String → m Codec} {g : String → n Codec}

theorem Lifts.compileAll (hL : Lifts m n L) {members : List Schema}
    (h : ∀ s ∈ members, L R (s.compile f) (s.compile g)) :
    L (List.Forall₂ R) (compile.compileAll f members) (compile.compileAll g members) := by
  induction members with
  | nil => exact hL.pure .nil
  | cons s rest ih =>
    obtain ⟨hs, hrest⟩ := List.forall_mem_cons.mp h
    refine hL.bind hs fun c d hcd => hL.bind (ih hrest) fun cs ds hall => ?_
    exact hL.pure (.cons hcd hall)

theorem Lifts.compileFields (hL : Lifts m n L) {fields : List (Key × Schema)}
    (h : ∀ e ∈ fields, L R (e.2.compile f) (e.2.compile g)) :
    L (List.Forall₂ fun e d => e.1 = d.1 ∧ R e.2 d.2) (compile.compileFields f fields)
      (compile.compileFields g fields) := by
  induction fields with
  | nil => exact hL.pure .nil
  | cons e rest ih =>
    obtain ⟨he, hrest⟩ := List.forall_mem_cons.mp h
    refine hL.bind he fun c d hcd => hL.bind (ih hrest) fun cs ds hall => ?_
    exact hL.pure (.cons ⟨rfl, hcd⟩ hall)

theorem foldl_intersect_congruent (hR : Codec.Congruence R) {cs ds : List Codec}
    (h : List.Forall₂ R cs ds) {c d : Codec} (hcd : R c d) :
    R (cs.foldl .intersect c) (ds.foldl .intersect d) := by
  induction h generalizing c d with
  | nil => exact hcd
  | cons hab _ ih => exact ih (hR.intersect hcd hab)

theorem Lifts.intersectionCodec (hL : Lifts m n L) (hR : Codec.Congruence R) {cs ds : List Codec}
    (h : List.Forall₂ R cs ds) :
    L R (ofExcept (intersectionCodec cs)) (ofExcept (intersectionCodec ds)) := by
  cases h with
  | nil => exact hL.throw _
  | cons hab hrest => exact hL.pure (foldl_intersect_congruent hR hrest hab)

theorem Lifts.enumerationCodec (hL : Lifts m n L) (hR : Codec.Congruence R)
    (literals : List Value) :
    L R (ofExcept (enumerationCodec literals)) (ofExcept (enumerationCodec literals)) := by
  cases Schema.enumerationCodec literals with
  | error e => exact hL.throw e
  | ok c => exact hL.pure (hR.refl c)

theorem objectCodec_congruent (hR : Codec.Congruence R) {fs gs : List (Key × Codec)}
    (h : List.Forall₂ (fun e d => e.1 = d.1 ∧ R e.2 d.2) fs gs) :
    R (objectCodec fs none) (objectCodec gs none) ∧
      ∀ c d, R c d → R (objectCodec fs (some c)) (objectCodec gs (some d)) := by
  refine ⟨hR.interface h, fun c d hcd => ?_⟩
  cases h with
  | nil => exact hR.record hcd
  | cons hab hrest => exact hR.intersect (hR.interface (.cons hab hrest)) (hR.record hcd)

theorem compile_lifted (hL : Lifts m n L) (hR : Codec.Congruence R) (s : Schema)
    (h : ∀ r ∈ s.refs, L R (f r) (g r)) : L R (s.compile f) (s.compile g) := by
  induction s with
  | any | string | number | boolean | null | date => exact hL.pure (hR.refl _)
  | malformed => exact hL.throw _
  | ref p => exact h p (List.mem_singleton_self p)
  | nullable s ih => exact hL.bind (ih h) fun c d hcd => hL.pure (hR.maybe hcd)
  | optional s ih => exact hL.bind (ih h) fun c d hcd => hL.pure (hR.optional hcd)
  | array s ih => exact hL.bind (ih h) fun c d hcd => hL.pure (hR.array hcd)
  | union members ih =>
    have hs : ∀ s ∈ members, L R (s.compile f) (s.compile g) :=
      fun s hs => ih s hs fun r hr => h r (mem_all_refs hs hr)
    exact hL.bind (hL.compileAll hs) fun cs ds hall => hL.pure (hR.oneOf hall)
  | intersection members ih =>
    have hs : ∀ s ∈ members, L R (s.compile f) (s.compile g) :=
      fun s hs => ih s hs fun r hr => h r (mem_all_refs hs hr)
    exact hL.bind (hL.compileAll hs) fun cs ds hall => hL.intersectionCodec hR hall
  | enumeration literals => exact hL.enumerationCodec hR literals
  | object fields additional ihf iha =>
    cases additional with
    | none =>
      have hf : ∀ e ∈ fields, L R (e.2.compile f) (e.2.compile g) :=
        fun e he => ihf e he fun r hr => h r (mem_field_refs he hr)
      exact hL.bind (hL.compileFields hf) fun cs ds hall => hL.pure (objectCodec_congruent hR hall).1
    | some s =>
      have hf : ∀ e ∈ fields, L R (e.2.compile f) (e.2.compile g) :=
        fun e he => ihf e he fun r hr =>
          h r (List.mem_append_left _ (mem_field_refs he hr))
      have hs : L R (s.compile f) (s.compile g) :=
        iha s rfl fun r hr => h r (List.mem_append_right _ hr)
      exact hL.bind (hL.compileFields hf) fun cs ds hall =>
        hL.bind hs fun c d hcd => hL.pure ((objectCodec_congruent hR hall).2 c d hcd)

end Codecs

section Answers

variable {R : Codec → Codec → Prop} {f g : String → Except Fault Codec}

theorem compileAll_eq_ok {members : List Schema} {cs : List Codec} :
    compile.compileAll f members = .ok cs ↔
      List.Forall₂ (fun s c => s.compile f = .ok c) members cs := by
  induction members generalizing cs with
  | nil => exact ⟨fun h => Except.ok.inj h ▸ .nil, fun h => by cases h; rfl⟩
  | cons s rest ih =>
    rw [compile.compileAll, bind_eq_ok]
    constructor
    · rintro ⟨c, hc, hmore⟩
      obtain ⟨more, hrun, he⟩ := bind_eq_ok.mp hmore
      cases he
      exact .cons hc (ih.mp hrun)
    · rintro (_ | ⟨hc, hrest⟩)
      exact ⟨_, hc, bind_eq_ok.mpr ⟨_, ih.mpr hrest, rfl⟩⟩

theorem compileFields_eq_ok {fields : List (Key × Schema)} {cs : List (Key × Codec)} :
    compile.compileFields f fields = .ok cs ↔
      List.Forall₂ (fun e c => e.1 = c.1 ∧ e.2.compile f = .ok c.2) fields cs := by
  induction fields generalizing cs with
  | nil => exact ⟨fun h => Except.ok.inj h ▸ .nil, fun h => by cases h; rfl⟩
  | cons e rest ih =>
    rw [compile.compileFields, bind_eq_ok]
    constructor
    · rintro ⟨c, hc, hmore⟩
      obtain ⟨more, hrun, he⟩ := bind_eq_ok.mp hmore
      cases he
      exact .cons ⟨rfl, hc⟩ (ih.mp hrun)
    · rintro (_ | @⟨_, ⟨k, c⟩, _, _, ⟨rfl, hc⟩, hrest⟩)
      exact ⟨c, hc, bind_eq_ok.mpr ⟨_, ih.mpr hrest, rfl⟩⟩

/-- The schema compiles only if each of its references has an answer. -/
def AnsweredBy (f : String → Except Fault Codec) (s : Schema) : Prop :=
  ∀ c, s.compile f = .ok c → ∀ r ∈ s.refs, ∃ d, f r = .ok d

theorem answered_members {members : List Schema} (h : ∀ s ∈ members, AnsweredBy f s)
    {cs : List Codec} (hcs : compile.compileAll f members = .ok cs) :
    ∀ r ∈ refs.all members, ∃ d, f r = .ok d := by
  intro r hr
  obtain ⟨s, hs, hrs⟩ := exists_of_mem_all_refs hr
  obtain ⟨c, -, hc⟩ := (partners (compileAll_eq_ok.mp hcs)).1 s hs
  exact h s hs c hc r hrs

theorem answered_fields {fields : List (Key × Schema)} (h : ∀ e ∈ fields, AnsweredBy f e.2)
    {cs : List (Key × Codec)} (hcs : compile.compileFields f fields = .ok cs) :
    ∀ r ∈ refs.fieldRefs fields, ∃ d, f r = .ok d := by
  intro r hr
  obtain ⟨e, he, hre⟩ := exists_of_mem_field_refs hr
  obtain ⟨c, -, -, hc⟩ := (partners (compileFields_eq_ok.mp hcs)).1 e he
  exact h e he c.2 hc r hre

theorem answered (f : String → Except Fault Codec) (s : Schema) : AnsweredBy f s := by
  induction s with
  | any | malformed | string | number | boolean | null | date | enumeration =>
    intro c _ r hr
    cases hr
  | ref pointer =>
    intro c hc r hr
    rw [List.mem_singleton.mp hr]
    exact ⟨c, hc⟩
  | nullable s ih | optional s ih | array s ih =>
    intro c hc
    obtain ⟨d, hd, -⟩ := bind_eq_ok.mp hc
    exact ih d hd
  | union members ih | intersection members ih =>
    intro c hc
    obtain ⟨cs, hcs, -⟩ := bind_eq_ok.mp hc
    exact answered_members ih hcs
  | object fields additional ihf iha =>
    intro c hc
    cases additional with
    | none =>
      obtain ⟨cs, hcs, -⟩ := bind_eq_ok.mp hc
      exact answered_fields ihf hcs
    | some s =>
      obtain ⟨cs, hcs, hrest⟩ := bind_eq_ok.mp hc
      obtain ⟨d, hd, -⟩ := bind_eq_ok.mp hrest
      intro r hr
      rcases List.mem_append.mp hr with hr | hr
      · exact answered_fields ihf hcs r hr
      · exact iha s rfl d hd r hr

theorem lifts_success : Lifts (Except Fault) (Except Fault)
    (fun S x y => ∀ a, x = .ok a → ∃ b, y = .ok b ∧ S a b) where
  pure {_ _ _ a b} h _ ha := ⟨b, rfl, Except.ok.inj ha ▸ h⟩
  throw _ _ ha := nomatch ha
  bind hx hf c hc := by
    obtain ⟨a, ha, hc⟩ := bind_eq_ok.mp hc
    obtain ⟨b, hb, hab⟩ := hx a ha
    obtain ⟨d, hd, hcd⟩ := hf a b hab c hc
    exact ⟨d, bind_eq_ok.mpr ⟨b, hb, hd⟩, hcd⟩

/-- If every answer to a reference has a related one in another compilation, then so has the
codec of the whole schema. -/
theorem compile_congruent (hR : Codec.Congruence R) {s : Schema} {c : Codec}
    (h : ∀ r ∈ s.refs, ∀ c, f r = .ok c → ∃ d, g r = .ok d ∧ R c d)
    (hc : s.compile f = .ok c) : ∃ d, s.compile g = .ok d ∧ R c d :=
  compile_lifted lifts_success hR s h c hc

theorem congruence_eq : Codec.Congruence (· = ·) where
  refl _ := rfl
  array h := congrArg Codec.array h
  optional h := congrArg Codec.optional h
  maybe h := congrArg Codec.maybe h
  record h := congrArg Codec.record h
  interface h := by
    have he : List.Forall₂ (· = ·) _ _ := h.imp fun e d hed => Prod.ext hed.1 hed.2
    rw [List.forall₂_eq_eq_eq] at he
    rw [he]
  oneOf h := by
    rw [List.forall₂_eq_eq_eq] at h
    rw [h]
  intersect h k := by rw [h, k]

theorem compile_mono {s : Schema} {c : Codec} (h : ∀ r c, f r = .ok c → g r = .ok c)
    (hc : s.compile f = .ok c) : s.compile g = .ok c := by
  obtain ⟨d, hd, rfl⟩ := compile_congruent congruence_eq (fun r _ c hr => ⟨c, h r c hr, rfl⟩) hc
  exact hd

end Answers

end Schema

end OpenApi
