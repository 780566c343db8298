import OpenApi.Proofs.Compilation.Runs
/-! # Coherent catalogues

A catalogue is coherent if the codec of each alias is compiled from the target of its reference,
where every reference stands for its own alias, except for those that were pending at the time.
A pending reference is either abandoned by an earlier failure, or its compilation led to this one.
Compiling a schema keeps a catalogue coherent, and its codec is what the catalogue answers. -/
namespace OpenApi

open Relation (TransGen ReflTransGen)

def Refers (document : Value) (r s : String) : Prop :=
  ∃ target, Pointer.resolve document r = .ok target ∧ s ∈ (Schema.ofValue target).refs

namespace Catalogue

/-- What a reference stands for, if those in `pending` are still without a codec. -/
def answer (c : Catalogue) (pending : List String) (ref : String) : Except Fault Codec :=
  match c.lookup ref with
  | none => .error .malformed
  | some a =>
    if ref ∈ pending then .ok .unknown
    else if a.target.isSome then .ok a.codec
    else .error .malformed

theorem answer_eq_ok {k : Catalogue} {codec : Codec} {pending : List String} {r : String}
    (h : k.answer pending r = .ok codec) :
    ∃ a, k.lookup r = some a ∧ ((r ∈ pending ∧ codec = .unknown) ∨
      (r ∉ pending ∧ a.target.isSome = true ∧ codec = a.codec)) := by
  unfold answer at h
  cases ha : k.lookup r with
  | none =>
    rw [ha] at h
    cases h
  | some a =>
    rw [ha] at h
    refine ⟨a, rfl, ?_⟩
    by_cases hr : r ∈ pending
    · simp only [hr, if_true] at h
      cases h
      exact Or.inl ⟨hr, rfl⟩
    · simp only [hr, if_false] at h
      by_cases ht : a.target.isSome = true
      · rw [if_pos ht] at h
        cases h
        exact Or.inr ⟨hr, ht, rfl⟩
      · rw [if_neg ht] at h
        cases h

theorem known_of_answer {k : Catalogue} {codec : Codec} {waiting : List String} {r : String}
    (h : k.answer waiting r = .ok codec) : ∃ a, k.lookup r = some a := by
  obtain ⟨a, ha, -⟩ := answer_eq_ok h
  exact ⟨a, ha⟩

/-- No alias is lost or renamed, and none that has a codec is changed. -/
def Extends (c d : Catalogue) : Prop :=
  ∀ r a, c.lookup r = some a →
    ∃ b, d.lookup r = some b ∧ b.name = a.name ∧ ∀ t, a.target = some t → b = a

theorem extends_refl (c : Catalogue) : c.Extends c :=
  fun _ a h => ⟨a, h, rfl, fun _ _ => rfl⟩

theorem Extends.trans {c d e : Catalogue} (h : c.Extends d) (k : d.Extends e) : c.Extends e := by
  intro r a ha
  obtain ⟨b, hb, hn, hab⟩ := h r a ha
  obtain ⟨b', hb', hn', hbb⟩ := k r b hb
  refine ⟨b', hb', hn'.trans hn, fun t ht => ?_⟩
  have he := hab t ht
  subst he
  exact hbb t ht

theorem Extends.answer {c d : Catalogue} (h : c.Extends d) {pending : List String} {r : String}
    {x : Codec} (hx : c.answer pending r = .ok x) : d.answer pending r = .ok x := by
  unfold Catalogue.answer at hx ⊢
  cases ha : c.lookup r with
  | none =>
    rw [ha] at hx
    cases hx
  | some a =>
    rw [ha] at hx
    obtain ⟨b, hb, -, hab⟩ := h r a ha
    rw [hb]
    by_cases hp : r ∈ pending
    · simpa only [hp, if_true] using hx
    · simp only [hp, if_false] at hx ⊢
      cases ht : a.target with
      | none => simp [ht] at hx
      | some t => rwa [hab t ht]

/-- The aliases, the names and the codecs of a catalogue fit together. -/
structure Coherent (document : Value) (abandoned pending : List String) (c : Catalogue) :
    Prop where
  ref_eq : ∀ {r a}, c.lookup r = some a → a.ref = r
  owner_eq : ∀ {r a}, c.lookup r = some a → c.owners.get? a.name = some r
  owned : ∀ {n r}, c.owners.get? n = some r → ∃ a, c.lookup r = some a ∧ a.name = n
  defined_eq : ∀ {r a}, c.lookup r = some a → c.defined.get? a.name = a.target
  defined_owned : ∀ {n t}, c.defined.get? n = some t → ∃ r, c.owners.get? n = some r
  pending_iff : ∀ {r a}, c.lookup r = some a → (a.target = none ↔ r ∈ pending)
  pending_known : ∀ r ∈ pending, ∃ a, c.lookup r = some a
  abandoned_pending : abandoned ⊆ pending
  origin : ∀ {r a}, c.lookup r = some a → ∃ target, Pointer.resolve document r = .ok target ∧
    Naming.modelName r target = .ok a.name ∧
    ∀ t, a.target = some t → ∃ waiting : List String,
      (∀ p ∈ waiting, p ∈ abandoned ∨ ReflTransGen (Refers document) p r) ∧
      (Schema.ofValue target).compile (c.answer waiting) = .ok t

theorem coherent_empty (document : Value) : Coherent document [] [] ∅ where
  ref_eq h := nomatch h
  owner_eq h := nomatch h
  owned h := nomatch h
  defined_eq h := nomatch h
  defined_owned h := nomatch h
  pending_iff h := nomatch h
  pending_known _ h := absurd h List.not_mem_nil
  abandoned_pending := List.Subset.refl []
  origin h := nomatch h

variable {document : Value} {abandoned pending : List String} {c d : Catalogue}
  {ref name : String} {t : Codec}

theorem Coherent.not_pending (h : Coherent document abandoned pending c)
    (hn : c.lookup ref = none) : ref ∉ pending := by
  intro hp
  obtain ⟨a, ha⟩ := h.pending_known ref hp
  rw [hn] at ha
  cases ha

theorem Coherent.isDefined_iff (h : Coherent document abandoned pending c) {a : Alias}
    (ha : c.lookup ref = some a) : c.isDefined a.name = true ↔ ref ∉ pending := by
  rw [← h.pending_iff ha, Catalogue.isDefined, Entries.has, h.defined_eq ha]
  cases a.target <;> simp

theorem Coherent.answer_known (h : Coherent document abandoned pending c) {a : Alias}
    (ha : c.lookup ref = some a) :
    c.answer pending ref = .ok (if c.isDefined a.name then a.codec else .unknown) := by
  unfold Catalogue.answer
  rw [ha]
  by_cases hp : ref ∈ pending
  · have hd : ¬ c.isDefined a.name = true := by
      rw [h.isDefined_iff ha]
      exact fun hn => hn hp
    simp [hp, hd]
  · have hd : c.isDefined a.name = true := (h.isDefined_iff ha).mpr hp
    have ht : a.target.isSome = true := by
      rw [Option.isSome_iff_ne_none]
      exact fun hn => hp ((h.pending_iff ha).mp hn)
    simp [hp, hd, ht]

theorem Coherent.claim_eq (h : Coherent document abandoned pending c)
    (hn : c.lookup ref = none) (hc : c.claim name ref = .ok d) :
    c.owners.get? name = none ∧
      d = { c with aliases := c.aliases.put ref ⟨name, ref, none⟩
                   owners := c.owners.put name ref } := by
  unfold claim at hc
  cases ho : c.owners.get? name with
  | none =>
    rw [ho] at hc
    exact ⟨rfl, (Except.ok.inj hc).symm⟩
  | some owner =>
    obtain ⟨a, ha, -⟩ := h.owned ho
    rw [ho] at hc
    by_cases he : owner = ref
    · rw [he, hn] at ha
      cases ha
    · simp [he] at hc

theorem aliases_of_claim (hc : c.claim name ref = .ok d) :
    d.aliases = c.aliases.put ref ⟨name, ref, none⟩ := by
  unfold claim at hc
  split at hc
  · cases hc
    rfl
  · split at hc
    · cases hc
      rfl
    · cases hc

theorem lookup_claimed (r : String) :
    ({ c with aliases := c.aliases.put ref ⟨name, ref, none⟩
              owners := c.owners.put name ref } : Catalogue).lookup r =
      if r = ref then some ⟨name, ref, none⟩ else c.lookup r := by
  simp only [lookup, Entries.get?_put, beq_iff_eq]

theorem lookup_claimed_cases {r : String} {a : Alias}
    (ha : ({ c with aliases := c.aliases.put ref ⟨name, ref, none⟩
                    owners := c.owners.put name ref } : Catalogue).lookup r = some a) :
    (r = ref ∧ a = ⟨name, ref, none⟩) ∨ (r ≠ ref ∧ c.lookup r = some a) := by
  rw [lookup_claimed] at ha
  by_cases hr : r = ref
  · rw [if_pos hr] at ha
    exact .inl ⟨hr, (Option.some.inj ha).symm⟩
  · rw [if_neg hr] at ha
    exact .inr ⟨hr, ha⟩

theorem Coherent.extends_claim (h : Coherent document abandoned pending c)
    (hn : c.lookup ref = none) (hc : c.claim name ref = .ok d) : c.Extends d := by
  obtain ⟨-, rfl⟩ := h.claim_eq hn hc
  intro r a ha
  have hr : r ≠ ref := by
    rintro rfl
    rw [hn] at ha
    cases ha
  exact ⟨a, by rw [lookup_claimed, if_neg hr, ha], rfl, fun _ _ => rfl⟩

theorem Coherent.claim (h : Coherent document abandoned pending c)
    (hn : c.lookup ref = none) {target : Value} (ht : Pointer.resolve document ref = .ok target)
    (hname : Naming.modelName ref target = .ok name) (hc : c.claim name ref = .ok d) :
    Coherent document abandoned (ref :: pending) d := by
  have hext := h.extends_claim hn hc
  obtain ⟨hfree, rfl⟩ := h.claim_eq hn hc
  have old : ∀ {r a}, r ≠ ref → c.lookup r = some a → a.name ≠ name := by
    rintro r a - ha rfl
    rw [h.owner_eq ha] at hfree
    cases hfree
  constructor
  · intro r a ha
    rcases lookup_claimed_cases ha with ⟨hr, rfl⟩ | ⟨hr, ha⟩
    · exact hr.symm
    · exact h.ref_eq ha
  · intro r a ha
    simp only [Entries.get?_put, beq_iff_eq]
    rcases lookup_claimed_cases ha with ⟨hr, rfl⟩ | ⟨hr, ha⟩
    · simp [hr]
    · rw [if_neg (old hr ha)]
      exact h.owner_eq ha
  · intro n r ho
    simp only [Entries.get?_put, beq_iff_eq] at ho
    by_cases hname : n = name
    · rw [if_pos hname] at ho
      cases ho
      exact ⟨_, by rw [lookup_claimed, if_pos rfl], hname.symm⟩
    · rw [if_neg hname] at ho
      obtain ⟨a, ha, han⟩ := h.owned ho
      have hr : r ≠ ref := by
        rintro rfl
        rw [hn] at ha
        cases ha
      exact ⟨a, by rw [lookup_claimed, if_neg hr, ha], han⟩
  · intro r a ha
    rcases lookup_claimed_cases ha with ⟨hr, rfl⟩ | ⟨hr, ha⟩
    · cases hd : c.defined.get? name with
      | none => rfl
      | some t =>
        obtain ⟨o, ho⟩ := h.defined_owned hd
        rw [hfree] at ho
        cases ho
    · exact h.defined_eq ha
  · intro n t hd
    obtain ⟨r, hr⟩ := h.defined_owned hd
    simp only [Entries.get?_put, beq_iff_eq]
    by_cases hname : n = name
    · exact ⟨ref, if_pos hname⟩
    · exact ⟨r, by rw [if_neg hname, hr]⟩
  · intro r a ha
    rcases lookup_claimed_cases ha with ⟨hr, rfl⟩ | ⟨hr, ha⟩
    · simp [hr]
    · rw [h.pending_iff ha]
      simp [hr]
  · intro r hr
    rcases List.mem_cons.mp hr with rfl | hr
    · exact ⟨_, by rw [lookup_claimed, if_pos rfl]⟩
    · obtain ⟨a, ha⟩ := h.pending_known r hr
      obtain ⟨b, hb, -⟩ := hext r a ha
      exact ⟨b, hb⟩
  · exact fun r hr => List.mem_cons_of_mem ref (h.abandoned_pending hr)
  · intro r a ha
    rcases lookup_claimed_cases ha with ⟨hr, rfl⟩ | ⟨hr, ha⟩
    · subst hr
      exact ⟨target, ht, hname, nofun⟩
    · obtain ⟨v, hv, hnv, horigin⟩ := h.origin ha
      refine ⟨v, hv, hnv, fun t hat => ?_⟩
      obtain ⟨waiting, hw, hcomp⟩ := horigin t hat
      exact ⟨waiting, hw, Schema.compile_mono (fun _ _ => hext.answer) hcomp⟩

theorem lookup_define (a : Alias) (r : String) :
    (c.define a t).lookup r =
      if r = a.ref then some { a with target := some t } else c.lookup r := by
  simp only [lookup, define, Entries.get?_put, beq_iff_eq]

theorem lookup_define_cases {b a : Alias} {r : String} (ha : (c.define b t).lookup r = some a) :
    (r = b.ref ∧ a = { b with target := some t }) ∨ (r ≠ b.ref ∧ c.lookup r = some a) := by
  rw [lookup_define] at ha
  by_cases hr : r = b.ref
  · rw [if_pos hr] at ha
    exact .inl ⟨hr, (Option.some.inj ha).symm⟩
  · rw [if_neg hr] at ha
    exact .inr ⟨hr, ha⟩

theorem extends_define (hl : c.lookup ref = some ⟨name, ref, none⟩) :
    c.Extends (c.define ⟨name, ref, none⟩ t) := by
  intro r a ha
  rw [lookup_define]
  by_cases hr : r = ref
  · subst hr
    rw [hl] at ha
    cases ha
    exact ⟨_, if_pos rfl, rfl, nofun⟩
  · exact ⟨a, by rw [if_neg hr, ha], rfl, fun _ _ => rfl⟩

theorem answer_define (hp : ref ∉ pending) :
    (c.define ⟨name, ref, none⟩ t).answer pending ref = .ok (.model name ref (some t)) := by
  unfold answer
  rw [lookup_define, if_pos rfl]
  simp only [if_neg hp]
  rfl

theorem Coherent.define (h : Coherent document abandoned (ref :: pending) c)
    (hl : c.lookup ref = some ⟨name, ref, none⟩) (hp : ref ∉ pending)
    (hsub : abandoned ⊆ pending)
    (hpath : ∀ p ∈ pending, p ∈ abandoned ∨ ReflTransGen (Refers document) p ref)
    (ht : ∀ target, Pointer.resolve document ref = .ok target →
      (Schema.ofValue target).compile (c.answer (ref :: pending)) = .ok t) :
    Coherent document abandoned pending (c.define ⟨name, ref, none⟩ t) := by
  have hext : c.Extends (c.define ⟨name, ref, none⟩ t) := extends_define hl
  have other : ∀ {r a}, r ≠ ref → c.lookup r = some a → a.name ≠ name := by
    rintro r a hr ha rfl
    have ho := h.owner_eq ha
    rw [h.owner_eq hl] at ho
    exact hr (Option.some.inj ho).symm
  constructor
  · intro r a ha
    rcases lookup_define_cases ha with ⟨hr, rfl⟩ | ⟨hr, ha⟩
    · exact hr.symm
    · exact h.ref_eq ha
  · intro r a ha
    rcases lookup_define_cases ha with ⟨hr, rfl⟩ | ⟨hr, ha⟩
    · rw [hr]
      have ho := h.owner_eq hl
      exact ho
    · exact h.owner_eq ha
  · intro n r ho
    obtain ⟨a, ha, han⟩ := h.owned ho
    obtain ⟨b, hb, hba, -⟩ := hext r a ha
    exact ⟨b, hb, hba.trans han⟩
  · intro r a ha
    simp only [Catalogue.define, Entries.get?_put, beq_iff_eq]
    rcases lookup_define_cases ha with ⟨hr, rfl⟩ | ⟨hr, ha⟩
    · exact if_pos rfl
    · rw [if_neg (other hr ha)]
      exact h.defined_eq ha
  · intro n u hd
    simp only [Catalogue.define, Entries.get?_put, beq_iff_eq] at hd
    by_cases hn : n = name
    · exact ⟨ref, hn ▸ h.owner_eq hl⟩
    · rw [if_neg hn] at hd
      exact h.defined_owned hd
  · intro r a ha
    rcases lookup_define_cases ha with ⟨hr, rfl⟩ | ⟨hr, ha⟩
    · simp [hr, hp]
    · rw [h.pending_iff ha]
      simp [hr]
  · intro r hr
    obtain ⟨a, ha⟩ := h.pending_known r (List.mem_cons_of_mem ref hr)
    obtain ⟨b, hb, -⟩ := hext r a ha
    exact ⟨b, hb⟩
  · exact hsub
  · intro r a ha
    rcases lookup_define_cases ha with ⟨hr, rfl⟩ | ⟨hr, ha⟩
    · subst hr
      obtain ⟨v, hv, hnv, -⟩ := h.origin hl
      refine ⟨v, hv, hnv, fun u hu => ⟨r :: pending, ?_, ?_⟩⟩
      · intro p hp
        rcases List.mem_cons.mp hp with rfl | hp
        · exact Or.inr .refl
        · exact hpath p hp
      · cases hu
        exact Schema.compile_mono (fun _ _ => hext.answer) (ht v hv)
    · obtain ⟨v, hv, hnv, horigin⟩ := h.origin ha
      refine ⟨v, hv, hnv, fun u hu => ?_⟩
      obtain ⟨waiting, hw, hcomp⟩ := horigin u hu
      exact ⟨waiting, hw, Schema.compile_mono (fun _ _ => hext.answer) hcomp⟩

end Catalogue

open Catalogue (Coherent)

abbrev Asking : Type → Type := ReaderT (String → Except Fault Codec) (Except Fault)

def asked (ref : String) : Asking Codec := fun answer => answer ref

/-- Run in a state of `I`, a compilation stays there and only adds to the catalogue. It yields
what `y` yields from the answers of the catalogue at its end, or of any later one. -/
def Follows (I F : Compilation → Prop) (pending : List String) (α : Type) (x : Compile α)
    (y : Asking α) : Prop :=
  ∀ c, I c → x.EndsIn
    (fun a d => I d ∧ c.catalogue.Extends d.catalogue ∧
      ∀ e, d.catalogue.Extends e → y (e.answer pending) = .ok a) F c

theorem relates_follows {I F : Compilation → Prop} (hF : ∀ c, I c → F c)
    (pending : List String) : Schema.Relates Compile Asking (Follows I F pending) where
  pure a c hc := ⟨hc, Catalogue.extends_refl _, fun _ _ => rfl⟩
  throw _ c hc := hF c hc
  bind {_ _ x y f g} hx hf c hc := by
    refine Compile.endsIn_bind.mpr ((hx c hc).mono (fun a d had => ?_) fun _ hd => hd)
    obtain ⟨hd, hcd, hy⟩ := had
    refine (hf a d hd).mono (fun b e hbe => ?_) fun _ he => he
    obtain ⟨he, hde, hg⟩ := hbe
    refine ⟨he, hcd.trans hde, fun k hk => ?_⟩
    exact bind_eq_ok.mpr ⟨a, hy k (hde.trans hk), hg k hk⟩

theorem relates_answer (answer : String → Except Fault Codec) :
    Schema.Relates Asking (Except Fault) (fun _ y r => y answer = r) where
  pure _ := rfl
  throw _ := rfl
  bind {_ _ x y f g} hx hf := by
    subst hx
    show x answer >>= (fun a => f a answer) = x answer >>= g
    exact congrArg _ (funext hf)

theorem compile_follows {I F : Compilation → Prop} (hF : ∀ c, I c → F c)
    {pending : List String} {s : Schema} {model : String → Compile Codec}
    (h : ∀ r ∈ s.refs, Follows I F pending Codec (model r) (asked r)) :
    Follows I F pending Codec (s.compile model) (s.compile asked) :=
  Schema.compile_related (relates_follows hF pending) s h

theorem compile_asked (s : Schema) (answer : String → Except Fault Codec) :
    s.compile asked answer = s.compile answer :=
  Schema.compile_related (relates_answer answer) s fun _ _ => rfl

section Models

variable {document : Value} {abandoned : List String}

def Waits (document : Value) (abandoned pending : List String) (c : Compilation) : Prop :=
  Coherent document abandoned pending c.catalogue

/-- A state whose catalogue is coherent, whichever references were left without a codec. -/
def Stopped (document : Value) (abandoned : List String) (c : Compilation) : Prop :=
  ∃ pending, Coherent document abandoned pending c.catalogue

theorem stopped_of_waits {pending : List String} (c : Compilation)
    (h : Waits document abandoned pending c) : Stopped document abandoned c := ⟨pending, h⟩

theorem lookup_of_extends {pending : List String} {c d : Catalogue} {ref name : String}
    (h : Coherent document abandoned (ref :: pending) d) (hcd : c.Extends d)
    (hl : c.lookup ref = some ⟨name, ref, none⟩) : d.lookup ref = some ⟨name, ref, none⟩ := by
  obtain ⟨⟨n, r, t⟩, hb, rfl, -⟩ := hcd ref _ hl
  have hr : r = ref := h.ref_eq hb
  have ht : t = none := (h.pending_iff hb).mpr List.mem_cons_self
  rw [hb, hr, ht]

/-- The codec of a reference is what the catalogue answers for it. The references under way, which
lead to this one, are met as pending below it. -/
theorem modelCodec_follows (depth : Nat) {pending : List String} {ref : String}
    (hpath : ∀ p ∈ pending, p ∈ abandoned ∨ TransGen (Refers document) p ref) :
    Follows (Waits document abandoned pending) (Stopped document abandoned) pending Codec
      (modelCodec document depth ref) (asked ref) := by
  induction depth generalizing pending ref with
  | zero => exact fun c hc => stopped_of_waits c hc
  | succ depth ih =>
    intro c hc
    have hstop := stopped_of_waits c hc
    unfold modelCodec
    refine Compile.endsIn_bind.mpr (Compile.endsIn_of_except (fun target ht => ?_) hstop)
    refine Compile.endsIn_bind.mpr (Compile.endsIn_of_except (fun name hname => ?_) hstop)
    refine Compile.endsIn_bind.mpr (Compile.endsIn_catalogue.mpr ?_)
    cases hl : c.catalogue.lookup ref with
    | some a =>
      refine Compile.endsIn_bind.mpr (Compile.endsIn_catalogue.mpr ?_)
      refine (Compile.endsIn_pure _).mpr ⟨hc, Catalogue.extends_refl _, fun e he => ?_⟩
      exact he.answer (hc.answer_known hl)
    | none =>
      refine Compile.endsIn_bind.mpr (Compile.endsIn_catalogue.mpr ?_)
      refine Compile.endsIn_bind.mpr (Compile.endsIn_of_except (fun k hk => ?_) hstop)
      have hclaim := hc.claim hl ht hname hk
      have hext := hc.extends_claim hl hk
      have hlk : k.lookup ref = some ⟨name, ref, none⟩ := by
        obtain ⟨-, rfl⟩ := hc.claim_eq hl hk
        rw [Catalogue.lookup_claimed, if_pos rfl]
      refine Compile.endsIn_bind.mpr (Compile.endsIn_setCatalogue.mpr ?_)
      refine Compile.endsIn_bind.mpr (Compile.endsIn_note.mpr ?_)
      have hrefs : ∀ r ∈ (Schema.ofValue target).refs,
          Follows (Waits document abandoned (ref :: pending)) (Stopped document abandoned)
            (ref :: pending) Codec (modelCodec document depth r) (asked r) := by
        intro r hr
        have hedge : Refers document ref r := ⟨target, ht, hr⟩
        refine ih fun p hp => ?_
        rcases List.mem_cons.mp hp with rfl | hp
        · exact Or.inr (.single hedge)
        · exact (hpath p hp).imp_right fun hpr => hpr.tail hedge
      have hwait : Waits document abandoned (ref :: pending)
          ⟨k, c.frozen, c.journal ++ [.compilingModel name ref]⟩ := hclaim
      refine Compile.endsIn_bind.mpr
        ((compile_follows stopped_of_waits hrefs _ hwait).mono (fun t d had => ?_) fun _ hd => hd)
      obtain ⟨hd, hkd, hcomp⟩ := had
      have hld := lookup_of_extends hd hkd hlk
      have hp := hc.not_pending hl
      refine Compile.endsIn_bind.mpr (Compile.endsIn_catalogue.mpr ?_)
      refine Compile.endsIn_bind.mpr (Compile.endsIn_setCatalogue.mpr ?_)
      refine (Compile.endsIn_pure _).mpr ⟨?_, ?_, fun e he => ?_⟩
      · refine Coherent.define hd hld hp hc.abandoned_pending
          (fun p hp => (hpath p hp).imp_right fun hpr => hpr.to_reflTransGen) fun v hv => ?_
        rw [ht] at hv
        cases hv
        rw [← compile_asked]
        exact hcomp _ (Catalogue.extends_refl _)
      · exact hext.trans (hkd.trans (Catalogue.extends_define hld))
      · exact he.answer (Catalogue.answer_define hp)

end Models

end OpenApi
