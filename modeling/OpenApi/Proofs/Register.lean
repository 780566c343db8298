import OpenApi.Proofs.Entries
import OpenApi.Register
/-! # Names of references

The register never lets two references share a name: a name that was claimed belongs to one reference, and a
claim of it by another one fails and changes nothing. A reference may claim several names, and it is known by
the last one. -/
namespace OpenApi

namespace Catalogue

/-- A claim fails if the name belongs to another reference, and otherwise the reference has it. -/
theorem claim_cases (c : Catalogue) (name ref : String) :
    (∃ owner, owner ≠ ref ∧ c.owners.get? name = some owner ∧
      c.claim name ref = .error (.modelClash name owner ref)) ∨
    (∀ owner, c.owners.get? name = some owner → owner = ref) ∧
      c.claim name ref = .ok { c with aliases := c.aliases.put ref ⟨name, ref, none⟩
                                      owners := c.owners.put name ref } := by
  unfold claim
  cases ho : c.owners.get? name with
  | none => exact .inr ⟨nofun, rfl⟩
  | some owner =>
    by_cases he : owner = ref
    · refine .inr ⟨fun o h => (Option.some.inj h).symm.trans he, ?_⟩
      simp only [if_pos he]
    · refine .inl ⟨owner, he, rfl, ?_⟩
      simp only [if_neg he]

end Catalogue

def lastAlias? (ref : String) (as : List Alias) : Option Alias := as.reverse.find? fun a => a.ref == ref

section LastAlias

variable {ref : String} {as bs : List Alias} {a : Alias}

theorem lastAlias?_append : lastAlias? ref (as ++ bs) = (lastAlias? ref bs).or (lastAlias? ref as) := by
  rw [lastAlias?, List.reverse_append, List.find?_append]
  rfl

theorem lastAlias?_cons :
    lastAlias? ref (a :: as) = (lastAlias? ref as).or (if a.ref = ref then some a else none) := by
  rw [← List.singleton_append, lastAlias?_append]
  by_cases h : a.ref = ref <;> simp [lastAlias?, h]

theorem mem_of_lastAlias? (h : lastAlias? ref as = some a) : a ∈ as ∧ a.ref = ref :=
  ⟨List.mem_reverse.mp (List.mem_of_find?_eq_some h), by simpa using List.find?_some h⟩

theorem lastAlias?_eq_none : lastAlias? ref as = none ↔ ∀ a ∈ as, a.ref ≠ ref := by
  simp [lastAlias?]

theorem exists_mem_around {P : Alias → Prop} :
    (∃ b ∈ as ++ a :: bs, P b) ↔ P a ∨ ∃ b ∈ as ++ bs, P b := by
  simp only [List.mem_append, List.mem_cons]
  grind

end LastAlias

namespace Register

/-- What the register keeps of its claims: the name of every alias belongs to its reference, the last alias of
every reference is looked up, and the names of the aliases with a codec are defined. -/
structure Sound (r : Register) : Prop where
  owner_eq : ∀ a ∈ r.claimed, r.catalogue.owners.get? a.name = some a.ref
  owned : ∀ {name ref}, r.catalogue.owners.get? name = some ref →
    ∃ a ∈ r.claimed, a.name = name ∧ a.ref = ref
  lookup_eq : ∀ ref, r.lookup ref = lastAlias? ref r.claimed
  isDefined_iff : ∀ name, r.isDefined name = true ↔
    ∃ a ∈ r.claimed, a.name = name ∧ a.target.isSome = true

/-- No two references are known by one name. -/
structure KeepsApart (r : Register) : Prop where
  ref_eq : ∀ ref a, r.lookup ref = some a → a.ref = ref
  name_ne : ∀ ref ref' a b, r.lookup ref = some a → r.lookup ref' = some b → ref ≠ ref' → a.name ≠ b.name
  isDefined_iff : ∀ name, r.isDefined name = true ↔ name ∈ r.models.keys

/-- The name is claimed for the reference, which is known by it from then on. -/
structure Claims (r : Register) (name ref : String) (s : Register) : Prop where
  free : ∀ a ∈ r.claimed, a.name = name → a.ref = ref
  claim_eq : r.claim name ref = (.ok ⟨name, ref, none⟩, s)
  lookup_eq : s.lookup ref = some ⟨name, ref, none⟩

/-- The name belongs to another reference, and all stays as it was. -/
structure Refuses (r : Register) (name ref : String) (s : Register) : Prop where
  taken : ∃ a ∈ r.claimed, a.name = name ∧ a.ref ≠ ref ∧
    r.claim name ref = (.error (.modelClash name a.ref ref), s)
  lookup_eq : ∀ ref', s.lookup ref' = r.lookup ref'
  isDefined_eq : ∀ name', s.isDefined name' = r.isDefined name'
  models_eq : s.models = r.models

variable {r s : Register} {name ref : String} {number : Nat} {codec : Codec} {a : Alias}

theorem sound_empty : Sound ∅ where
  owner_eq _ h := absurd h List.not_mem_nil
  owned h := nomatch h
  lookup_eq _ := rfl
  isDefined_iff _ := ⟨nofun, fun ⟨_, h, _⟩ => absurd h List.not_mem_nil⟩

theorem claim_eq (r : Register) (name ref : String) : r.claim name ref =
    match r.catalogue.claim name ref with
    | .ok c => (.ok ⟨name, ref, none⟩, ⟨c, r.claimed ++ [⟨name, ref, none⟩]⟩)
    | .error f => (.error f, r) := by
  let a : Alias := ⟨name, ref, none⟩
  show (ofExcept (r.catalogue.claim name ref) >>= fun c => do
    set (⟨c, r.claimed ++ [a]⟩ : Register)
    return a : ExceptT Fault (StateM Register) Alias) r = _
  cases r.catalogue.claim name ref <;> rfl

theorem Sound.claim_cases (h : Sound r) (name ref : String) :
    (∃ a ∈ r.claimed, a.name = name ∧ a.ref ≠ ref ∧
      r.claim name ref = (.error (.modelClash name a.ref ref), r)) ∨
    (∀ a ∈ r.claimed, a.name = name → a.ref = ref) ∧
      r.claim name ref = (.ok ⟨name, ref, none⟩,
        { catalogue := { r.catalogue with
            aliases := r.catalogue.aliases.put ref ⟨name, ref, none⟩
            owners := r.catalogue.owners.put name ref }
          claimed := r.claimed ++ [⟨name, ref, none⟩] }) := by
  obtain ⟨owner, hne, howner, hclaim⟩ | ⟨hfree, hclaim⟩ := r.catalogue.claim_cases name ref
  · obtain ⟨a, ha, hname, rfl⟩ := h.owned howner
    exact .inl ⟨a, ha, hname, hne, by rw [claim_eq, hclaim]⟩
  · refine .inr ⟨?_, by rw [claim_eq, hclaim]⟩
    rintro a ha rfl
    exact hfree a.ref (h.owner_eq a ha)

theorem Sound.claim (h : Sound r) (name ref : String) : Sound (r.claim name ref).2 := by
  obtain ⟨a, -, -, -, herror⟩ | ⟨hfree, hok⟩ := h.claim_cases name ref
  · rw [herror]
    exact h
  rw [hok]
  constructor
  · intro a ha
    rw [Entries.get?_put]
    rcases List.mem_append.mp ha with ha | ha
    · by_cases hname : a.name = name
      · rw [if_pos (beq_iff_eq.mpr hname), hfree a ha hname]
      · rw [if_neg (by simpa using hname), h.owner_eq a ha]
    · rw [List.mem_singleton.mp ha, if_pos BEq.rfl]
  · intro n ref' howner
    rw [Entries.get?_put] at howner
    split at howner
    · next hname =>
      cases howner
      exact ⟨_, List.mem_append_right _ (List.mem_singleton_self _), (beq_iff_eq.mp hname).symm, rfl⟩
    · obtain ⟨a, ha, hboth⟩ := h.owned howner
      exact ⟨a, List.mem_append_left _ ha, hboth⟩
  · intro ref'
    show Entries.get? _ ref' = _
    have hold : Entries.get? r.catalogue.aliases ref' = lastAlias? ref' r.claimed := h.lookup_eq ref'
    rw [Entries.get?_put, hold, lastAlias?_append, lastAlias?_cons]
    by_cases hr : ref' = ref
    · simp [hr, lastAlias?]
    · simp [hr, Ne.symm hr, lastAlias?]
  · intro n
    refine (h.isDefined_iff n).trans ?_
    simp

theorem isLast_iff : r.isLast number ref = true ↔
    lastAlias? ref (r.claimed.drop (number + 1)) = none := by
  rw [isLast, List.all_eq_true, lastAlias?_eq_none]
  simp

theorem define_cases (r : Register) (number : Nat) (codec : Codec) :
    r.define number codec = r ∨ ∃ before a after, r.claimed = before ++ a :: after ∧
      (r.define number codec).claimed = before ++ { a with target := some codec } :: after ∧
      (r.define number codec).catalogue =
        if lastAlias? a.ref after = none then r.catalogue.define a codec
        else { r.catalogue with defined := r.catalogue.defined.put a.name codec } := by
  unfold define
  cases ha : r.claimed[number]? with
  | none => exact .inl rfl
  | some a =>
    obtain ⟨hlt, rfl⟩ := List.getElem?_eq_some_iff.mp ha
    refine .inr ⟨r.claimed.take number, r.claimed[number], r.claimed.drop (number + 1), ?_, ?_, ?_⟩
    · exact (List.take_append_drop number r.claimed).symm.trans
        (congrArg _ (List.drop_eq_getElem_cons hlt))
    · exact List.set_eq_take_append_cons_drop.trans (if_pos hlt)
    · simp only [isLast_iff]

/-- A codec reaches the alias that it is given to and nothing else: a reference that has claimed another one
since keeps that, but the name is defined. -/
theorem Sound.define (h : Sound r) (number : Nat) (codec : Codec) : Sound (r.define number codec) := by
  obtain hsame | ⟨before, a, after, hclaimed, hdefined, hcatalogue⟩ := r.define_cases number codec
  · rwa [hsame]
  have howners : (r.define number codec).catalogue.owners = r.catalogue.owners := by
    rw [hcatalogue]
    split <;> rfl
  have hmodels : (r.define number codec).catalogue.defined = r.catalogue.defined.put a.name codec := by
    rw [hcatalogue]
    split <;> rfl
  -- the alias keeps its name and its reference, so the two registers have the same pairs of these
  have hmem : ∀ name ref, (∃ b ∈ (r.define number codec).claimed, b.name = name ∧ b.ref = ref) ↔
      ∃ b ∈ r.claimed, b.name = name ∧ b.ref = ref := by
    intro name ref
    rw [hclaimed, hdefined, exists_mem_around, exists_mem_around]
  constructor
  · intro b hb
    obtain ⟨d, hd, hname, href⟩ := (hmem b.name b.ref).mp ⟨b, hb, rfl, rfl⟩
    rw [howners, ← hname, ← href, h.owner_eq d hd]
  · intro name ref howner
    rw [howners] at howner
    exact (hmem name ref).mpr (h.owned howner)
  · intro ref
    have hold : Entries.get? r.catalogue.aliases ref = lastAlias? ref r.claimed := h.lookup_eq ref
    rw [hclaimed, lastAlias?_append, lastAlias?_cons] at hold
    rw [hdefined, lastAlias?_append, lastAlias?_cons]
    show Entries.get? (r.define number codec).catalogue.aliases ref = _
    rw [hcatalogue]
    by_cases hr : a.ref = ref
    · subst hr
      split
      · next hlast => simp [Catalogue.define, Entries.get?_put, hlast]
      · next hlast =>
        obtain ⟨b, hb⟩ := Option.ne_none_iff_exists'.mp hlast
        simpa [hb] using hold
    · have haliases : Entries.get? r.catalogue.aliases ref =
          Entries.get? (r.catalogue.aliases.put a.ref { a with target := some codec }) ref := by
        rw [Entries.get?_put, if_neg (by simpa using Ne.symm hr)]
      simp only [hr, if_false] at hold ⊢
      split
      · exact haliases.symm.trans hold
      · exact hold
  · intro name
    show Entries.has (r.define number codec).catalogue.defined name = true ↔ _
    have hold : Entries.has r.catalogue.defined name = true ↔ _ := h.isDefined_iff name
    rw [hclaimed] at hold
    rw [hmodels, Entries.has, Entries.get?_put, hdefined]
    rw [exists_mem_around] at hold ⊢
    by_cases hname : name = a.name
    · simp [hname]
    · rw [if_neg (by simpa using hname)]
      refine hold.trans ?_
      simp [Ne.symm hname]

theorem Sound.step (h : Sound r) (next : Step) : Sound (r.step next) := by
  cases next with
  | claim name ref => exact h.claim name ref
  | define number codec => exact h.define number codec

theorem sound_run (steps : List Step) : Sound (run steps) := by
  suffices hall : ∀ r, Sound r → Sound (steps.foldl step r) from hall ∅ sound_empty
  induction steps with
  | nil => exact fun _ h => h
  | cons s steps ih => exact fun r h => ih _ (h.step s)

theorem Sound.keepsApart (h : Sound r) : KeepsApart r := by
  have hknown : ∀ {ref a}, r.lookup ref = some a → a ∈ r.claimed ∧ a.ref = ref := by
    intro ref a ha
    rw [h.lookup_eq ref] at ha
    exact mem_of_lastAlias? ha
  refine ⟨fun ref a ha => (hknown ha).2, fun ref ref' a b ha hb hne hname => hne ?_, fun name => ?_⟩
  · obtain ⟨hma, rfl⟩ := hknown ha
    obtain ⟨hmb, rfl⟩ := hknown hb
    have howner := h.owner_eq a hma
    rw [hname, h.owner_eq b hmb] at howner
    exact (Option.some.inj howner).symm
  · exact Entries.has_iff

theorem Sound.claims_or_refuses (h : Sound r) (name ref : String) :
    Claims r name ref (r.step (.claim name ref)) ∨ Refuses r name ref (r.step (.claim name ref)) := by
  have hstep : r.step (.claim name ref) = (r.claim name ref).2 := rfl
  rw [hstep]
  obtain ⟨a, ha, hname, hne, herror⟩ | ⟨hfree, hok⟩ := h.claim_cases name ref
  · rw [herror]
    exact .inr ⟨⟨a, ha, hname, hne, herror⟩, fun _ => rfl, fun _ => rfl, rfl⟩
  · have hlookup := (h.claim name ref).lookup_eq ref
    rw [hok] at hlookup ⊢
    refine .inl ⟨hfree, hok, hlookup.trans ?_⟩
    simp [lastAlias?]

/-- After any claims and definitions no two references are known by one name, and the next claim either
succeeds or fails without a trace. -/
theorem run_keepsApart (steps : List Step) : KeepsApart (run steps) ∧ ∀ name ref,
    Claims (run steps) name ref (run (steps ++ [.claim name ref])) ∨
      Refuses (run steps) name ref (run (steps ++ [.claim name ref])) := by
  have h := sound_run steps
  refine ⟨h.keepsApart, fun name ref => ?_⟩
  have hnext : run (steps ++ [.claim name ref]) = (run steps).step (.claim name ref) := by
    rw [run, List.foldl_append]
    rfl
  rw [hnext]
  exact h.claims_or_refuses name ref

/-- An alias that is defined late defines its name, and its reference is still known by the later one. -/
example :
    let r := run [.claim "Pet" "#/a", .claim "Animal" "#/a", .define 0 .string, .claim "Animal" "#/b"]
    (r.lookup "#/a").map Alias.name = some "Animal" ∧ (r.lookup "#/b").isNone = true ∧
      r.models.keys = ["Pet"] := by
  decide

end Register

end OpenApi
