import OpenApi.Proofs.Compilation.Agreeing
/-! # Compilations end

The references of a document may lead anywhere in it, to themselves too, so no level of a compilation is
about a smaller schema than the one above it. But every level that enters a target has claimed a reference
that was not known before, and a reference stays known. So there are no more levels than references that are
not known yet, and one more, which enters nothing.

To tell a compilation that ends from one that runs out of levels, it is run where the latter comes to
nothing at all, not even to a fault. -/
namespace OpenApi

/-- A compilation that has only so many levels, and comes to nothing if they do not suffice. -/
abbrev Bounded (α : Type) := ExceptT Fault (StateT Compilation Option) α

section Level

variable {m : Type → Type} [Monad m] [MonadStateOf Compilation m] [MonadExceptOf Fault m]

def presentCatalogue : m Catalogue := return (← get).catalogue

/-- One level of a compilation: the codec of a reference. The references of its target are left to the
level below. -/
def referenceCodec (document : Value) (below : String → m Codec) (ref : String) : m Codec := do
  let target ← ofExcept (Pointer.resolve document ref)
  let name ← ofExcept (Naming.modelName ref target)
  match (← presentCatalogue).lookup ref with
  | some a => return if (← presentCatalogue).isDefined a.name then a.codec else .unknown
  | none =>
    let claimed ← ofExcept ((← presentCatalogue).claim name ref)
    modify fun c =>
      { c with catalogue := claimed, journal := c.journal ++ [.compilingModel name ref] }
    let codec ← (Schema.ofValue target).compile below
    let a : Alias := ⟨name, ref, none⟩
    let defined := (← presentCatalogue).define a codec
    modify fun c => { c with catalogue := defined }
    return { a with target := some codec }.codec

end Level

theorem modelCodec_succ (document : Value) (depth : Nat) (ref : String) :
    modelCodec document (depth + 1) ref =
      referenceCodec document (modelCodec document depth) ref := rfl

namespace Bounded

variable {α β : Type}

def run (x : Bounded α) (c : Compilation) : Option (Except Fault α × Compilation) :=
  StateT.run (ExceptT.run x) c

def exhausted : Bounded α := ExceptT.mk fun _ => none

/-- The codec of a reference, if it can be told in so many levels. -/
def modelCodec (document : Value) : Nat → String → Bounded Codec
  | 0, _ => exhausted
  | depth + 1, ref => referenceCodec document (modelCodec document depth) ref

def compileSchema (document : Value) (depth : Nat) (node : Value) : Bounded Codec :=
  (Schema.ofValue node).compile (modelCodec document depth)

theorem run_bind (x : Bounded α) (f : α → Bounded β) (c : Compilation) :
    (x >>= f).run c =
      match x.run c with
      | none => none
      | some (.ok a, d) => (f a).run d
      | some (.error e, d) => some (.error e, d) := by
  have h : (x >>= f).run c = (x.run c).bind fun r => (ExceptT.bindCont f r.1).run r.2 := rfl
  rw [h]
  rcases x.run c with _ | ⟨_ | _, d⟩ <;> rfl

end Bounded

def EndsAlike (α : Type) (x : Bounded α) (y : Compile α) : Prop :=
  ∀ c r, x.run c = some r → y.run c = r

theorem relates_endsAlike : Schema.Relates Bounded Compile EndsAlike where
  pure _ _ _ h := Option.some.inj h
  throw _ _ _ h := Option.some.inj h
  bind {α β x y f g} hx hf := by
    intro c r h
    rw [Bounded.run_bind] at h
    rw [Compile.run_bind]
    rcases hrun : x.run c with _ | ⟨e | a, d⟩
    · rw [hrun] at h
      cases h
    · rw [hrun] at h
      rw [hx c _ hrun]
      exact Option.some.inj h
    · rw [hrun] at h
      rw [hx c _ hrun]
      exact hf a d r h

section Alike

variable {α : Type}

theorem endsAlike_ofExcept (r : Except Fault α) : EndsAlike α (ofExcept r) (ofExcept r) := by
  cases r with
  | error e => exact relates_endsAlike.throw e
  | ok a => exact relates_endsAlike.pure a

theorem endsAlike_presentCatalogue : EndsAlike Catalogue presentCatalogue presentCatalogue :=
  fun _ _ h => Option.some.inj h

theorem endsAlike_modify (f : Compilation → Compilation) : EndsAlike Unit (modify f) (modify f) :=
  fun _ _ h => Option.some.inj h

theorem referenceCodec_endsAlike (document : Value) {f : String → Bounded Codec}
    {g : String → Compile Codec} (h : ∀ r, EndsAlike Codec (f r) (g r)) (ref : String) :
    EndsAlike Codec (referenceCodec document f ref) (referenceCodec document g ref) := by
  have hR := relates_endsAlike
  refine hR.bind (endsAlike_ofExcept _) fun target => hR.bind (endsAlike_ofExcept _) fun name => ?_
  refine hR.bind endsAlike_presentCatalogue fun k => ?_
  cases k.lookup ref with
  | some a => exact hR.bind endsAlike_presentCatalogue fun _ => hR.pure _
  | none =>
    refine hR.bind endsAlike_presentCatalogue fun k => hR.bind (endsAlike_ofExcept _) fun claimed => ?_
    refine hR.bind (endsAlike_modify _) fun _ => ?_
    have htarget := Schema.compile_related hR (Schema.ofValue target) fun r _ => h r
    refine hR.bind htarget fun codec => hR.bind endsAlike_presentCatalogue fun _ => ?_
    exact hR.bind (endsAlike_modify _) fun _ => hR.pure _

theorem modelCodec_endsAlike (document : Value) {levels depth : Nat} (h : levels ≤ depth) (ref : String) :
    EndsAlike Codec (Bounded.modelCodec document levels ref) (modelCodec document depth ref) := by
  induction levels generalizing depth ref with
  | zero =>
    intro c r hr
    cases hr
  | succ levels ih =>
    cases depth with
    | zero => exact absurd h (Nat.not_succ_le_zero levels)
    | succ depth =>
      rw [modelCodec_succ]
      exact referenceCodec_endsAlike document (fun r => ih (Nat.le_of_succ_le_succ h) r) ref

theorem compileSchema_endsAlike (document node : Value) {levels : Nat}
    (h : levels ≤ document.countRefs + node.countRefs + 1) :
    EndsAlike Codec (Bounded.compileSchema document levels node) (compileSchema document node) := by
  apply Schema.compile_related relates_endsAlike (Schema.ofValue node)
  intro ref _
  exact modelCodec_endsAlike document h ref

end Alike

/-- The run claims these names for these references, in this order, and none of them twice. None of the
references was known before, and all of them are known afterwards. -/
structure Claims (refs : Finset String) (claims : List (String × String)) (c d : Compilation) : Prop where
  journal : d.journal = c.journal ++ claims.map fun claim => .compilingModel claim.1 claim.2
  keys : d.catalogue.aliases.keys = c.catalogue.aliases.keys ++ claims.map Prod.snd
  fresh : ∀ ref ∈ claims.map Prod.snd, ref ∉ c.catalogue.aliases.keys
  distinct : (claims.map Prod.snd).Nodup
  among : ∀ ref ∈ claims.map Prod.snd, ref ∈ refs

section Claims

variable {refs : Finset String} {claims more : List (String × String)} {c d e : Compilation}

theorem Claims.empty (hj : d.journal = c.journal)
    (hk : d.catalogue.aliases.keys = c.catalogue.aliases.keys) : Claims refs [] c d where
  journal := by rw [hj, List.map_nil, List.append_nil]
  keys := by rw [hk, List.map_nil, List.append_nil]
  fresh := nofun
  distinct := List.nodup_nil
  among := nofun

theorem Claims.append (h : Claims refs claims c d) (hmore : Claims refs more d e) :
    Claims refs (claims ++ more) c e where
  journal := by rw [hmore.journal, h.journal, List.map_append, List.append_assoc]
  keys := by rw [hmore.keys, h.keys, List.map_append, List.append_assoc]
  fresh := by
    rw [List.map_append]
    intro ref hr hold
    rcases List.mem_append.mp hr with hr | hr
    · exact h.fresh ref hr hold
    · apply hmore.fresh ref hr
      rw [h.keys]
      exact List.mem_append_left _ hold
  distinct := by
    rw [List.map_append, List.nodup_append]
    refine ⟨h.distinct, hmore.distinct, ?_⟩
    rintro r hr s hs rfl
    apply hmore.fresh r hs
    rw [h.keys]
    exact List.mem_append_right _ hr
  among := by
    rw [List.map_append]
    intro ref hr
    exact (List.mem_append.mp hr).elim (h.among ref) (hmore.among ref)

theorem Claims.length_le (h : Claims refs claims c d) : claims.length ≤ refs.card := by
  have hsub : (claims.map Prod.snd).toFinset ⊆ refs := by
    intro ref hr
    exact h.among ref (List.mem_toFinset.mp hr)
  have hcard := Finset.card_le_card hsub
  rwa [List.toFinset_card_of_nodup h.distinct, List.length_map] at hcard

theorem Claims.unknown_le (h : Claims refs claims c d) :
    d.catalogue.unknown refs ≤ c.catalogue.unknown refs := by
  apply Catalogue.unknown_le
  intro ref hd
  rw [Catalogue.lookup, Entries.get?_eq_none_iff] at hd ⊢
  intro hc
  apply hd
  rw [h.keys]
  exact List.mem_append_left _ hc

theorem Claims.one {k : Catalogue} {name ref : String} (hk : c.catalogue.claim name ref = .ok k)
    (hnew : c.catalogue.lookup ref = none) (href : ref ∈ refs) :
    Claims refs [(name, ref)] c ⟨k, c.frozen, c.journal ++ [.compilingModel name ref]⟩ := by
  have hunknown : ref ∉ c.catalogue.aliases.keys := Entries.get?_eq_none_iff.mp hnew
  have hkeys : k.aliases.keys = c.catalogue.aliases.keys ++ [ref] := by
    rw [Catalogue.aliases_of_claim hk, Entries.keys_put, if_neg hunknown]
  refine ⟨rfl, hkeys, ?_, List.nodup_singleton ref, ?_⟩
  · intro r hr
    rwa [List.mem_singleton.mp hr]
  · intro r hr
    rwa [List.mem_singleton.mp hr]

theorem Claims.define {a : Alias} (codec : Codec) (h : a.ref ∈ c.catalogue.aliases.keys) :
    Claims refs [] c { c with catalogue := c.catalogue.define a codec } := by
  apply Claims.empty
  · rfl
  · rw [Catalogue.define, Entries.keys_put, if_pos h]

end Claims

/-- Started in `c`, the computation ends, and makes claims only. -/
def Finishes {α : Type} (refs : Finset String) (x : Bounded α) (c : Compilation) : Prop :=
  ∃ outcome d, x.run c = some (outcome, d) ∧ ∃ claims, Claims refs claims c d

section Finishes

variable {α β : Type} {refs : Finset String} {x : Bounded α} {f : α → Bounded β} {c : Compilation}

theorem finishes_pure (a : α) : Finishes refs (pure a) c := ⟨.ok a, c, rfl, [], .empty rfl rfl⟩

theorem finishes_throw (e : Fault) : Finishes refs (throw e : Bounded α) c :=
  ⟨.error e, c, rfl, [], .empty rfl rfl⟩

theorem Finishes.bind (h : Finishes refs x c)
    (hf : ∀ a d claims, Claims refs claims c d → Finishes refs (f a) d) :
    Finishes refs (x >>= f) c := by
  obtain ⟨outcome, d, hrun, claims, hclaims⟩ := h
  cases outcome with
  | error e =>
    refine ⟨.error e, d, ?_, claims, hclaims⟩
    rw [Bounded.run_bind, hrun]
  | ok a =>
    obtain ⟨result, e, hnext, more, hmore⟩ := hf a d claims hclaims
    refine ⟨result, e, ?_, claims ++ more, hclaims.append hmore⟩
    rw [Bounded.run_bind, hrun]
    exact hnext

theorem finishes_bind_ofExcept {r : Except Fault α} (hf : ∀ a, r = .ok a → Finishes refs (f a) c) :
    Finishes refs (ofExcept r >>= f) c := by
  cases r with
  | error e => exact finishes_throw e
  | ok a => exact hf a rfl

theorem finishes_bind_presentCatalogue {f : Catalogue → Bounded β}
    (hf : Finishes refs (f c.catalogue) c) : Finishes refs (presentCatalogue >>= f) c := hf

theorem finishes_bind_modify {g : Compilation → Compilation} {f : Unit → Bounded β}
    {claims : List (String × String)} (hg : Claims refs claims c (g c))
    (hf : Finishes refs (f ()) (g c)) : Finishes refs (modify g >>= f) c := by
  obtain ⟨outcome, d, hrun, more, hmore⟩ := hf
  exact ⟨outcome, d, hrun, claims ++ more, hg.append hmore⟩

end Finishes

/-- The computation ends from every state in which fewer references are unknown than it has levels. -/
def FinishesWithin (refs : Finset String) (levels : Nat) {α : Type} (x : Bounded α) : Prop :=
  ∀ c : Compilation, c.catalogue.unknown refs < levels → Finishes refs x c

theorem relates_finishesWithin (refs : Finset String) (levels : Nat) :
    Schema.Relates Bounded (Except Fault) fun _ x _ => FinishesWithin refs levels x where
  pure a := fun _ _ => finishes_pure a
  throw e := fun _ _ => finishes_throw e
  bind hx hf := by
    intro c hc
    apply (hx c hc).bind
    intro a d claims hclaims
    exact hf a d (Nat.lt_of_le_of_lt hclaims.unknown_le hc)

section Models

variable {document : Value} {refs : Finset String}

theorem finishesWithin_ofValue {levels : Nat} {node : Value} (hnode : node.references ⊆ refs.toList)
    {f : String → Bounded Codec} (h : ∀ ref ∈ refs, FinishesWithin refs levels (f ref)) :
    FinishesWithin refs levels ((Schema.ofValue node).compile f) := by
  apply Schema.compile_related (relates_finishesWithin refs levels) (g := fun _ => .error .malformed)
  intro ref hr
  exact h ref (Finset.mem_toList.mp (hnode (Schema.refs_ofValue node hr)))

/-- With more levels than there are unknown references, a reference is compiled to the end. -/
theorem modelCodec_finishesWithin (hdocument : document.references ⊆ refs.toList) (levels : Nat)
    {ref : String} (href : ref ∈ refs) :
    FinishesWithin refs levels (Bounded.modelCodec document levels ref) := by
  induction levels generalizing ref with
  | zero =>
    intro c hc
    exact absurd hc (Nat.not_lt_zero _)
  | succ levels ih =>
    intro c hc
    refine finishes_bind_ofExcept fun target ht => finishes_bind_ofExcept fun name _ => ?_
    apply finishes_bind_presentCatalogue
    cases hl : c.catalogue.lookup ref with
    | some a => exact finishes_bind_presentCatalogue (finishes_pure _)
    | none =>
      refine finishes_bind_presentCatalogue (finishes_bind_ofExcept fun k hk => ?_)
      have hone : Claims refs [(name, ref)] c _ := Claims.one hk hl href
      refine finishes_bind_modify hone ?_
      -- one reference less is unknown now, and there is one level less
      have hless := Catalogue.unknown_claim hk href hl
      have htarget : target.references ⊆ refs.toList :=
        fun r hr => hdocument (Pointer.references_of_resolve ht hr)
      have hbelow := finishesWithin_ofValue htarget fun r hr => ih hr
      have hlevels : k.unknown refs < levels := Nat.lt_of_lt_of_le hless (Nat.le_of_lt_succ hc)
      refine (hbelow _ hlevels).bind fun codec d claims hclaims => ?_
      have hknown : ref ∈ d.catalogue.aliases.keys := by
        rw [hclaims.keys, hone.keys, List.mem_append, List.mem_append]
        exact .inl (.inr (List.mem_singleton_self ref))
      have hdefine : Claims refs [] d _ := Claims.define (a := ⟨name, ref, none⟩) codec hknown
      exact finishes_bind_presentCatalogue (finishes_bind_modify hdefine (finishes_pure _))

def heldReferences (document node : Value) : Finset String :=
  (document.references ++ node.references).toFinset

theorem card_heldReferences (document node : Value) :
    (heldReferences document node).card ≤ document.countRefs + node.countRefs := by
  have hcard : (heldReferences document node).card ≤ _ := List.toFinset_card_le _
  have hdocument := document.length_references
  have hnode := node.length_references
  rw [List.length_append] at hcard
  omega

theorem compileSchema_finishes (document node : Value) (c : Compilation) :
    Finishes (heldReferences document node)
      (Bounded.compileSchema document ((heldReferences document node).card + 1) node) c := by
  have hheld : ∀ r, r ∈ document.references ∨ r ∈ node.references →
      r ∈ (heldReferences document node).toList := by
    intro r hr
    rw [Finset.mem_toList, heldReferences, List.mem_toFinset, List.mem_append]
    exact hr
  apply finishesWithin_ofValue
  · intro r hr
    exact hheld r (.inr hr)
  · intro ref href
    apply modelCodec_finishesWithin _ _ href
    intro r hr
    exact hheld r (.inl hr)
  · exact Nat.lt_succ_of_le (Catalogue.unknown_le_card _ _)

/-- Compiling a node ends with a codec or a fault, wherever the references lead and whatever is known already.
It enters no more levels than there are references and one more, and claims each reference once at most. -/
theorem compileSchema_ends (document node : Value) (c : Compilation) :
    ∃ outcome d claims,
      (Bounded.compileSchema document ((heldReferences document node).card + 1) node).run c =
        some (outcome, d) ∧
      (compileSchema document node).run c = (outcome, d) ∧
      Claims (heldReferences document node) claims c d ∧
      claims.length ≤ (heldReferences document node).card := by
  obtain ⟨outcome, d, hrun, claims, hclaims⟩ := compileSchema_finishes document node c
  have hlevels := Nat.succ_le_succ (card_heldReferences document node)
  have hsame := compileSchema_endsAlike document node hlevels c _ hrun
  exact ⟨outcome, d, claims, hrun, hsame, hclaims, hclaims.length_le⟩

/-- Two references lead to each other's targets. The third level finds the first one again. -/
example :
    let document : Value := .object [("A", .object [("items", .object [("$ref", .str "#/B")])]),
      ("B", .object [("items", .object [("$ref", .str "#/A")])])]
    let node : Value := .object [("$ref", .str "#/A")]
    ((Bounded.compileSchema document 2 node).run .start).isNone = true ∧
      ((Bounded.compileSchema document 3 node).run .start).isSome = true := by
  decide +kernel

end Models

end OpenApi
