import OpenApi.Proofs.Compilation.Grounded
/-! # The models of a compilation

A compilation visits a schema, the targets of its references, the targets of the references in these,
and so on, be there cycles or not. If it succeeds, there is one model for each reference that it can
reach in this way, under the name of that reference, and no other. It stops at a name only if two
references that it can reach have this name. -/
namespace OpenApi

open Relation (ReflTransGen)

/-- The node asks for the reference, at once or through the targets of other references. -/
def Reaches (document node : Value) (ref : String) : Prop :=
  ∃ first ∈ (Schema.ofValue node).refs, ReflTransGen (Refers document) first ref

def IsNamed (document : Value) (ref name : String) : Prop :=
  ∃ target, Pointer.resolve document ref = .ok target ∧ Naming.modelName ref target = .ok name

variable {document node : Value} {ref name : String}

theorem reaches_of_mem (h : ref ∈ (Schema.ofValue node).refs) : Reaches document node ref :=
  ⟨ref, h, .refl⟩

theorem Reaches.step {next : String} (h : Reaches document node ref)
    (hedge : Refers document ref next) : Reaches document node next := by
  obtain ⟨first, hfirst, hpath⟩ := h
  exact ⟨first, hfirst, hpath.tail hedge⟩

theorem IsNamed.unique {other : String} (h : IsNamed document ref name)
    (k : IsNamed document ref other) : name = other := by
  obtain ⟨target, ht, hname⟩ := h
  obtain ⟨target', ht', hother⟩ := k
  rw [ht] at ht'
  cases ht'
  exact Except.ok.inj (hname.symm.trans hother)

namespace Pointer

/-- The faults of resolving a reference, each of which names it. -/
inductive Unresolved (ref : String) : Fault → Prop where
  | external : Unresolved ref (.externalReference ref)
  | missingKey (segment : String) : Unresolved ref (.missingKey ref segment)
  | badIndex (segment : String) : Unresolved ref (.badIndex ref segment)
  | notNavigable (kind : Kind) : Unresolved ref (.notNavigable ref kind)

theorem unresolved_of_segments {e : Fault} (h : segments ref = .error e) : Unresolved ref e := by
  unfold segments at h
  split at h
  · cases h
  · cases h
    exact .external

theorem unresolved_of_step {v : Value} {segment : String} {e : Fault}
    (h : step ref v segment = .error e) : Unresolved ref e := by
  unfold step at h
  split at h
  · split at h
    · cases h
    · cases h
      exact .missingKey segment
  · split at h
    · cases h
    · cases h
      exact .badIndex segment
  · cases h
    exact .notNavigable _

theorem unresolved_of_resolve {e : Fault} (h : resolve document ref = .error e) :
    Unresolved ref e := by
  unfold resolve at h
  cases hsegments : segments ref with
  | error f =>
    rw [hsegments] at h
    cases h
    exact unresolved_of_segments hsegments
  | ok names =>
    rw [hsegments] at h
    obtain ⟨_, _, -, hstep⟩ := exists_of_foldlM_eq_error h
    exact unresolved_of_step hstep

theorem unresolved_of_modelName {target : Value} {e : Fault}
    (h : Naming.modelName ref target = .error e) : Unresolved ref e := by
  dsimp only [Naming.modelName] at h
  split at h
  · cases h
  · cases hsegments : segments ref with
    | error f =>
      rw [hsegments] at h
      cases h
      exact unresolved_of_segments hsegments
    | ok names =>
      rw [hsegments] at h
      cases h

end Pointer

def Belongs (document node : Value) (name ref : String) : Prop :=
  Reaches document node ref ∧ IsNamed document ref name

/-- If the fault is a clash, then a name belongs to two references. -/
def ClashJustified (document node : Value) (e : Fault) : Prop :=
  ∀ name owner ref, e = .modelClash name owner ref →
    owner ≠ ref ∧ Belongs document node name owner ∧ Belongs document node name ref

def RightlyOwned (document node : Value) (k : Catalogue) : Prop :=
  ∀ name owner, k.owners.get? name = some owner → Belongs document node name owner

theorem Pointer.Unresolved.clashJustified {e : Fault} (h : Unresolved ref e) :
    ClashJustified document node e := by
  rintro name owner other rfl
  cases h

theorem Schema.OwnFault.clashJustified {e : Fault} (h : OwnFault e) :
    ClashJustified document node e := by
  rintro name owner other rfl
  cases h

section Claims

variable {k l : Catalogue} (h : RightlyOwned document node k) (hb : Belongs document node name ref)

include h hb

theorem RightlyOwned.claim (hl : k.claim name ref = .ok l) : RightlyOwned document node l := by
  have hput : ∀ n owner, (k.owners.put name ref).get? n = some owner →
      Belongs document node n owner := by
    intro n owner hn
    rw [Entries.get?_put] at hn
    split at hn
    · next heq =>
      cases hn
      rw [eq_of_beq heq]
      exact hb
    · exact h n owner hn
  unfold Catalogue.claim at hl
  split at hl
  · cases hl
    exact hput
  · split at hl
    · cases hl
      exact hput
    · cases hl

theorem RightlyOwned.clash {e : Fault} (he : k.claim name ref = .error e) :
    ClashJustified document node e := by
  unfold Catalogue.claim at he
  split at he
  · cases he
  · next owner howner =>
    split at he
    · cases he
    · next hne =>
      cases he
      rintro _ _ _ ⟨⟩
      exact ⟨hne, h name owner howner, hb⟩

end Claims

/-- A computation that claims names for references that can be reached, and clashes for no other cause. -/
def ClaimsRightly (document node : Value) {α : Type} (x : Compile α) : Prop :=
  ∀ c, RightlyOwned document node c.catalogue →
    x.Ends (fun _ d => RightlyOwned document node d.catalogue)
      (fun e _ => ClashJustified document node e) c

theorem relates_claimsRightly (document node : Value) :
    Schema.RelatesOwn Compile (Except Fault) fun _ x _ => ClaimsRightly document node x where
  pure _ _ hc := hc
  throw he _ _ := he.clashJustified
  bind hx hf c hc := by
    refine Compile.ends_bind.mpr ((hx c hc).mono (fun a d hd => ?_) fun _ _ he => he)
    exact hf a d hd

theorem modelCodec_claimsRightly (depth : Nat) (h : Reaches document node ref) :
    ClaimsRightly document node (modelCodec document depth ref) := by
  induction depth generalizing ref with
  | zero => exact fun c _ => Schema.OwnFault.malformed.clashJustified
  | succ depth ih =>
    intro c hc
    unfold modelCodec
    refine Compile.ends_bind.mpr (Compile.ends_of_except (fun target ht => ?_)
      fun _ he => (Pointer.unresolved_of_resolve he).clashJustified)
    refine Compile.ends_bind.mpr (Compile.ends_of_except (fun name hname => ?_)
      fun _ he => (Pointer.unresolved_of_modelName he).clashJustified)
    refine Compile.ends_bind.mpr (Compile.ends_catalogue.mpr ?_)
    cases c.catalogue.lookup ref with
    | some a =>
      refine Compile.ends_bind.mpr (Compile.ends_catalogue.mpr ?_)
      exact (Compile.ends_pure _).mpr hc
    | none =>
      refine Compile.ends_bind.mpr (Compile.ends_catalogue.mpr ?_)
      have hbelongs : Belongs document node name ref := ⟨h, target, ht, hname⟩
      refine Compile.ends_bind.mpr (Compile.ends_of_except (fun k hk => ?_)
        fun _ he => hc.clash hbelongs he)
      refine Compile.ends_bind.mpr (Compile.ends_setCatalogue.mpr ?_)
      refine Compile.ends_bind.mpr (Compile.ends_note.mpr ?_)
      have hbelow : ∀ r ∈ (Schema.ofValue target).refs,
          ClaimsRightly document node (modelCodec document depth r) :=
        fun r hr => ih (h.step ⟨target, ht, hr⟩)
      have hrun := Schema.compile_related_own (relates_claimsRightly document node)
        (g := fun _ => .error .malformed) (Schema.ofValue target) hbelow
        ⟨k, c.frozen, c.journal ++ [.compilingModel name ref]⟩ (hc.claim hbelongs hk)
      refine Compile.ends_bind.mpr (hrun.mono (fun t d hd => ?_) fun _ _ he => he)
      -- a definition changes no owner
      exact hd

theorem compileSchema_claimsRightly (document node : Value) :
    ClaimsRightly document node (compileSchema document node) :=
  Schema.compile_related_own (relates_claimsRightly document node)
    (g := fun _ => .error .malformed) (Schema.ofValue node)
    fun _ hr => modelCodec_claimsRightly _ (reaches_of_mem hr)

theorem rightlyOwned_empty (document node : Value) : RightlyOwned document node ∅ := nofun

namespace Catalogue

variable {k : Catalogue} {codec : Codec}

theorem known_of_compile {s : Schema} {waiting : List String}
    (h : s.compile (k.answer waiting) = .ok codec) {r : String} (hr : r ∈ s.refs) :
    ∃ a, k.lookup r = some a := by
  obtain ⟨c, hc⟩ := Schema.answered _ s codec h r hr
  exact known_of_answer hc

/-- No reference that can be reached is left out: the targets of all that are known were compiled. -/
theorem Coherent.known_of_reaches (h : Coherent document [] [] k)
    (hnode : (Schema.ofValue node).compile (k.answer []) = .ok codec)
    (hr : Reaches document node ref) : ∃ a, k.lookup ref = some a := by
  obtain ⟨first, hfirst, hpath⟩ := hr
  induction hpath with
  | refl => exact known_of_compile hnode hfirst
  | tail _ hedge ih =>
    obtain ⟨a, ha⟩ := ih
    obtain ⟨target, t, ht, -, waiting, -, hcomp⟩ := h.model_of_lookup ha
    obtain ⟨target', ht', hmem⟩ := hedge
    rw [ht] at ht'
    cases ht'
    exact known_of_compile hcomp hmem

theorem Coherent.isNamed (h : Coherent document [] [] k) {a : Alias} (ha : k.lookup ref = some a) :
    IsNamed document ref a.name := by
  obtain ⟨target, ht, hname, -⟩ := h.origin ha
  exact ⟨target, ht, hname⟩

theorem Coherent.exists_model (h : Coherent document [] [] k) {a : Alias}
    (ha : k.lookup ref = some a) : ∃ t, (a.name, t) ∈ k.models := by
  have hne : a.target ≠ none := by
    intro hnone
    exact absurd ((h.pending_iff ha).mp hnone) List.not_mem_nil
  obtain ⟨t, ht⟩ := Option.ne_none_iff_exists'.mp hne
  exact ⟨t, h.mem_models ha ht⟩

theorem Coherent.exists_owner (h : Coherent document [] [] k) {m : String × Codec}
    (hm : m ∈ k.models) (hnames : k.models.keys.Nodup) : ∃ r, k.owners.get? m.1 = some r :=
  h.defined_owned (Entries.get?_of_mem hnames hm)

end Catalogue

/-- The models are one for each reference that can be reached, and each is under the name of its own. -/
structure ModelsReached (document node : Value) (models : Entries String Codec) : Prop where
  names : models.keys.Nodup
  model : ∀ ref, Reaches document node ref → ∃! m, m ∈ models ∧ IsNamed document ref m.1
  reference : ∀ m ∈ models, ∃! ref, Reaches document node ref ∧ IsNamed document ref m.1

theorem modelsReached_of_coherent {k : Catalogue} (h : Catalogue.Coherent document [] [] k)
    (hnames : k.models.keys.Nodup) (howned : RightlyOwned document node k)
    (hknown : ∀ r, Reaches document node r → ∃ a, k.lookup r = some a) :
    ModelsReached document node k.models := by
  refine ⟨hnames, fun ref href => ?_, fun m hm => ?_⟩
  · obtain ⟨a, ha⟩ := hknown ref href
    obtain ⟨t, ht⟩ := h.exists_model ha
    refine ⟨(a.name, t), ⟨ht, h.isNamed ha⟩, ?_⟩
    rintro m ⟨hm, hnamed⟩
    have hname : m.1 = a.name := hnamed.unique (h.isNamed ha)
    exact List.inj_on_of_nodup_map hnames hm ht hname
  · obtain ⟨owner, howner⟩ := h.exists_owner hm hnames
    refine ⟨owner, howned m.1 owner howner, ?_⟩
    rintro ref ⟨href, hnamed⟩
    obtain ⟨a, ha⟩ := hknown ref href
    have hother := h.owner_eq ha
    rw [(h.isNamed ha).unique hnamed, howner] at hother
    exact (Option.some.inj hother).symm

/-- A schema of a document that compiles by itself has exactly one model for each reference that it can
reach. If it fails with a clash of names, then two different references that it can reach have this name. -/
theorem compileSchema_models (document node : Value) :
    (∀ codec d, (compileSchema document node).run .start = (.ok codec, d) →
      ModelsReached document node d.catalogue.models) ∧
    ∀ name owner ref d,
      (compileSchema document node).run .start = (.error (.modelClash name owner ref), d) →
      owner ≠ ref ∧ (Reaches document node owner ∧ IsNamed document owner name) ∧
        Reaches document node ref ∧ IsNamed document ref name := by
  have hends := compileSchema_claimsRightly document node .start (rightlyOwned_empty document node)
  constructor
  · intro codec d run
    obtain ⟨hd, -, hcodec⟩ := compileSchema_ok (Catalogue.coherent_empty document) run
    have hadvances := compileSchema_advances (consistent_start document) run
    exact modelsReached_of_coherent hd hadvances.consistent.ordered.names (hends.of_run run)
      fun r hr => hd.known_of_reaches hcodec hr
  · intro name owner ref d run
    exact hends.of_failed_run run name owner ref rfl

def twoNodes : Value :=
  .object [("Node", .object [("items", .object [("$ref", .str "#/Link")])]),
    ("Link", .object [("properties", .object [("node", .object [("$ref", .str "#/Node")])])]),
    ("other", .object [("Node", .object [("type", .str "string")])])]

def oneOfReferences (refs : List String) : Value :=
  .object [("oneOf", .list (refs.map fun ref => .object [("$ref", .str ref)]))]

def clash? : Fault → Option (String × String × String)
  | .modelClash name owner ref => some (name, owner, ref)
  | _ => none

theorem eq_of_clash {f : Fault} {name owner ref : String} (h : clash? f = some (name, owner, ref)) :
    f = .modelClash name owner ref := by
  unfold clash? at h
  split at h
  · cases h
    rfl
  · cases h

theorem compileSchema_models_twoNodes :
    (∃ codec d, (compileSchema twoNodes (oneOfReferences ["#/Node"])).run .start = (.ok codec, d) ∧
      ModelsReached twoNodes (oneOfReferences ["#/Node"]) d.catalogue.models) ∧
    ∃ d, (compileSchema twoNodes (oneOfReferences ["#/Link", "#/other/Node"])).run .start =
        (.error (.modelClash "Node" "#/Node" "#/other/Node"), d) ∧
      Reaches twoNodes (oneOfReferences ["#/Link", "#/other/Node"]) "#/Node" := by
  constructor
  · obtain ⟨codec, d, run⟩ := Compile.exists_run
      (show ((compileSchema twoNodes (oneOfReferences ["#/Node"])).run .start).1.isOk from by
        decide +kernel)
    exact ⟨codec, d, run, (compileSchema_models twoNodes _).1 codec d run⟩
  · have hclash : (match ((compileSchema twoNodes
        (oneOfReferences ["#/Link", "#/other/Node"])).run .start).1 with
        | .ok _ => none
        | .error f => clash? f) = some ("Node", "#/Node", "#/other/Node") := by
      decide +kernel
    rcases run : (compileSchema twoNodes (oneOfReferences ["#/Link", "#/other/Node"])).run .start
      with ⟨outcome, d⟩
    rw [run] at hclash
    cases outcome with
    | ok codec => cases hclash
    | error f =>
      obtain rfl := eq_of_clash hclash
      exact ⟨d, rfl, ((compileSchema_models twoNodes _).2 _ _ _ d run).2.1.1⟩

end OpenApi
