import OpenApi.Operation
import OpenApi.Proofs.Compilation.Agreeing
import OpenApi.Proofs.Parameter.Merged
import OpenApi.Proofs.Schema.Open
/-! # What operations ask of a document

Parameters, responses and bodies compile alike in two documents that agree on the references of the second
one, as long as they hold no others. -/
namespace OpenApi

namespace Value

theorem references_getD (es : Entries Key Value) (name : String) :
    (getD es name).references ⊆ (dict es).references := by
  unfold getD
  cases h : es.get? (.str name) with
  | none => exact nofun
  | some v =>
    obtain ⟨e, he, -, rfl⟩ := Entries.mem_of_get? h
    exact references_of_entry he

theorem references_orElse {v w : Value} {rs : List String} (hv : v.references ⊆ rs)
    (hw : w.references ⊆ rs) : (v.orElse w).references ⊆ rs := by
  unfold orElse
  split
  · exact hv
  · exact hw

theorem references_mapping {v : Value} {es : Entries Key Value} (h : Field.mapping v = .ok es) :
    (dict es).references ⊆ v.references := by
  unfold Field.mapping at h
  split at h
  · split at h
    · cases h
      exact List.Subset.refl _
    · cases h
  · cases h
    exact nofun

end Value

theorem Content.references_schema {content node : Value} (h : Content.schema content = .ok node) :
    node.references ⊆ content.references := by
  have hstring : stringSchema.references ⊆ content.references := nofun
  obtain ⟨preferred, -, h⟩ := bind_eq_ok.mp h
  cases preferred with
  | none =>
    cases h
    exact hstring
  | some media =>
    dsimp only at h
    split at h
    · obtain ⟨es, hes, h⟩ := bind_eq_ok.mp h
      cases h
      refine Value.references_orElse (fun r hr => ?_) hstring
      exact Value.references_getD _ _ (Value.references_mapping hes (Value.references_getD _ _ hr))
    · cases h

namespace Parameter

def Asks (rs : List String) (v : Value) : Prop :=
  ∀ es, v = .dict es → (Schema.ofValue (Value.getD es "schema")).refs ⊆ rs

def Declared.Asks (rs : List String) : Declared → Prop
  | plain v => Parameter.Asks rs v
  | gathered _ _ properties => ∀ p ∈ properties, (Schema.ofValue p.2).refs ⊆ rs

theorem asks_of_references {v : Value} {rs : List String} (h : v.references ⊆ rs) : Asks rs v := by
  rintro es rfl r hr
  exact h (Value.references_getD es "schema" (Schema.refs_ofValue _ hr))

theorem refs_gathered {properties : Entries Key Value} {rs : List String}
    (h : ∀ p ∈ properties, (Schema.ofValue p.2).refs ⊆ rs) :
    (Schema.ofValue (Value.object [("type", .str "object"), ("properties", .dict properties)])).refs ⊆
      rs := by
  cases properties with
  | nil => exact nofun
  | cons p rest =>
    have hfields : ∀ e ∈ Entries.mapValues Schema.ofValue (p :: rest), e.2.refs ⊆ rs := by
      intro e he
      obtain ⟨q, hq, rfl⟩ := List.mem_map.mp he
      exact h q hq
    have hobject : Schema.ofValue
        (Value.object [("type", .str "object"), ("properties", .dict (p :: rest))]) =
        .object (Schema.marked [] (Schema.facet (.dict (p :: rest))).fields) none := rfl
    rw [hobject, Schema.fields_facet]
    exact Schema.field_refs_subset (Schema.refs_marked [] hfields)

namespace Declared

variable {rs : List String} {done ds : List Declared} {v : Value}

theorem Asks.toValue {d : Declared} (h : d.Asks rs) : Parameter.Asks rs d.toValue := by
  cases d with
  | plain v => exact h
  | gathered name location properties =>
    rintro es he
    cases he
    exact refs_gathered h

theorem Asks.gather {d : Declared} (h : d.Asks rs) (property : String) {schema : Value}
    (hs : (Schema.ofValue schema).refs ⊆ rs) : (d.gather property schema).Asks rs := by
  cases d with
  | plain v => exact h
  | gathered name location properties =>
    intro p hp
    rcases Entries.mem_put hp with hp | hp
    · exact h p hp
    · rwa [hp]

theorem asks_add (h : ∀ d ∈ done, d.Asks rs) (hv : Parameter.Asks rs v) (hadd : add done v = .ok ds) :
    ∀ d ∈ ds, d.Asks rs := by
  cases v with
  | dict es =>
    have hs := hv es rfl
    obtain ⟨-, hadd⟩ := add_dict hadd
    split at hadd
    · subst hadd
      exact List.forall_mem_append.mpr ⟨h, List.forall_mem_singleton.mpr hv⟩
    · split at hadd
      · subst hadd
        intro d' hd'
        obtain ⟨d, hd, rfl⟩ := List.mem_map.mp hd'
        split
        · exact (h d hd).gather _ hs
        · exact h d hd
      · subst hadd
        exact List.forall_mem_append.mpr
          ⟨h, List.forall_mem_singleton.mpr (List.forall_mem_singleton.mpr hs)⟩
  | _ => cases hadd

end Declared

/-- Merged objects ask for nothing more than those that were merged. -/
theorem asks_mergeBracketed {rs : List String} {objects merged : List Value}
    (h : ∀ v ∈ objects, Asks rs v) (hmerged : mergeBracketed objects = .ok merged) :
    ∀ v ∈ merged, Asks rs v := by
  obtain ⟨ds, hds, he⟩ := bind_eq_ok.mp hmerged
  cases he
  suffices hall : ∀ done : List Declared, (∀ d ∈ done, d.Asks rs) →
      objects.foldlM Declared.add done = .ok ds → ∀ d ∈ ds, d.Asks rs by
    intro v hv
    obtain ⟨d, hd, rfl⟩ := List.mem_map.mp hv
    exact (hall [] nofun hds d hd).toValue
  clear hds hmerged
  induction objects with
  | nil =>
    intro done hdone hds
    cases hds
    exact hdone
  | cons v objects ih =>
    obtain ⟨hv, hrest⟩ := List.forall_mem_cons.mp h
    intro done hdone hds
    rw [List.foldlM_cons] at hds
    obtain ⟨next, hnext, hds⟩ := bind_eq_ok.mp hds
    exact ih hrest next (Declared.asks_add hdone hv hnext) hds

end Parameter

section Lists

variable {m : Type → Type} [Monad m] {α β γ δ : Type} {as : List α} {bs : List β}

theorem mapM_eq_of_forall₂ [LawfulMonad m] {f : α → m γ} {g : β → m γ}
    (h : List.Forall₂ (fun a b => f a = g b) as bs) : as.mapM f = bs.mapM g := by
  induction h with
  | nil => rfl
  | cons hab _ ih => rw [List.mapM_cons, List.mapM_cons, hab, ih]

theorem foldlM_eq_of_forall₂ {f : δ → α → m δ} {g : δ → β → m δ}
    (h : List.Forall₂ (fun a b => ∀ s, f s a = g s b) as bs) (s : δ) :
    as.foldlM f s = bs.foldlM g s := by
  induction h generalizing s with
  | nil => rfl
  | cons hab _ ih =>
    rw [List.foldlM_cons, List.foldlM_cons, hab]
    exact bind_congr ih

theorem anyM_eq_of_forall₂ {f : α → m Bool} {g : β → m Bool}
    (h : List.Forall₂ (fun a b => f a = g b) as bs) : as.anyM f = bs.anyM g := by
  induction h with
  | nil => rfl
  | cons hab _ ih => rw [List.anyM, List.anyM, hab, ih]

end Lists

theorem Compile.bind_ofExcept_congr {α β : Type} {r : Except Fault α} {f g : α → Compile β}
    (h : ∀ a, r = .ok a → f a = g a) : (ofExcept r >>= f) = (ofExcept r >>= g) := by
  cases r with
  | error e => rfl
  | ok a => exact h a rfl

theorem Compile.bind_ofExcept_ok {α β : Type} (a : α) (f : α → Compile β) :
    (ofExcept (.ok a : Except Fault α) >>= f) = f a := rfl

open Compile (bind_ofExcept_congr)

section Parts

variable {document other : Value}
  (h : ∀ r ∈ other.references, Pointer.resolve document r = Pointer.resolve other r)

include h

theorem Parameter.compile_eq_of_agree {es : Entries Key Value} (arguments : Entries String String)
    (hes : Asks other.references (.dict es)) :
    compile document arguments es = compile other arguments es := by
  unfold compile
  rw [compileSchema_eq_of_agree h (hes es rfl)]

theorem Parameter.compileAll_eq_of_agree {objects : List Value}
    (hobjects : ∀ v ∈ objects, Asks other.references v) :
    compileAll document objects = compileAll other objects := by
  unfold compileAll
  refine bind_ofExcept_congr fun ess hess => bind_ofExcept_congr fun names _ => ?_
  have hall : ∀ es ∈ ess, Asks other.references (.dict es) := by
    intro es hes
    obtain ⟨v, hv, he⟩ := (partners (mapM_eq_ok hess)).2 es hes
    cases v with
    | dict fs =>
      cases he
      exact hobjects _ hv
    | _ => cases he
  have hsame : ess.mapM (compile document (Naming.argumentNames names)) =
      ess.mapM (compile other (Naming.argumentNames names)) :=
    mapM_eq_of_forall₂ (List.forall₂_same.mpr fun es hes => compile_eq_of_agree h _ (hall es hes))
  dsimp only
  rw [hsame]

/-- The node stands in `other` for what the node `v` of `document` leads to, with no further references. -/
structure StandsFor (document other v node : Value) : Prop where
  before : Value.resolved document v = .ok node
  after : Value.resolved other node = .ok node
  null_iff : v.kind = .null ↔ node.kind = .null
  references : node.references ⊆ other.references

variable {v node : Value}

omit h in
theorem Response.contentOf_eq (hv : StandsFor document other v node) :
    contentOf document v = contentOf other node := by
  rw [contentOf, contentOf, hv.before, hv.after]

omit h in
theorem Response.references_contentOf (hv : StandsFor document other v node) {content : Value}
    (hc : contentOf other node = .ok content) : content.references ⊆ other.references := by
  obtain ⟨_, hafter, hc⟩ := bind_eq_ok.mp hc
  rw [hv.after] at hafter
  cases hafter
  obtain ⟨es, hes, hc⟩ := bind_eq_ok.mp hc
  cases hc
  intro r hr
  exact hv.references (Value.references_mapping hes (Value.references_getD _ _ hr))

theorem Response.bodyCodec_eq (hv : StandsFor document other v node) :
    bodyCodec document v = bodyCodec other node := by
  unfold bodyCodec
  rw [contentOf_eq hv]
  refine bind_ofExcept_congr fun content hcontent => ?_
  split
  · refine bind_ofExcept_congr fun schema hschema => compileSchema_eq_of_agree h fun r hr => ?_
    refine references_contentOf hv hcontent (Content.references_schema hschema ?_)
    exact Schema.refs_ofValue schema hr
  · rfl

theorem Response.compile_eq {responses others : Entries Key Value}
    (hr : Entries.Pointwise (StandsFor document other) responses others) :
    compile document responses = compile other others := by
  have hall : List.Forall₂ (fun e f => ∀ b, addBody document b e = addBody other b f)
      (responses.filter fun e => e.1.text != noContent)
      (others.filter fun e => e.1.text != noContent) := by
    induction hr with
    | nil => exact .nil
    | @cons e f es fs hef _ ih =>
      rw [List.filter_cons, List.filter_cons, ← hef.1]
      split
      · refine .cons (fun b => ?_) ih
        rw [addBody, addBody, bodyCodec_eq h hef.2, hef.1]
      · exact ih
  rw [compile, compile, foldlM_eq_of_forall₂ hall]

omit h in
theorem Response.offersJson_eq {responses others : Entries Key Value}
    (hr : Entries.Pointwise (StandsFor document other) responses others) :
    offersJson document responses.values = offersJson other others.values := by
  unfold offersJson
  refine anyM_eq_of_forall₂ (hr.values.imp fun v node hv => ?_)
  rw [contentOf_eq hv]

theorem Body.compile_eq (hv : StandsFor document other v node) :
    compile document v = compile other node := by
  unfold compile
  rw [hv.before, hv.after]
  have hnull : (v.kind = .null) = (node.kind = .null) := propext hv.null_iff
  simp only [hnull]
  split
  · rfl
  refine bind_ofExcept_congr fun es hes => bind_ofExcept_congr fun preferred _ => ?_
  refine bind_ofExcept_congr fun schema hschema => ?_
  rw [compileSchema_eq_of_agree h]
  intro r hr
  have hcontent := Content.references_schema hschema (Schema.refs_ofValue schema hr)
  exact hv.references (Value.references_mapping hes (Value.references_getD _ _ hcontent))

end Parts

end OpenApi
