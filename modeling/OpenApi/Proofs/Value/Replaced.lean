import OpenApi.Field
import OpenApi.Pointer
import OpenApi.Proofs.Key
import OpenApi.Proofs.Schema.Related
/-! # Nodes in place of others

A node may be given by a chain of references, of which a document resolves the first one. Mappings and lists
of nodes have related parts at the same places, where some nodes were replaced by what they lead to. -/
namespace OpenApi

namespace Pointer

def first? (ref : String) : Option String := (segments ref).toOption.bind List.head?

theorem segments_ne_nil {ref : String} {names : List String} (h : segments ref = .ok names) :
    names ≠ [] := by
  unfold segments at h
  split at h
  · cases h
    exact fun hnil => Text.pieces_ne_nil _ _ (List.map_eq_nil_iff.mp hnil)
  · cases h

/-- A pointer leads to the same node in two documents that hold the same under its first segment. -/
theorem resolve_eq_of_first {es fs : Entries Key Value} {ref : String}
    (h : ∀ name, first? ref = some name → es.get? (.str name) = fs.get? (.str name)) :
    resolve (.dict es) ref = resolve (.dict fs) ref := by
  unfold resolve
  cases hs : segments ref with
  | error e => rfl
  | ok names =>
    cases names with
    | nil => exact absurd rfl (segments_ne_nil hs)
    | cons name rest =>
      have hname : es.get? (.str name) = fs.get? (.str name) := h name (by rw [first?, hs]; rfl)
      have hstep : step ref (.dict es) name = step ref (.dict fs) name := by rw [step, step, hname]
      show (name :: rest).foldlM (step ref) (.dict es) = (name :: rest).foldlM (step ref) (.dict fs)
      rw [List.foldlM_cons, List.foldlM_cons, hstep]

theorem resolve_of_segments {es : Entries Key Value} {ref : String} (name : String) {node : Value}
    (hs : (segments ref).toOption = some [name]) (hn : es.get? (.str name) = some node) :
    resolve (.dict es) ref = .ok node := by
  have hsegments : segments ref = .ok [name] := by
    cases h : segments ref with
    | error e =>
      rw [h] at hs
      cases hs
    | ok names =>
      rw [h] at hs
      exact congrArg Except.ok (Option.some.inj hs)
  rw [resolve, hsegments]
  show (do let v ← step ref (.dict es) name; [].foldlM (step ref) v) = .ok node
  rw [step, hn]
  rfl

end Pointer

namespace Value

/-- The node leads to `last` by so many references, one after the other. A node that is no reference is
where it leads to, and where references lead there is an object. -/
inductive LeadsTo (document : Value) : Nat → Value → Value → Prop
  | here {node : Value} (plain : node.get? "$ref" = none) : LeadsTo document 0 node node
  | link {n : Nat} {node next last : Value} {ref : String} (reference : node.get? "$ref" = some (.str ref))
      (target : Pointer.resolve document ref = .ok next) (rest : LeadsTo document n next last)
      (object : last.kind = .dict) : LeadsTo document (n + 1) node last

def Replaces (document : Value) (links : Nat → Prop) (node last : Value) : Prop :=
  ∃ n, links n ∧ LeadsTo document n node last

/-- Two mappings have the same keys, and the values under each are related. What is no mapping is the
same. -/
inductive Mapped (S : Key → Value → Value → Prop) : Value → Value → Prop
  | dict {es fs : Entries Key Value} (h : List.Forall₂ (fun e f => e.1 = f.1 ∧ S e.1 e.2 f.2) es fs) :
      Mapped S (.dict es) (.dict fs)
  | other {v : Value} (h : v.kind ≠ .dict) : Mapped S v v

inductive Listed (R : Value → Value → Prop) : Value → Value → Prop
  | list {vs ws : List Value} (h : List.Forall₂ R vs ws) : Listed R (.list vs) (.list ws)
  | tuple {vs ws : List Value} (h : List.Forall₂ R vs ws) : Listed R (.tuple vs) (.tuple ws)
  | other {v : Value} (hl : v.kind ≠ .list) (ht : v.kind ≠ .tuple) : Listed R v v

variable {document node last : Value} {n : Nat}

theorem LeadsTo.plain (h : LeadsTo document n node last) : last.get? "$ref" = none := by
  induction h with
  | here plain => exact plain
  | link _ _ _ _ ih => exact ih

theorem resolved_of_plain (h : node.get? "$ref" = none) : resolved document node = .ok node := by
  rw [resolved, h]

theorem LeadsTo.resolved_eq (h : LeadsTo document n node last) (hn : n ≤ 1) :
    resolved document node = .ok last := by
  cases h with
  | here plain => exact resolved_of_plain plain
  | link reference target rest _ =>
    cases rest with
    | here =>
      rw [resolved, reference]
      exact target
    | link => omega

theorem kind_of_get? {v : Value} {name : String} (h : node.get? name = some v) : node.kind = .dict := by
  cases node with
  | dict es => rfl
  | _ => cases h

theorem get?_of_mapped {S : Key → Value → Value → Prop} {es fs : Entries Key Value}
    (h : List.Forall₂ (fun e f => e.1 = f.1 ∧ S e.1 e.2 f.2) es fs) (name : String) :
    (es.get? (.str name) = none ∧ fs.get? (.str name) = none) ∨
      ∃ v w, es.get? (.str name) = some v ∧ fs.get? (.str name) = some w ∧ S (.str name) v w := by
  induction h with
  | nil => exact .inl ⟨rfl, rfl⟩
  | @cons e f es fs hef _ ih =>
    obtain ⟨k, v⟩ := e
    obtain ⟨l, w⟩ := f
    obtain ⟨rfl, hvw⟩ : k = l ∧ S k v w := hef
    rw [Entries.get?_cons, Entries.get?_cons]
    by_cases hk : (Key.str name == k) = true
    · rw [if_pos hk, if_pos hk]
      rw [Key.eq_str_of_beq hk] at hvw
      exact .inr ⟨v, w, rfl, rfl, hvw⟩
    · rw [if_neg hk, if_neg hk]
      exact ih

theorem getD_of_mapped {S : Key → Value → Value → Prop} {es fs : Entries Key Value}
    (h : List.Forall₂ (fun e f => e.1 = f.1 ∧ S e.1 e.2 f.2) es fs) (name : String)
    (hnull : S (.str name) .null .null) : S (.str name) (getD es name) (getD fs name) := by
  unfold getD
  rcases get?_of_mapped h name with ⟨hes, hfs⟩ | ⟨v, w, hes, hfs, hvw⟩
  · rw [hes, hfs]
    exact hnull
  · rw [hes, hfs]
    exact hvw

theorem Mapped.mapping {S : Key → Value → Value → Prop} {v w : Value} (h : Mapped S v w) :
    (∃ f, Field.mapping v = .error f ∧ Field.mapping w = .error f) ∨
      ∃ es fs, Field.mapping v = .ok es ∧ Field.mapping w = .ok fs ∧
        List.Forall₂ (fun e f => e.1 = f.1 ∧ S e.1 e.2 f.2) es fs := by
  cases h with
  | dict h =>
    cases h with
    | nil => exact .inr ⟨[], [], rfl, rfl, .nil⟩
    | cons he hrest => exact .inr ⟨_, _, rfl, rfl, .cons he hrest⟩
  | other hv =>
    unfold Field.mapping
    split
    · cases v with
      | dict es => exact absurd rfl hv
      | _ => exact .inl ⟨_, rfl, rfl⟩
    · exact .inr ⟨[], [], rfl, rfl, .nil⟩

theorem Mapped.plain {S : Key → Value → Value → Prop} {v w : Value} (h : Mapped S v w)
    (hv : v.get? "$ref" = none) : w.get? "$ref" = none := by
  cases h with
  | dict h =>
    rcases get?_of_mapped h "$ref" with ⟨-, hfs⟩ | ⟨u, -, hes, -, -⟩
    · exact hfs
    · rw [get?, hes] at hv
      cases hv
  | other => exact hv

end Value

/-- Whatever a node is replaced by is no reference, and it is what the document resolves the node to. -/
structure Followed (document : Value) (R : Value → Value → Prop) : Prop where
  resolved : ∀ {v w : Value}, R v w → Value.resolved document v = .ok w
  plain : ∀ {v w : Value}, R v w → w.get? "$ref" = none
  null_iff : ∀ {v w : Value}, R v w → (v.kind = .null ↔ w.kind = .null)
  null : R .null .null

theorem followed_replaces (document : Value) : Followed document (Value.Replaces document (· ≤ 1)) where
  resolved := fun ⟨_, hn, h⟩ => h.resolved_eq hn
  plain := fun ⟨_, _, h⟩ => h.plain
  null_iff := by
    rintro v w ⟨_, _, h⟩
    cases h with
    | here => exact Iff.rfl
    | link reference _ _ object => rw [Value.kind_of_get? reference, object]
  null := ⟨0, Nat.zero_le 1, .here rfl⟩

section Members

variable {document v : Value}

/-- A walk over what is no sequence meets no mappings. -/
theorem kind_of_elements {us : List Value} (hl : v.kind ≠ .list) (ht : v.kind ≠ .tuple)
    (h : v.elements? = some us) : ∀ u ∈ us, u.kind ≠ .dict := by
  cases v with
  | list | tuple => contradiction
  | dict es =>
    cases h
    intro u hu
    obtain ⟨e, -, rfl⟩ := List.mem_map.mp hu
    cases e.1 <;> exact Kind.noConfusion
  | str s =>
    cases h
    intro u hu
    obtain ⟨c, -, rfl⟩ := List.mem_map.mp hu
    exact Kind.noConfusion
  | bytes data | buffer data =>
    cases h
    intro u hu
    obtain ⟨b, -, rfl⟩ := List.mem_map.mp hu
    exact Kind.noConfusion
  | _ => cases h

theorem resolved_of_kind (h : v.kind ≠ .dict) : Value.resolved document v = .ok v := by
  cases v with
  | dict es => exact absurd rfl h
  | _ => rfl

theorem mapM_resolved_of_kind {us : List Value} (h : ∀ u ∈ us, u.kind ≠ .dict) :
    us.mapM (Value.resolved document) = .ok us := by
  induction us with
  | nil => rfl
  | cons u us ih =>
    obtain ⟨hu, hus⟩ := List.forall_mem_cons.mp h
    rw [List.mapM_cons, resolved_of_kind hu, ih hus]
    rfl

end Members

end OpenApi
