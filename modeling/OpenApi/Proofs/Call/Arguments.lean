import OpenApi.Call
import OpenApi.Proofs.Call.Signature
import OpenApi.Proofs.Operation.Parameters
/-! # The arguments of an operation

Parameters share an argument exactly if they share a name. An operation whose parameters have
different names has one argument for each of them, and a call can give these any values. -/
namespace OpenApi

def Parameter.slotName (p : Parameter) : String := Naming.signatureName p.argument

namespace Parameter

variable {ps : List Parameter} (h : Named ps)

include h

theorem slotName_eq_iff {p q : Parameter} (hp : p ∈ ps) (hq : q ∈ ps) :
    p.slotName = q.slotName ↔ p.name = q.name := by
  obtain ⟨names, h⟩ := h
  constructor
  · intro he
    have ha : p.argument = q.argument :=
      Naming.signatureName_injective (Naming.alphanumeric_of_argument (h p hp))
        (Naming.alphanumeric_of_argument (h q hq)) he
    exact Naming.name_eq_of_argument_eq (h p hp) (ha ▸ h q hq)
  · intro he
    have ha : some p.argument = some q.argument := by rw [← h p hp, he, h q hq]
    rw [slotName, slotName, Option.some.inj ha]

theorem slotNames_nodup_iff : (ps.map slotName).Nodup ↔ (ps.map name).Nodup := by
  simp only [List.Nodup, List.pairwise_map]
  constructor
  · intro hd
    refine hd.imp_of_mem fun hp hq hne he => hne ?_
    exact (slotName_eq_iff h hp hq).2 he
  · intro hd
    refine hd.imp_of_mem fun hp hq hne he => hne ?_
    exact (slotName_eq_iff h hp hq).1 he

end Parameter

namespace Operation

def valueOf (bound : Entries String Value) (p : Parameter) : Value :=
  (bound.get? p.slotName).getD .null

def parametersOf (o : Operation) (required : Bool) : List Parameter :=
  o.parameters.filter fun p => p.required == required

/-- Whether every optional parameter can be given by name. -/
def Callable (o : Operation) : Prop := ∀ p ∈ o.parametersOf false, p.slotName ≠ receiverName

def positionalWith (o : Operation) (value : Parameter → Value) (body : Value) :
    Entries String Value :=
  ((o.parametersOf true).map fun p => (p.slotName, value p)) ++
    o.bodySlots.map fun s => (s.name, body)

def namedWith (o : Operation) (value : Parameter → Value) : Entries String Value :=
  (o.parametersOf false).map fun p => (p.slotName, value p)

def callWith (o : Operation) (value : Parameter → Value) (body : Value) : Arguments :=
  ⟨(o.positionalWith value body).values, o.namedWith value, none⟩

def boundWith (o : Operation) (value : Parameter → Value) (body : Value) : Entries String Value :=
  o.positionalWith value body ++ (o.namedWith value ++ [("query", .null), ("opts", .null)])

theorem keys_slots {α : Type} (f : Parameter → α) (ps : List Parameter) :
    Entries.keys (ps.map fun p => (p.slotName, f p)) = ps.map Parameter.slotName := by
  simp [Entries.keys, Function.comp_def]

theorem mem_arguments {o : Operation} {k : String} (h : k ∈ o.arguments.keys) :
    ∃ p ∈ o.parameters, p.slotName = k := by
  rcases Entries.mem_keys_overlay.1 h with h | h
  · cases h
  · obtain ⟨e, he, rfl⟩ := List.mem_map.1 h
    obtain ⟨p, hp, rfl⟩ := List.mem_map.1 he
    exact ⟨p, hp, rfl⟩

theorem bodySlots_positional (o : Operation) : ∀ s ∈ o.bodySlots,
    s.name = "body" ∧ s.positional = true := by
  unfold bodySlots
  cases o.body with
  | none => simp
  | some body => simp

theorem mem_names_signature {o : Operation} {k : String} (h : k ∈ o.signature.map Slot.name) :
    (∃ p ∈ o.parameters, p.slotName = k) ∨ k ∈ Naming.reservedArguments := by
  have hslots : ∀ required, k ∈ (o.parameterSlots required).map Slot.name →
      ∃ p ∈ o.parameters, p.slotName = k := by
    intro required hk
    obtain ⟨slot, hslot, rfl⟩ := List.mem_map.1 hk
    obtain ⟨e, he, rfl⟩ := List.mem_map.1 hslot
    exact mem_arguments (List.mem_map_of_mem (List.mem_filter.1 he).1)
  simp only [signature, List.map_append, List.mem_append] at h
  rcases h with ((h | h) | h) | h
  · exact .inl (hslots true h)
  · obtain ⟨slot, hslot, rfl⟩ := List.mem_map.1 h
    rw [(bodySlots_positional o slot hslot).1]
    exact .inr (by decide)
  · exact .inl (hslots false h)
  · refine .inr (List.mem_cons_of_mem _ ?_)
    exact h

/-- The names in a signature are all different, even where parameters share an argument. -/
theorem signature_nodup (o : Operation) : (o.signature.map Slot.name).Nodup := by
  have hslots : ∀ r, (o.parameterSlots r).map Slot.name =
      (o.arguments.filter fun a => a.2.required == r).map Prod.fst := by
    intro r
    simp [parameterSlots, Function.comp_def]
  have hk : o.arguments.keys.Nodup := Entries.nodup_keys_overlay _ List.nodup_nil
  have hfalse : (o.arguments.filter fun a => a.2.required == false) =
      o.arguments.filter fun a => !(a.2.required == true) := by
    refine List.filter_congr fun a _ => ?_
    cases a.2.required <;> rfl
  -- the two kinds of slots are the arguments, in another order
  have hperm : ((o.parameterSlots true).map Slot.name ++
      (o.parameterSlots false).map Slot.name).Perm o.arguments.keys := by
    rw [hslots, hslots, hfalse, ← List.map_append]
    exact (List.filter_append_perm _ _).map _
  have hmem : ∀ k ∈ (o.parameterSlots true).map Slot.name ++
      (o.parameterSlots false).map Slot.name, k ∉ Naming.reservedArguments := by
    intro k hk
    obtain ⟨p, -, rfl⟩ := mem_arguments (hperm.mem_iff.1 hk)
    exact Naming.signatureName_not_reserved _
  have hown : (o.bodySlots.map Slot.name ++ ["query", "opts"]).Nodup ∧
      ∀ k ∈ o.bodySlots.map Slot.name ++ ["query", "opts"], k ∈ Naming.reservedArguments := by
    unfold bodySlots
    cases o.body with
    | none => decide
    | some body => exact ⟨by simp, by simp [Naming.reservedArguments]⟩
  have hall : ((o.parameterSlots true).map Slot.name ++ (o.parameterSlots false).map Slot.name ++
      (o.bodySlots.map Slot.name ++ ["query", "opts"])).Nodup := by
    refine List.nodup_append.2 ⟨hperm.nodup_iff.2 hk, hown.1, ?_⟩
    rintro a ha b hb rfl
    exact hmem a ha (hown.2 a hb)
  refine (List.Perm.nodup_iff ?_).2 hall
  simp only [signature, List.map_append, List.map_cons, List.map_nil, List.append_assoc]
  refine List.Perm.append_left _ ?_
  rw [← List.append_assoc, ← List.append_assoc]
  exact List.perm_append_comm.append_right _

theorem bind_eq_ok_iff {o : Operation} {a : Arguments} {bound : Entries String Value} :
    o.bind a = .ok bound ↔ receiverName ∉ a.named.keys ∧ o.signature.bind a.positional
      (if a.settings.isSome then a.named.erase "opts" else a.named) = .ok bound := by
  rw [bind, ← Entries.has_iff]
  by_cases hs : a.named.has receiverName = true
  · simp [hs]
  · rw [if_neg hs]
    dsimp only
    generalize o.signature.bind a.positional _ = r
    cases r with
    | error f => exact ⟨nofun, nofun⟩
    | ok b => exact ⟨fun he => ⟨hs, by cases he; rfl⟩, fun he => by cases he.2; rfl⟩

theorem mem_named_of_passed {a : Arguments} {k : String}
    (h : k ∈ (if a.settings.isSome then a.named.erase "opts" else a.named).keys) :
    k ∈ a.named.keys := by
  split at h
  · exact (Entries.mem_keys_erase.1 h).1
  · exact h

theorem keys_nodup_of_bind {o : Operation} {a : Arguments} {bound : Entries String Value}
    (hb : o.bind a = .ok bound) : bound.keys.Nodup := by
  rw [Signature.keys_of_bind (bind_eq_ok_iff.1 hb).2]
  exact signature_nodup o

variable {o : Operation} (h : Parameter.Named o.parameters)

include h

theorem names_nodup_of_arguments (hl : o.arguments.length = o.parameters.length) :
    (o.parameters.map Parameter.name).Nodup := by
  apply (Parameter.slotNames_nodup_iff h).1
  have hn : (Entries.keys (o.parameters.map fun p => (p.slotName, p))).Nodup :=
    Entries.nodup_of_length_ofList (by rw [List.length_map]; exact hl)
  rwa [keys_slots] at hn

section Different

variable (hd : (o.parameters.map Parameter.name).Nodup)

include hd

theorem arguments_eq : o.arguments = o.parameters.map fun p => (p.slotName, p) := by
  have hs := (Parameter.slotNames_nodup_iff h).2 hd
  rw [← keys_slots id] at hs
  exact Entries.ofList_of_nodup hs

theorem parameterSlots_eq (required : Bool) : o.parameterSlots required =
    (o.parametersOf required).map fun p => ⟨p.slotName, required, required⟩ := by
  rw [parameterSlots, arguments_eq h hd, parametersOf, List.filter_map, List.map_map]
  rfl

theorem bind_callWith (hc : o.Callable) (value : Parameter → Value) (body : Value) :
    o.bind (o.callWith value body) = .ok (o.boundWith value body) := by
  have hreq := parameterSlots_eq h hd true
  have hopt := parameterSlots_eq h hd false
  have hpositional : (o.positionalWith value body).keys =
      (o.parameterSlots true ++ o.bodySlots).map Slot.name := by
    rw [positionalWith, Entries.keys_append, keys_slots, hreq, List.map_append, List.map_map]
    simp [Entries.keys, Function.comp_def]
  have hnamed : (o.namedWith value).keys = (o.parameterSlots false).map Slot.name := by
    rw [namedWith, keys_slots, hopt, List.map_map]
    rfl
  have hself : receiverName ∉ (o.callWith value body).named.keys := by
    rw [callWith, namedWith, keys_slots]
    intro hs
    obtain ⟨p, hp, hk⟩ := List.mem_map.1 hs
    exact hc p hp hk
  -- no slot is filled twice, since the names in the signature are different
  have hn := signature_nodup o
  rw [signature, List.append_assoc, List.map_append, ← hpositional, List.map_append,
    ← hnamed] at hn
  obtain ⟨-, hback, happart⟩ := List.nodup_append.1 hn
  have hfront : ∀ s ∈ o.parameterSlots true ++ o.bodySlots,
      s.positional = true ∧ s.name ∉ (o.namedWith value).keys := by
    intro s hs
    constructor
    · rcases List.mem_append.1 hs with hs | hs
      · rw [hreq] at hs
        obtain ⟨p, -, rfl⟩ := List.mem_map.1 hs
        rfl
      · exact (bodySlots_positional o s hs).2
    · intro hm
      exact happart _ (hpositional ▸ List.mem_map_of_mem hs) _ (List.mem_append_left _ hm) rfl
  refine bind_eq_ok_iff.2 ⟨hself, ?_⟩
  have hs : o.signature = (o.parameterSlots true ++ o.bodySlots) ++ (o.parameterSlots false ++
      [⟨"query", false, false⟩, ⟨"opts", false, false⟩]) := by
    rw [signature, List.append_assoc]
  have hp := Signature.bind_positional hpositional (fun s hs => (hfront s hs).1)
    (fun s hs => (hfront s hs).2)
    (o.parameterSlots false ++ [⟨"query", false, false⟩, ⟨"opts", false, false⟩])
  rw [Signature.bind_named hnamed (List.nodup_append.1 hback).1] at hp
  rw [hs]
  exact hp

theorem valueOf_boundWith (hc : o.Callable) (value : Parameter → Value) (body : Value)
    {p : Parameter} (hp : p ∈ o.parameters) : valueOf (o.boundWith value body) p = value p := by
  have hm : (p.slotName, value p) ∈ o.boundWith value body := by
    simp only [boundWith, positionalWith, namedWith, List.mem_append]
    cases hr : p.required
    · refine .inr (.inl (List.mem_map.2 ⟨p, ?_, rfl⟩))
      exact List.mem_filter.2 ⟨hp, by simp [hr]⟩
    · refine .inl (.inl (List.mem_map.2 ⟨p, ?_, rfl⟩))
      exact List.mem_filter.2 ⟨hp, by simp [hr]⟩
  rw [valueOf, Entries.get?_of_mem (keys_nodup_of_bind (bind_callWith h hd hc value body)) hm]
  rfl

theorem callable_of_bind {a : Arguments} {bound : Entries String Value}
    (hb : o.bind a = .ok bound) (hv : ∀ p ∈ o.parameters, (valueOf bound p).kind ≠ .null) :
    o.Callable := by
  intro p hp hself
  obtain ⟨hn, hs⟩ := bind_eq_ok_iff.1 hb
  have hslot : ⟨p.slotName, false, false⟩ ∈ o.signature := by
    simp only [signature, List.mem_append, parameterSlots_eq h hd]
    exact .inl (.inr (List.mem_map.2 ⟨p, hp, rfl⟩))
  have hnull := Signature.null_of_unnamed hs hslot rfl
    fun hm => hn (hself ▸ mem_named_of_passed hm)
  apply hv p (List.mem_filter.1 hp).1
  rw [valueOf, Entries.get?_of_mem (keys_nodup_of_bind hb) hnull]
  rfl

end Different

end Operation

end OpenApi
