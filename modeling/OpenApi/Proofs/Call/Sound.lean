import OpenApi.Proofs.Call.Arguments
import OpenApi.Proofs.Naming.Usable
/-! # Signatures of operations are sound

Calls can be checked against the signature of every operation: its names are different, can be written in a
call, and stand in an order in which what may be left out never comes before what is asked for by position. -/
namespace OpenApi

namespace Signature

theorem isSound_iff {s : Signature} : s.isSound = true ↔ (s.map Slot.name).Nodup ∧
    (∀ slot ∈ s, Naming.isUsable slot.name = true) ∧
      s.Pairwise fun a b => a.mayPrecede b = true := by
  simp [isSound, and_assoc]

end Signature

namespace Operation

variable {o : Operation}

theorem isUsable_of_mem_signature (h : Parameter.Named o.parameters) {slot : Slot}
    (hs : slot ∈ o.signature) : Naming.isUsable slot.name = true := by
  rcases mem_names_signature (List.mem_map_of_mem hs) with ⟨p, hp, hname⟩ | hk
  · obtain ⟨names, h⟩ := h
    rw [← hname]
    exact Naming.isUsable_signatureName (Naming.alphanumeric_of_argument (h p hp))
  · have hown : ∀ k ∈ Naming.reservedArguments, Naming.isUsable k = true := by decide
    exact hown _ hk

theorem pairwise_signature (o : Operation) :
    o.signature.Pairwise fun a b => a.mayPrecede b = true := by
  have hfront : ∀ a ∈ o.parameterSlots true, ∀ b, a.mayPrecede b = true := by
    intro a ha b
    obtain ⟨e, -, rfl⟩ := List.mem_map.1 ha
    simp [Slot.mayPrecede]
  have hback : ∀ b ∈ o.parameterSlots false ++ [⟨"query", false, false⟩, ⟨"opts", false, false⟩],
      ∀ a : Slot, a.mayPrecede b = true := by
    intro b hb a
    rcases List.mem_append.1 hb with hb | hb
    · obtain ⟨e, -, rfl⟩ := List.mem_map.1 hb
      rfl
    · have hp : b.positional = false := by
        simp only [List.mem_cons, List.not_mem_nil, or_false] at hb
        rcases hb with rfl | rfl <;> rfl
      rw [Slot.mayPrecede, hp]
      rfl
  have hbody : o.bodySlots.Pairwise fun a b => a.mayPrecede b = true := by
    unfold bodySlots
    cases o.body with
    | none => exact .nil
    | some b => exact List.pairwise_singleton _ _
  rw [signature, List.append_assoc, List.append_assoc]
  refine List.pairwise_append.2 ⟨?_, ?_, fun a ha b _ => hfront a ha b⟩
  · exact List.pairwise_of_forall_mem_list fun a ha b _ => hfront a ha b
  · refine List.pairwise_append.2 ⟨hbody, ?_, fun a _ b hb => hback b hb a⟩
    exact List.pairwise_of_forall_mem_list fun a _ b hb => hback b hb a

theorem isSound_signature (h : Parameter.Named o.parameters) : o.signature.isSound = true :=
  Signature.isSound_iff.2
    ⟨signature_nodup o, fun _ => isUsable_of_mem_signature h, pairwise_signature o⟩

end Operation

end OpenApi
