import OpenApi.Proofs.Call.Required
import OpenApi.Proofs.Call.Sound
import OpenApi.Proofs.Call.Written
/-! # Giving all arguments by name

The names in a signature are different and can be written in a call. So a call can give every argument
by its name, unless that is the name of the receiver, which has its value before any argument is bound. -/
namespace OpenApi

namespace Operation

/-- Every argument can be given by name: the names are different and usable, and a call is prepared that
gives a text to every parameter by name and null or nothing to the other arguments. -/
structure TakesNames (o : Operation) : Prop where
  different : (o.signature.map Slot.name).Nodup
  usable : ∀ slot ∈ o.signature, Naming.isUsable slot.name = true
  prepared : ∀ base query value (a : Arguments), a.positional = [] → a.Writes o value none →
    (∀ p ∈ o.parameters, ∃ text, value p.slotName = .str text) →
    (∀ k ∈ Naming.reservedArguments, value k = .null) → ∃ r, o.prepare base query a = .ok r

variable {o : Operation} {value : String → Value} {a : Arguments}

theorem boundTo_eq (o : Operation) (value : String → Value) :
    o.boundTo value = (o.signature.map Slot.name).map fun k => (k, value k) := by
  rw [boundTo, List.map_map]
  rfl

theorem null_of_boundTo {k : String} (h : value k = .null) :
    ((o.boundTo value).get? k).getD .null = .null := by
  rw [boundTo_eq]
  by_cases hk : k ∈ o.signature.map Slot.name
  · rw [Entries.get?_map value hk]
    exact h
  · rw [Entries.get?_eq_none_iff.2 (by rwa [Entries.keys_map])]
    rfl

theorem prepared_of_writes (hself : ∀ p ∈ o.parameters, p.slotName ≠ receiverName)
    (h : a.Writes o value none) (hnull : ∀ k ∈ Naming.reservedArguments, value k = .null)
    (base : Option String) (query : Entries String Value) : ∃ r, o.prepare base query a = .ok r := by
  have hbody := null_of_boundTo (o := o) (hnull "body" (by decide))
  obtain ⟨-, -, r, -, hr, -⟩ := exists_prepared (bind_of_writes hself h)
    (null_of_boundTo (hnull "query" (by decide))) h.given (null_of_boundTo (hnull "opts" (by decide)))
    (fun _ _ => .inl hbody) base query
  exact ⟨r, hr⟩

def callByName (o : Operation) (value : String → Value) : Arguments := ⟨[], o.boundTo value, none⟩

theorem writes_callByName (o : Operation) (value : String → Value) :
    (o.callByName value).Writes o value none where
  arguments :=
    { values := rfl
      positional := nofun
      once := by
        show (o.boundTo value).keys.Nodup
        rw [boundTo_eq, Entries.keys_map]
        exact signature_nodup o
      byName := by
        intro e he
        obtain ⟨slot, hslot, rfl⟩ := List.mem_map.1 he
        exact ⟨List.mem_map_of_mem hslot, rfl⟩
      omitted := by
        intro slot hslot hn
        refine absurd ?_ hn
        show slot.name ∈ (o.boundTo value).keys
        rw [boundTo_eq, Entries.keys_map]
        exact List.mem_map_of_mem hslot }
  given := rfl
  opts := nofun

theorem mem_signature_of_parameter {p : Parameter} (hp : p ∈ o.parameters) :
    p.slotName ∈ o.signature.map Slot.name := by
  obtain ⟨q, hq⟩ := exists_argument hp
  obtain ⟨e, he, hk, rfl⟩ := Entries.mem_of_get? hq
  have hslot : ⟨p.slotName, e.2.required, e.2.required⟩ ∈ o.parameterSlots e.2.required := by
    rw [parameterSlots, eq_of_beq hk]
    exact List.mem_map.2 ⟨e, List.mem_filter.2 ⟨he, by simp⟩, rfl⟩
  refine List.mem_map.2 ⟨⟨p.slotName, e.2.required, e.2.required⟩, ?_, rfl⟩
  simp only [signature, List.mem_append]
  cases hr : e.2.required with
  | true => exact .inl (.inl (.inl (hr ▸ hslot)))
  | false => exact .inl (.inr (hr ▸ hslot))

theorem not_takesNames_of_receiver {p : Parameter} (hp : p ∈ o.parameters)
    (hself : p.slotName = receiverName) : ¬ o.TakesNames := by
  intro htakes
  let value : String → Value := fun k => if k ∈ Naming.reservedArguments then .null else .str ""
  have htext : ∀ q ∈ o.parameters, ∃ text, value q.slotName = .str text :=
    fun q _ => ⟨"", if_neg (Naming.signatureName_not_reserved q.argument)⟩
  obtain ⟨r, hr⟩ := htakes.prepared none [] value (o.callByName value) rfl
    (writes_callByName o value) htext fun k hk => if_pos hk
  have hkey : receiverName ∈ (o.callByName value).named.keys := by
    show receiverName ∈ (o.boundTo value).keys
    rw [boundTo_eq, Entries.keys_map, ← hself]
    exact mem_signature_of_parameter hp
  rw [prepare_of_receiver hkey] at hr
  cases hr

variable (h : Parameter.Named o.parameters)

include h

theorem slotName_eq_receiver_iff {p : Parameter} (hp : p ∈ o.parameters) :
    p.slotName = receiverName ↔ p.argument = receiverName := by
  obtain ⟨names, h⟩ := h
  have hown : Naming.signatureName receiverName = receiverName := by decide +kernel
  have hletters : Naming.Alphanumeric receiverName.toList := by
    simp [receiverName, Naming.Alphanumeric]
  constructor
  · intro he
    exact Naming.signatureName_injective (Naming.alphanumeric_of_argument (h p hp)) hletters
      (he.trans hown.symm)
  · intro he
    rw [Parameter.slotName, he, hown]

theorem takesNames_iff_receiver :
    o.TakesNames ↔ ∀ p ∈ o.parameters, p.argument ≠ receiverName := by
  constructor
  · intro htakes p hp hself
    exact not_takesNames_of_receiver hp ((slotName_eq_receiver_iff h hp).2 hself) htakes
  · intro hall
    have hself : ∀ p ∈ o.parameters, p.slotName ≠ receiverName :=
      fun p hp he => hall p hp ((slotName_eq_receiver_iff h hp).1 he)
    exact
      { different := signature_nodup o
        usable := fun _ => isUsable_of_mem_signature h
        prepared := fun base query _ _ _ ha _ hnull => prepared_of_writes hself ha hnull base query }

end Operation

/-- Every argument of a compiled operation can be given by name, exactly if none is named like the
receiver. -/
theorem Api.takesNames_iff {document : Entries Key Value} {options : Options} {defaults : Value}
    {c d : Compilation} {api : Api}
    (h : (Api.compile document options defaults).run c = (.ok api, d)) {o : Operation}
    (ho : o ∈ api.operations) :
    o.TakesNames ↔ ∀ p ∈ o.parameters, p.argument ≠ Operation.receiverName :=
  Operation.takesNames_iff_receiver
    ((Api.compile_gives (Operation.Declared.compile_named _) options defaults).of_run h o ho)

theorem Api.takesNames_iff_day : ∃ api d, ∃ o ∈ api.operations,
    (Api.compile (oneQuery "day" "" false) .default .null).run .start = (.ok api, d) ∧
      o.parameters.length = 1 ∧ o.TakesNames := by
  obtain ⟨api, d, hr, hall⟩ := Compile.exists_run_of_any (c := .start)
    (x := Api.compile (oneQuery "day" "" false) .default .null)
    (p := fun api => api.operations.any fun o => decide (o.parameters.length = 1 ∧
      ∀ p ∈ o.parameters, p.argument ≠ Operation.receiverName)) (by decide +kernel)
  obtain ⟨o, ho, hall⟩ := List.any_eq_true.1 hall
  obtain ⟨hl, hother⟩ := of_decide_eq_true hall
  exact ⟨api, d, o, ho, hr, hl, (Api.takesNames_iff hr ho).2 hother⟩

/-- The only parameter has an argument to which no call can give a value. -/
theorem Api.not_takesNames_self : ∃ api d, ∃ o ∈ api.operations,
    (Api.compile (oneQuery "self" "" false) .default .null).run .start = (.ok api, d) ∧
      o.signature.map Slot.name = ["self", "query", "opts"] ∧
      (∀ base query v, o.prepare base query ⟨[], [("self", v)], none⟩ = .error .malformed) ∧
      ¬ o.TakesNames := by
  obtain ⟨api, d, hr, hall⟩ := Compile.exists_run_of_any (c := .start)
    (x := Api.compile (oneQuery "self" "" false) .default .null)
    (p := fun api => api.operations.any fun o => decide (
      o.signature.map Slot.name = ["self", "query", "opts"] ∧
      ∃ p ∈ o.parameters, p.slotName = Operation.receiverName)) (by decide +kernel)
  obtain ⟨o, ho, hall⟩ := List.any_eq_true.1 hall
  obtain ⟨hnames, p, hp, hself⟩ := of_decide_eq_true hall
  refine ⟨api, d, o, ho, hr, hnames, fun base query v => ?_,
    Operation.not_takesNames_of_receiver hp hself⟩
  exact Operation.prepare_of_receiver List.mem_cons_self base query

end OpenApi
