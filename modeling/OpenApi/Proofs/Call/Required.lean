import OpenApi.Proofs.Call.Query
import OpenApi.Proofs.Parameter.Merged
/-! # Required parameters

A call that leaves out a required argument is a wrong one. The argument of a declared parameter is required
as long as every parameter that is built under its name is: merging forgets the mark of a bracketed one. -/
namespace OpenApi

def Arguments.Omits (a : Arguments) (o : Operation) (k : String) : Prop :=
  k ∉ a.named.keys ∧ k ∉ (o.signature.take a.positional.length).map Slot.name

namespace Operation

/-- No request is prepared for a call that leaves out the argument, and it is told that its arguments
are wrong, unless it does not get to that by naming the receiver. -/
def Asks (o : Operation) (k : String) : Prop :=
  ∀ base query (a : Arguments), a.Omits o k → ∃ f, o.prepare base query a = .error f ∧
    (receiverName ∈ a.named.keys ∨ ∃ g, f = .badArguments o.qualifiedName g)

/-- The required ones among the declared objects have arguments that are asked for. -/
def KeepsRequired (o : Operation) (objects : List (Entries Key Value)) : Prop :=
  ∀ es ∈ objects, Parameter.IsRequired es →
    ∃ p ∈ o.parameters, p.name = Parameter.baseName es ∧ o.Asks p.slotName

theorem prepare_of_bind_error {o : Operation} {a : Arguments} {f : Fault} (h : o.bind a = .error f)
    (base : Option String) (query : Entries String Value) : o.prepare base query a = .error f := by
  rw [prepare, h]
  rfl

theorem prepare_of_receiver {o : Operation} {a : Arguments} (h : receiverName ∈ a.named.keys)
    (base : Option String) (query : Entries String Value) :
    o.prepare base query a = .error .malformed := by
  refine prepare_of_bind_error ?_ base query
  rw [bind, if_pos (Entries.has_iff.2 h)]

theorem asks_of_slot {o : Operation} {slot : Slot} (hs : slot ∈ o.signature)
    (hr : slot.required = true) : o.Asks slot.name := by
  intro base query a ⟨hn, ha⟩
  by_cases hself : receiverName ∈ a.named.keys
  · exact ⟨_, prepare_of_receiver hself base query, .inl hself⟩
  · obtain ⟨g, hg⟩ := Signature.bind_missing hs hr (fun hm => hn (mem_named_of_passed hm)) ha
    have hb : o.bind a = .error (.badArguments o.qualifiedName g) := by
      rw [bind, if_neg fun h => hself (Entries.has_iff.1 h)]
      dsimp only
      rw [hg]
      rfl
    exact ⟨_, prepare_of_bind_error hb base query, .inr ⟨g, rfl⟩⟩

def leadingSlots (o : Operation) : Signature := o.parameterSlots true ++ o.bodySlots

def trailingSlots (o : Operation) : Signature :=
  o.parameterSlots false ++ [⟨"query", false, false⟩, ⟨"opts", false, false⟩]

def leastGiven (o : Operation) : Entries String Value :=
  o.leadingSlots.map fun slot => (slot.name, .dict [])

def leastCall (o : Operation) : Arguments := ⟨o.leastGiven.values, [], none⟩

theorem signature_eq (o : Operation) : o.signature = o.leadingSlots ++ o.trailingSlots := by
  rw [signature, leadingSlots, trailingSlots, List.append_assoc]

theorem keys_leastGiven (o : Operation) : o.leastGiven.keys = o.leadingSlots.map Slot.name := by
  simp [leastGiven, Entries.keys, Function.comp_def]

theorem bind_leastCall (o : Operation) : o.bind o.leastCall =
    .ok (o.leastGiven ++ o.trailingSlots.map fun slot => (slot.name, .null)) := by
  have hpositional : ∀ s ∈ o.leadingSlots, s.positional = true := by
    intro s hs
    rcases List.mem_append.1 hs with hs | hs
    · obtain ⟨a, -, rfl⟩ := List.mem_map.1 hs
      rfl
    · exact (bodySlots_positional o s hs).2
  have hoptional : ∀ s ∈ o.trailingSlots, s.required = false := by
    intro s hs
    rcases List.mem_append.1 hs with hs | hs
    · obtain ⟨a, -, rfl⟩ := List.mem_map.1 hs
      rfl
    · simp only [List.mem_cons, List.not_mem_nil, or_false] at hs
      rcases hs with rfl | rfl <;> rfl
  have hunnamed : ∀ s ∈ o.leadingSlots, s.name ∉ Entries.keys ([] : Entries String Value) :=
    fun _ _ => List.not_mem_nil
  have hbind := Signature.bind_positional (keys_leastGiven o) hpositional hunnamed o.trailingSlots
  rw [Signature.bind_nothing hoptional, ← signature_eq] at hbind
  exact bind_eq_ok_iff.2 ⟨List.not_mem_nil, hbind⟩

theorem exists_prepared_leastCall (o : Operation) : ∃ r, o.prepare none [] o.leastCall = .ok r := by
  have hb := bind_leastCall o
  have hkeys := keys_nodup_of_bind hb
  have hget : ∀ {k v}, (k, v) ∈ o.leastGiven ++ o.trailingSlots.map (fun slot => (slot.name, .null)) →
      (Entries.get? (o.leastGiven ++ o.trailingSlots.map fun slot => (slot.name, .null)) k).getD .null =
        v := by
    intro k v hm
    rw [Entries.get?_of_mem hkeys hm]
    rfl
  have hbody : ∀ b, o.body = some b → ("body", .dict []) ∈ o.leastGiven := by
    intro b he
    simp [leastGiven, leadingSlots, bodySlots, he]
  obtain ⟨-, -, r, -, hr, -⟩ := exists_prepared hb (hget (by simp [trailingSlots])) rfl
    (hget (by simp [trailingSlots]))
    (fun b he => .inr (hget (List.mem_append_left _ (hbody b he)))) none []
  exact ⟨r, hr⟩

theorem leastCall_omits {o : Operation} {p : Parameter}
    (h : ∀ q, o.arguments.get? p.slotName = some q → q.required = false) :
    o.leastCall.Omits o p.slotName := by
  refine ⟨List.not_mem_nil, ?_⟩
  have hlength : o.leastCall.positional.length = o.leadingSlots.length := by
    simp [leastCall, leastGiven, Entries.values]
  rw [hlength, signature_eq, List.take_left, leadingSlots, List.map_append, List.mem_append]
  rintro (hm | hm)
  · obtain ⟨slot, hslots, hname⟩ := List.mem_map.1 hm
    obtain ⟨e, he, rfl⟩ := List.mem_map.1 hslots
    obtain ⟨he, hreq⟩ := List.mem_filter.1 he
    have hkeys : o.arguments.keys.Nodup := Entries.nodup_keys_overlay _ List.nodup_nil
    have hget : o.arguments.get? p.slotName = some e.2 := by
      rw [← hname]
      exact Entries.get?_of_mem hkeys he
    simp [h e.2 hget] at hreq
  · obtain ⟨slot, hslots, hname⟩ := List.mem_map.1 hm
    apply Naming.signatureName_not_reserved p.argument
    change p.slotName ∈ Naming.reservedArguments
    rw [← hname, (bodySlots_positional o slot hslots).1]
    decide

theorem mem_entry_of_arguments {o : Operation} {k : String} {p : Parameter}
    (h : o.arguments.get? k = some p) : p ∈ o.parameters ∧ p.slotName = k := by
  rw [arguments, Entries.ofList, Entries.get?_overlay, Entries.get?_nil, Option.or_none] at h
  obtain ⟨e, he, hk, rfl⟩ := Entries.mem_of_get? h
  obtain ⟨q, hq, rfl⟩ := List.mem_map.1 (List.mem_reverse.1 he)
  exact ⟨hq, (eq_of_beq hk).symm⟩

theorem exists_argument {o : Operation} {p : Parameter} (hp : p ∈ o.parameters) :
    ∃ q, o.arguments.get? p.slotName = some q := by
  have hk : p.slotName ∈ o.arguments.keys :=
    Entries.mem_keys_overlay.2 (.inr (List.mem_map.2 ⟨_, List.mem_map.2 ⟨p, hp, rfl⟩, rfl⟩))
  have hne : o.arguments.get? p.slotName ≠ none := fun h => Entries.get?_eq_none_iff.1 h hk
  exact Option.ne_none_iff_exists'.1 hne

theorem not_required_of_optional {o : Operation} (ho : ∀ p ∈ o.optional, p.required = false)
    {p : Parameter} (hp : p ∈ o.optional) {q : Parameter}
    (hq : o.arguments.get? p.slotName = some q) : q.required = false := by
  have hk : p.slotName ∈ Entries.keys (o.optional.map fun p => (p.slotName, p)).reverse := by
    rw [Entries.keys, List.map_reverse, List.mem_reverse]
    exact List.mem_map.2 ⟨_, List.mem_map.2 ⟨p, hp, rfl⟩, rfl⟩
  have hne : Entries.get? (o.optional.map fun p => (p.slotName, p)).reverse p.slotName ≠ none :=
    fun h => Entries.get?_eq_none_iff.1 h hk
  obtain ⟨last, hlast⟩ := Option.ne_none_iff_exists'.1 hne
  have hget : o.arguments.get? p.slotName = some last := by
    rw [arguments, Entries.ofList, Entries.get?_overlay, parameters, List.map_append,
      List.reverse_append, Entries.get?_append]
    have := hlast
    simp only [Parameter.slotName] at this ⊢
    rw [this]
    rfl
  obtain ⟨e, he, -, rfl⟩ := Entries.mem_of_get? hlast
  obtain ⟨r, hr, rfl⟩ := List.mem_map.1 (List.mem_reverse.1 he)
  rw [hget] at hq
  cases hq
  exact ho r hr

theorem asks_iff {o : Operation} (ho : ∀ p ∈ o.optional, p.required = false)
    (hr : ∀ p ∈ o.required, p.required = true) {p : Parameter} (hp : p ∈ o.parameters) :
    o.Asks p.slotName ↔ ∀ q ∈ o.parameters, q.slotName = p.slotName → q.required = true := by
  constructor
  · intro hasks q hq hslot
    by_contra hnot
    have hopt : q ∈ o.optional := by
      rcases List.mem_append.1 hq with hq | hq
      · exact absurd (hr q hq) hnot
      · exact hq
    rw [← hslot] at hasks
    obtain ⟨r, hprepared⟩ := exists_prepared_leastCall o
    obtain ⟨f, hf, -⟩ := hasks none [] o.leastCall
      (leastCall_omits fun _ => not_required_of_optional ho hopt)
    rw [hprepared] at hf
    cases hf
  · intro hall
    obtain ⟨first, hfirst⟩ := exists_argument hp
    obtain ⟨hmem, hslot⟩ := mem_entry_of_arguments hfirst
    have hreq := hall first hmem hslot
    obtain ⟨e, he, hk, rfl⟩ := Entries.mem_of_get? hfirst
    have hin : ⟨p.slotName, true, true⟩ ∈ o.signature := by
      rw [signature_eq, leadingSlots, parameterSlots, eq_of_beq hk]
      refine List.mem_append_left _ (List.mem_append_left _ ?_)
      exact List.mem_map.2 ⟨e, List.mem_filter.2 ⟨he, by simp [hreq]⟩, rfl⟩
    exact asks_of_slot hin rfl

/-- The objects that declare the parameters, those of the path item first. -/
def Declared.objects (document : Value) (d : Declared) : Except Fault (List Value) := do
  let shared ← Value.resolvedMembers document (Value.getD d.item "parameters")
  let own ← Value.resolvedMembers document (Value.getD d.entries "parameters")
  return shared ++ own

theorem Declared.parameterObjects_eq (document : Value) (d : Declared) :
    d.parameterObjects document = d.objects document >>= Parameter.mergeBracketed := by
  unfold parameterObjects objects
  cases Value.resolvedMembers document (Value.getD d.item "parameters") with
  | error f => rfl
  | ok shared =>
    cases Value.resolvedMembers document (Value.getD d.entries "parameters") with
    | error f => rfl
    | ok own => rfl

/-- What an operation has from the objects that declare its parameters. -/
structure BuiltFrom (o : Operation) (objects : List (Entries Key Value)) : Prop where
  named : Parameter.Named o.parameters
  required : ∀ p ∈ o.required, p.required = true
  optional : ∀ p ∈ o.optional, p.required = false
  builds : ∀ name l required,
    (∃ p ∈ o.parameters, p.name = name ∧ p.location = l ∧ p.required = required) ↔
      ∃ marked, Parameter.Builds objects name l marked ∧ required = (marked || decide (l = .path))

theorem Declared.compile_built (document : Value) (d : Declared) (name : String) :
    (d.compile document name).Gives fun o => o.path = d.path.text ∧ o.verb = d.verb ∧
      ∃ objects, d.objects document = .ok (objects.map .dict) ∧ o.BuiltFrom objects := by
  unfold Declared.compile
  refine Compile.gives_bind_ofExcept fun merged hmerged => ?_
  rw [parameterObjects_eq] at hmerged
  obtain ⟨objects, hobjects, hmerged⟩ := bind_eq_ok.1 hmerged
  obtain ⟨ess, ds, rfl, hm, rfl⟩ := Parameter.merges_of_mergeBracketed hmerged
  refine ((Parameter.compileAll_states document _).and
    (Parameter.compileAll_named document _)).bind fun ps ⟨hstated, names, hnamed⟩ => ?_
  refine Compile.gives_bind fun responses => Compile.gives_bind fun codecs => ?_
  refine Compile.gives_bind_ofExcept fun path hpath => Compile.gives_bind fun body => ?_
  refine Compile.gives_bind fun returnsJson => Compile.gives_bind fun tags => ?_
  refine Compile.gives_bind fun tag => Compile.gives_bind fun summary => ?_
  refine Compile.gives_bind fun description => Compile.gives_pure ⟨?_, rfl, ess, hobjects, ?_⟩
  · unfold pathText at hpath
    split at hpath
    · next text htext =>
      cases hpath
      rw [htext]
      rfl
    · cases hpath
  constructor
  · exact ⟨names, fun p hp => hnamed p (mem_parameters_iff.1 hp)⟩
  · intro p hp
    rw [Parameter.requiredFirst, List.mem_mergeSort] at hp
    exact (List.mem_filter.1 hp).2
  · intro p hp
    simpa using (List.mem_filter.1 hp).2
  · intro name l required
    rw [← Parameter.Stated.builds_iff hm hstated]
    simp only [parameters, mem_parameters_iff]

theorem declared_of_compile {document : Value} (d : Declared) (name : String)
    (h : d.In document) : (d.compile document name).Gives fun o => ∃ d : Declared, d.In document ∧
      o.path = d.path.text ∧ o.verb = d.verb ∧
      ∃ objects, d.objects document = .ok (objects.map .dict) ∧ o.BuiltFrom objects :=
  (d.compile_built document name).mono fun _ hbuilt => ⟨d, h, hbuilt⟩

theorem BuiltFrom.keeps_iff {o : Operation} {objects : List (Entries Key Value)}
    (h : o.BuiltFrom objects) : o.KeepsRequired objects ↔
      ∀ es ∈ objects, Parameter.IsRequired es →
        (∃ l marked, Parameter.Builds objects (Parameter.baseName es) l marked) ∧
        ∀ l marked, Parameter.Builds objects (Parameter.baseName es) l marked →
          marked = true ∨ l = .path := by
  refine forall₃_congr fun es hes hreq => ?_
  constructor
  · rintro ⟨p, hp, hname, hasks⟩
    have hall := (asks_iff h.optional h.required hp).1 hasks
    constructor
    · obtain ⟨marked, hb, -⟩ := (h.builds _ _ _).1 ⟨p, hp, hname, rfl, rfl⟩
      exact ⟨_, marked, hb⟩
    · intro l marked hb
      obtain ⟨q, hq, hqname, rfl, hqreq⟩ := (h.builds _ l _).2 ⟨marked, hb, rfl⟩
      have hslot := (Parameter.slotName_eq_iff h.named hq hp).2 (hqname.trans hname.symm)
      rw [hall q hq hslot] at hqreq
      simpa using hqreq.symm
  · rintro ⟨⟨l, marked, hb⟩, hall⟩
    obtain ⟨p, hp, hname, -, -⟩ := (h.builds _ _ _).2 ⟨marked, hb, rfl⟩
    refine ⟨p, hp, hname, (asks_iff h.optional h.required hp).2 fun q hq hslot => ?_⟩
    have hqname := (Parameter.slotName_eq_iff h.named hq hp).1 hslot
    obtain ⟨m, hqb, hqreq⟩ := (h.builds _ _ _).1 ⟨q, hq, hqname.trans hname, rfl, rfl⟩
    rw [hqreq]
    simpa using hall _ m hqb

end Operation

/-- Every operation is declared in the document, and its required parameters stay required exactly if
all that is built under the name of a required one is marked as required or is in the path. -/
theorem Api.keepsRequired_iff {document : Entries Key Value} {options : Options}
    {defaults : Value} {c d : Compilation} {api : Api}
    (h : (Api.compile document options defaults).run c = (.ok api, d)) {o : Operation}
    (ho : o ∈ api.operations) : ∃ (declared : Operation.Declared)
      (objects : List (Entries Key Value)), declared.In (.dict document) ∧
      declared.path.text = o.path ∧ declared.verb = o.verb ∧
      declared.objects (.dict document) = .ok (objects.map .dict) ∧
      (o.KeepsRequired objects ↔ ∀ es ∈ objects, Parameter.IsRequired es →
        (∃ l marked, Parameter.Builds objects (Parameter.baseName es) l marked) ∧
        ∀ l marked, Parameter.Builds objects (Parameter.baseName es) l marked →
          marked = true ∨ l = .path) := by
  obtain ⟨declared, hin, hpath, hverb, objects, hobjects, hb⟩ :=
    (Api.compile_gives_declared Operation.declared_of_compile options defaults).of_run h o ho
  exact ⟨declared, objects, hin, hpath.symm, hverb.symm, hobjects, hb.keeps_iff⟩

theorem Operation.Declared.objects_oneQuery {name style : String} {required : Bool}
    {d : Operation.Declared} (h : d.In (.dict (oneQuery name style required))) :
    d.objects (.dict (oneQuery name style required)) =
      .ok ([queryObject name style required].map .dict) := by
  obtain ⟨path, item, key, verb, entries⟩ := d
  obtain ⟨⟨paths, v, hpaths, hmem, hv⟩, hentry, -⟩ := h
  cases hpaths
  cases List.mem_singleton.1 hmem
  cases hv
  cases List.mem_singleton.1 hentry
  rfl

theorem Parameter.isRequired_queryObject (name style : String) :
    IsRequired (queryObject name style true) := ⟨.query, rfl, .inl rfl⟩

theorem Api.keepsRequired_iff_oneName : ∃ api d, ∃ o ∈ api.operations,
    (Api.compile (oneQuery "day" "" true) .default .null).run .start = (.ok api, d) ∧
      o.KeepsRequired [queryObject "day" "" true] := by
  obtain ⟨api, d, hr⟩ := Compile.exists_run (c := .start)
    (x := Api.compile (oneQuery "day" "" true) .default .null) (by decide +kernel)
  have hall : ((Api.compile (oneQuery "day" "" true) .default .null).run .start).1.toOption.any
      (fun api => api.operations.any fun _ => true) = true := by decide +kernel
  rw [hr] at hall
  obtain ⟨o, ho, -⟩ := List.any_eq_true.1 hall
  obtain ⟨declared, objects, hin, -, -, hobjects, hiff⟩ := Api.keepsRequired_iff hr ho
  rw [Operation.Declared.objects_oneQuery hin] at hobjects
  have he : objects = [queryObject "day" "" true] :=
    List.map_injective_iff.2 (fun _ _ => Value.dict.inj) (Except.ok.inj hobjects).symm
  subst he
  have hfirst : Parameter.firstOf? [queryObject "day" "" true] "day" = none := by decide
  refine ⟨api, d, o, ho, hr, hiff.2 fun es hes _ => ?_⟩
  cases List.mem_singleton.1 hes
  constructor
  · exact ⟨.query, true, .alone List.mem_cons_self (by decide) (by decide) (by decide)⟩
  · rintro l marked (⟨hmem, -, -, -⟩ | ⟨hmerged, -⟩)
    · cases List.mem_singleton.1 hmem
      exact .inl rfl
    · cases hfirst.symm.trans hmerged

/-- The parameter in brackets is required, and a call without it is prepared. -/
theorem Api.not_keepsRequired_bracketed : ∃ api d, ∃ o ∈ api.operations,
    (Api.compile (oneQuery "filter[name]" "" true) .default .null).run .start = (.ok api, d) ∧
      ∃ declared : Operation.Declared, declared.In (.dict (oneQuery "filter[name]" "" true)) ∧
        declared.path.text = o.path ∧ declared.verb = o.verb ∧
        declared.objects (.dict (oneQuery "filter[name]" "" true)) =
          .ok ([queryObject "filter[name]" "" true].map .dict) ∧
        Parameter.IsRequired (queryObject "filter[name]" "" true) ∧
        ¬ o.KeepsRequired [queryObject "filter[name]" "" true] := by
  obtain ⟨api, d, hr⟩ := Compile.exists_run (c := .start)
    (x := Api.compile (oneQuery "filter[name]" "" true) .default .null) (by decide +kernel)
  have hall : ((Api.compile (oneQuery "filter[name]" "" true) .default .null).run
      .start).1.toOption.any (fun api => api.operations.any fun o =>
        (o.prepare none [] ⟨[], [], none⟩).isOk) = true := by decide +kernel
  rw [hr] at hall
  obtain ⟨o, ho, hprepared⟩ := List.any_eq_true.1 hall
  obtain ⟨declared, hin, hpath, hverb, -⟩ :=
    (Api.compile_gives_declared Operation.declared_of_compile _ _).of_run hr o ho
  have hreq := Parameter.isRequired_queryObject "filter[name]" ""
  refine ⟨api, d, o, ho, hr, declared, hin, hpath.symm, hverb.symm, Operation.Declared.objects_oneQuery hin, hreq,
    fun hk => ?_⟩
  obtain ⟨p, -, -, hasks⟩ := hk _ List.mem_cons_self hreq
  obtain ⟨f, hf, -⟩ := hasks none [] ⟨[], [], none⟩ ⟨List.not_mem_nil, by simp⟩
  rw [hf] at hprepared
  cases hprepared

end OpenApi
