import OpenApi.Proofs.Codec.Dates
import OpenApi.Proofs.Compilation.Inlined
import OpenApi.Proofs.Compilation.Recompiled
import OpenApi.Proofs.Schema.Open
/-! # What open objects accept

An object that declares properties and admits more of them is read by an interface and by a record, and
the record asks for its codec under every key, declared or not. So the schema of the additional properties
is one that the declared ones have to fit as well. -/
namespace OpenApi

open Schema (ofValue requiredKeys?)

def Codec.field (required : List Key) (k : Key) (c : Codec) : Codec :=
  if required.contains k then c else .optional c

/-- In the state `d`, every property compiles to the codec of its field, the schema of the additional
ones to `item`, and nothing is noted. -/
structure OwnCodecs (document : Value) (d : Compilation) (es properties : Entries Key Value)
    (additional : Value) (required : List Key) (fields : Entries Key Codec) (item : Codec) : Prop where
  required_eq : requiredKeys? (Value.getD es "required") = some required
  fields : List.Forall₂ (fun p f => p.1 = f.1 ∧ ∃ c,
    (compileSchema document p.2).run d = (.ok c, d) ∧ f.2 = c.field required p.1) properties fields
  item : (compileSchema document additional).run d = (.ok item, d)

/-- The required fields are there, the fields that are there fit their codecs, and what stands under the
keys that are `checked` fits the codec of additional properties. -/
structure Fits (required : List Key) (fields : Entries Key Codec) (item : Codec)
    (checked : Key → Prop) (raw : Entries Key Value) : Prop where
  present : ∀ f ∈ fields, required.contains f.1 = true → (raw.get? f.1).isSome = true
  own : ∀ f ∈ fields, ∀ v, raw.get? f.1 = some v → f.2.Accepts v
  additional : ∀ e ∈ raw, checked e.1 → item.Accepts e.2

section Answers

variable {es properties : Entries Key Value} {additional : Value} {codec item : Codec}
  {f : String → Except Fault Codec} {required : List Key} {fields : Entries Key Codec}

theorem compile_marked {e : Key × Schema} {c : Codec}
    (h : (if required.contains e.1 then e else (e.1, Schema.optional e.2)).2.compile f = .ok c) :
    ∃ b, e.2.compile f = .ok b ∧ c = b.field required e.1 := by
  unfold Codec.field
  by_cases hk : required.contains e.1 = true
  · rw [if_pos hk] at h
    exact ⟨c, h, (if_pos hk).symm⟩
  · rw [if_neg hk] at h
    obtain ⟨b, hb, he⟩ := bind_eq_ok.mp h
    cases he
    exact ⟨b, hb, (if_neg hk).symm⟩

theorem compileFields_marked (h : Schema.compile.compileFields f
      (Schema.marked required (properties.mapValues ofValue)) = .ok fields) :
    List.Forall₂ (fun p e => p.1 = e.1 ∧ ∃ c, (ofValue p.2).compile f = .ok c ∧
      e.2 = c.field required p.1) properties fields := by
  rw [Schema.compileFields_eq_ok, Schema.marked, Entries.mapValues, List.map_map,
    List.forall₂_map_left_iff] at h
  refine h.imp fun p e hpe => ?_
  have hkey : (if required.contains p.1 then (p.1, ofValue p.2)
      else (p.1, Schema.optional (ofValue p.2))).1 = p.1 := by
    split <;> rfl
  exact ⟨hkey.symm.trans hpe.1, compile_marked hpe.2⟩

/-- An open object compiles to an interface of its properties and a record of its additional ones. -/
theorem OpenObject.compile_eq_ok (h : OpenObject es properties additional)
    (hc : (ofValue (.dict es)).compile f = .ok codec) :
    ∃ required fields item, requiredKeys? (Value.getD es "required") = some required ∧
      List.Forall₂ (fun p e => p.1 = e.1 ∧ ∃ c, (ofValue p.2).compile f = .ok c ∧
        e.2 = c.field required p.1) properties fields ∧
      (ofValue additional).compile f = .ok item ∧
      (codec = .intersect (.interface fields) (.record item) ∨
        codec = .maybe (.intersect (.interface fields) (.record item))) := by
  have hnode : ofValue (.dict es) = Schema.ofNode (Schema.facet.facets es) := rfl
  -- the rule alone first, and null besides it at the end
  have hrule : ∀ {codec}, (Schema.rule (Schema.facet.facets es)).compile f = .ok codec →
      ∃ required fields item, requiredKeys? (Value.getD es "required") = some required ∧
        List.Forall₂ (fun p e => p.1 = e.1 ∧ ∃ c, (ofValue p.2).compile f = .ok c ∧
          e.2 = c.field required p.1) properties fields ∧
        (ofValue additional).compile f = .ok item ∧
        codec = .intersect (.interface fields) (.record item) := by
    intro codec hc
    rw [h.rule_eq, h.objectOf_eq] at hc
    cases hreq : requiredKeys? (Value.getD es "required") with
    | none =>
      rw [hreq] at hc
      cases hc
    | some required =>
      rw [hreq] at hc
      obtain ⟨fields, hfields, hc⟩ := bind_eq_ok.mp hc
      obtain ⟨item, hitem, he⟩ := bind_eq_ok.mp hc
      cases he
      have hown := compileFields_marked hfields
      refine ⟨required, fields, item, rfl, hown, hitem, ?_⟩
      cases hown with
      | nil => exact absurd rfl h.nonempty
      | cons => rfl
  rw [hnode, Schema.ofNode] at hc
  split at hc
  · obtain ⟨b, hb, he⟩ := bind_eq_ok.mp hc
    cases he
    obtain ⟨required, fields, item, hreq, hown, hitem, rfl⟩ := hrule hb
    exact ⟨required, fields, item, hreq, hown, hitem, .inr rfl⟩
  · obtain ⟨required, fields, item, hreq, hown, hitem, rfl⟩ := hrule hc
    exact ⟨required, fields, item, hreq, hown, hitem, .inl rfl⟩

end Answers

section Values

variable {required : List Key} {fields : Entries Key Codec} {item : Codec}
  {raw : Entries Key Value}

theorem fieldFits_iff {e : Key × Codec} (he : e.2.isRequired = required.contains e.1) :
    Codec.FieldFits raw e ↔ (required.contains e.1 = true → (raw.get? e.1).isSome = true) ∧
      ∀ v, raw.get? e.1 = some v → e.2.Accepts v := by
  unfold Codec.FieldFits
  cases hv : raw.get? e.1 with
  | none => simp [he]
  | some v => simp

theorem accepts_open_iff (hfields : ∀ e ∈ fields, e.2.isRequired = required.contains e.1)
    (hraw : ∀ e ∈ raw, ∃ s, e.1 = .str s) :
    (Codec.intersect (.interface fields) (.record item)).Accepts (.dict raw) ↔
      Fits required fields item (fun _ => True) raw := by
  rw [Codec.accepts_intersect, Codec.accepts_interface, Codec.accepts_record]
  constructor
  · rintro ⟨⟨_, he, hown⟩, _, he', hitem⟩
    cases he
    cases he'
    exact ⟨fun e he => ((fieldFits_iff (hfields e he)).mp (hown e he)).1,
      fun e he => ((fieldFits_iff (hfields e he)).mp (hown e he)).2, fun e he _ => (hitem e he).2⟩
  · intro h
    refine ⟨⟨raw, rfl, fun e he => (fieldFits_iff (hfields e he)).mpr ⟨h.present e he, h.own e he⟩⟩,
      raw, rfl, fun e he => ⟨hraw e he, h.additional e he trivial⟩⟩

theorem decode_open (hraw : raw.Distinct) {v : Value}
    (h : (Codec.intersect (.interface fields) (.record item)).decode (.dict raw) = .ok v) :
    ∃ result : Entries Key Value, v = .dict result ∧
      Entries.Pointwise (fun x w => item.decode x = .ok w) raw result := by
  rw [Codec.decode] at h
  obtain ⟨l, hl, h⟩ := bind_eq_ok.mp h
  obtain ⟨r, hr, h⟩ := bind_eq_ok.mp h
  cases h
  rw [Codec.decode] at hl
  obtain ⟨left, hleft, he⟩ := bind_eq_ok.mp hl
  cases he
  rw [Codec.decode] at hr
  obtain ⟨right, hright, he⟩ := bind_eq_ok.mp hr
  cases he
  have hread : Entries.Pointwise (fun x w => item.decode x = .ok w) raw right :=
    (decodeEntries_eq_ok.mp hright).imp fun e f hef => ⟨hef.1, hef.2.2⟩
  have hkeys : left.keys = raw.keys := Codec.keys_decodeFields hleft rfl
  have hdistinct : Entries.Distinct right := by
    rw [Entries.Distinct, hread.keys]
    exact hraw
  refine ⟨right, ?_, hread⟩
  rw [mergeDecoded, Entries.overlay_of_keys_eq hdistinct (hkeys.trans hread.keys.symm)]

end Values

/-- What an object that admits additional properties accepts and, where both of its readings of a
declared property are the same, what it holds there. -/
theorem accepts_openObject {document additional : Value} {es properties : Entries Key Value}
    {c d : Compilation} {codec : Codec} (hc : Reachable document c)
    (h : OpenObject es properties additional)
    (run : (compileSchema document (.dict es)).run c = (.ok codec, d)) :
    ∃ required fields item, OwnCodecs document d es properties additional required fields item ∧
      ∀ raw : Entries Key Value, raw.Distinct → (∀ e ∈ raw, ∃ s, e.1 = .str s) →
        (codec.Accepts (.dict raw) ↔ Fits required fields item (fun _ => True) raw) ∧
        ∀ v, codec.decode (.dict raw) = .ok v → ∃ result : Entries Key Value, v = .dict result ∧
          ∀ f ∈ fields, ∀ x w, raw.get? f.1 = some x → f.2.decode x = .ok w →
            item.decode x = .ok w → result.get? f.1 = some w := by
  obtain ⟨abandoned, hcoherent⟩ := hc.coherent
  obtain ⟨hd, -, hcodec⟩ := compileSchema_ok hcoherent run
  obtain ⟨required, fields, item, hreq, hown, hitem, hcase⟩ := h.compile_eq_ok hcodec
  have hrun : ∀ {node : Value} {b : Codec},
      (Schema.ofValue node).compile (d.catalogue.answer abandoned) = .ok b →
      (compileSchema document node).run d = (.ok b, d) := fun {node b} hb =>
    Schema.compile_related (relates_settles d) _ (fun r _ => modelCodec_settles hd _ r) b hb
  have hfields : ∀ e ∈ fields, e.2.isRequired = required.contains e.1 := by
    intro e he
    obtain ⟨p, -, hkey, b, hb, hf⟩ := (partners hown).2 e he
    have hb' : b.isRequired = true := Schema.compile_closed closed_isRequired
      (Schema.regular_ofValue p.2) (fun _ _ _ => isRequired_of_answer) hb
    rw [hf, ← hkey, Codec.field]
    cases hk : required.contains p.1 with
    | true => simpa using hb'
    | false => rfl
  refine ⟨required, fields, item, ⟨hreq, hown.imp ?_, hrun hitem⟩, ?_⟩
  · rintro p e ⟨hkey, b, hb, he⟩
    exact ⟨hkey, b, hrun hb, he⟩
  intro raw hraw hkeys
  -- null is no object, so it makes no difference if null is admitted besides
  have hsame : codec.decode (.dict raw) =
      (Codec.intersect (.interface fields) (.record item)).decode (.dict raw) := by
    rcases hcase with rfl | rfl
    · rfl
    · rw [Codec.decode, if_neg Kind.noConfusion]
  rw [Codec.Accepts, hsame]
  refine ⟨accepts_open_iff hfields hkeys, fun v hv => ?_⟩
  obtain ⟨result, rfl, hread⟩ := decode_open hraw hv
  refine ⟨result, rfl, fun f _ x w hx _ hw => ?_⟩
  rcases hread.get? f.1 with ⟨hnone, -⟩ | ⟨x', w', hx', hw', hdecode⟩
  · rw [hx] at hnone
    cases hnone
  · rw [hx] at hx'
    cases hx'
    rw [hw] at hdecode
    cases hdecode
    exact hw'

def labelledEntries : Entries Key Value :=
  [("properties", .object [("id", .object [("type", .str "integer")])]),
    ("additionalProperties", .object [("type", .str "string")])]

theorem openObject_labelled : OpenObject labelledEntries
    [("id", .object [("type", .str "integer")])] (.object [("type", .str "string")]) where
  bare keyword h := by
    simp only [List.mem_cons, List.not_mem_nil, or_false] at h
    rcases h with rfl | rfl | rfl | rfl | rfl <;> rfl
  declared := rfl
  nonempty := nofun
  admitted := rfl
  open_ended := .inr ⟨_, rfl⟩

def labelledCodec : Codec :=
  .intersect (.interface [("id", .optional .number)]) (.record .string)

theorem run_labelled : (compileSchema (.object []) (.dict labelledEntries)).run .start =
    (.ok labelledCodec, .start) := rfl

theorem accepts_openObject_labelled :
    ∃ required fields item, OwnCodecs (.object []) .start labelledEntries
        [("id", .object [("type", .str "integer")])] (.object [("type", .str "string")])
        required fields item ∧
      ∀ raw : Entries Key Value, raw.Distinct → (∀ e ∈ raw, ∃ s, e.1 = .str s) →
        (labelledCodec.Accepts (.dict raw) ↔ Fits required fields item (fun _ => True) raw) ∧
        ∀ v, labelledCodec.decode (.dict raw) = .ok v → ∃ result : Entries Key Value,
          v = .dict result ∧ ∀ f ∈ fields, ∀ x w, raw.get? f.1 = some x → f.2.decode x = .ok w →
            item.decode x = .ok w → result.get? f.1 = some w :=
  accepts_openObject .start openObject_labelled run_labelled

/-- The number is refused, since it is no label. -/
theorem not_fits_undeclared_labelled :
    ¬ ∀ (document additional : Value) (es properties : Entries Key Value) (c d : Compilation)
      (codec : Codec), Reachable document c → OpenObject es properties additional →
      (compileSchema document (.dict es)).run c = (.ok codec, d) →
      ∃ required fields item, OwnCodecs document d es properties additional required fields item ∧
        ∀ raw : Entries Key Value, raw.Distinct → (∀ e ∈ raw, ∃ s, e.1 = .str s) →
          (codec.Accepts (.dict raw) ↔ Fits required fields item (Codec.Undeclared fields) raw) ∧
          ∀ v, codec.decode (.dict raw) = .ok v → ∃ result : Entries Key Value,
            v = .dict result ∧ ∀ f ∈ fields, Codec.HoldsRead raw result f := by
  intro h
  obtain ⟨required, fields, item, hown, hall⟩ := h _ _ _ _ _ _ _ .start openObject_labelled run_labelled
  obtain ⟨hrequired, hfields, -⟩ := hown
  cases hrequired
  cases hfields with
  | @cons _ f _ _ hf hrest =>
    cases hrest
    obtain ⟨k, b⟩ := f
    obtain ⟨rfl, c, hc, rfl⟩ := hf
    have hnumber : (compileSchema (.object []) (.object [("type", .str "integer")])).run .start =
        (.ok .number, .start) := rfl
    rw [hnumber] at hc
    cases hc
    obtain ⟨hiff, -⟩ := hall [("id", .int 1)] (by decide +kernel) (by simp)
    have hfits : Fits [] [("id", Codec.number.field [] "id")] item
        (Codec.Undeclared [("id", Codec.number.field [] "id")]) [("id", .int 1)] := by
      refine ⟨nofun, List.forall_mem_singleton.mpr fun v hv => ?_, ?_⟩
      · cases hv
        exact ⟨.int 1, rfl⟩
      · -- the one key that is there is declared
        refine List.forall_mem_singleton.mpr fun hk => ?_
        cases hk _ (List.mem_singleton_self _)
    obtain ⟨v, hv⟩ := hiff.mpr hfits
    cases hv

end OpenApi
