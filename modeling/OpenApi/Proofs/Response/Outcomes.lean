import OpenApi.Outcome
import OpenApi.Proofs.Codec.Writable
import OpenApi.Proofs.Response.Bodies
/-! # Outcomes of replies

A reply is sorted by its status, and its body is read with the codec of a bucket. So a reply to a
declared response meets the codec of that response among others, and a reply without content meets
only the codecs of others. -/
namespace OpenApi

theorem Reading.ofDecoded_eq_value {x : Decoded Value} {v : Value}
    (h : ofDecoded x = .ok (.value v)) : x = .ok v := by
  match x with
  | .ok w =>
    cases h
    rfl
  | .error (.failure f) => cases h
  | .error (.unwritten e) => cases e <;> cases h

theorem Reading.exists_ofDecoded {x : Decoded Value} (h : ¬ x.BreaksOff) :
    ∃ reading, ofDecoded x = .ok reading := by
  match x with
  | .ok w => exact ⟨_, rfl⟩
  | .error (.failure f) => exact ⟨_, rfl⟩
  | .error (.unwritten e) => exact absurd ⟨e, rfl⟩ h

namespace Outcome

variable {expected error : Codec} {r : Reply} {data : Value} {f : DecodeFailure}

theorem ofReply_accepted (h : r.isAccepted = true)
    (hbody : r.decodeBody expected = .ok (.value data)) :
    ofReply expected error r = .ok (.accepted r.status data) := by
  rw [ofReply, if_pos h, hbody]
  rfl

theorem ofReply_rejected (h : ¬ r.isAccepted = true)
    (hbody : r.decodeBody error = .ok (.value data)) :
    ofReply expected error r = .ok (.rejected r.status data) := by
  rw [ofReply, if_neg h, hbody]
  rfl

theorem exists_rejected {reading : Reading} (expected : Codec) (h : ¬ r.isAccepted = true)
    (hbody : r.decodeBody error = .ok reading) :
    ∃ data, ofReply expected error r = .ok (.rejected r.status data) := by
  rw [ofReply, if_neg h, hbody]
  cases reading <;> exact ⟨_, rfl⟩

theorem decodeBody_of_accepted {status : Int}
    (h : ofReply expected error r = .ok (.accepted status data)) :
    r.isAccepted = true ∧ r.decodeBody expected = .ok (.value data) := by
  rw [ofReply] at h
  split at h
  · next hstatus =>
    obtain ⟨reading, hreading, h⟩ := bind_eq_ok.mp h
    cases reading with
    | value v =>
      cases h
      exact ⟨hstatus, hreading⟩
    | misfit f =>
      obtain ⟨_, -, h⟩ := bind_eq_ok.mp h
      cases h
    | invalid reason => cases h
  · obtain ⟨reading, -, h⟩ := bind_eq_ok.mp h
    cases reading <;> cases h

end Outcome

section NoContent

/-- A reply without content says nothing of a type, and its body is empty. -/
def Reply.ofNothing : Reply := ⟨204, none, some ""⟩

namespace Reply

variable {codec : Codec}

theorem decodeText_empty (codec : Codec) : decodeText codec (some "") =
    match codec.decode .null with
    | .error (.failure _) => codec.decode (.str "")
    | ended => ended := rfl

theorem decodeText_empty_succeeds : (decodeText codec (some "")).Succeeds ↔
    (codec.Accepts .null ∨ codec.Accepts (.str "")) ∧
      ¬ (decodeText codec (some "")).BreaksOff := by
  rw [decodeText_empty]
  match hnull : codec.decode .null with
  | .ok v => exact ⟨fun _ => ⟨.inl ⟨v, hnull⟩, nofun⟩, fun _ => ⟨v, rfl⟩⟩
  | .error (.failure f) =>
    constructor
    · intro h
      exact ⟨.inr h, h.not_breaksOff⟩
    · rintro ⟨haccepts, -⟩
      exact haccepts.resolve_left (Decoded.not_succeeds hnull)
  | .error (.unwritten e) => exact ⟨nofun, fun h => absurd ⟨e, rfl⟩ h.2⟩

theorem not_breaksOff_parts (h : ¬ (decodeText codec (some "")).BreaksOff) :
    ¬ codec.BreaksOff .null ∧ (codec.Accepts .null ∨ ¬ codec.BreaksOff (.str "")) := by
  rw [decodeText_empty] at h
  match hnull : codec.decode .null with
  | .ok v =>
    have haccepts : codec.Accepts .null := ⟨v, hnull⟩
    exact ⟨haccepts.not_breaksOff, .inl haccepts⟩
  | .error (.failure f) =>
    rw [hnull] at h
    refine ⟨?_, .inr h⟩
    rintro ⟨e, he⟩
    cases hnull.symm.trans he
  | .error (.unwritten e) =>
    rw [hnull] at h
    exact absurd ⟨e, rfl⟩ h

theorem not_breaksOff_empty (h : codec.Writable) : ¬ (decodeText codec (some "")).BreaksOff := by
  rw [decodeText_empty]
  split
  · exact h.not_breaksOff rfl
  · have hshort : Value.null.isShort = true := rfl
    exact h.not_breaksOff hshort

end Reply

theorem Outcome.accepted_ofNothing_iff (expected error : Codec) :
    (∃ data, ofReply expected error .ofNothing = .ok (.accepted 204 data)) ↔
      (Reply.decodeText expected (some "")).Succeeds := by
  have hbody : Reply.ofNothing.decodeBody expected =
      Reading.ofDecoded (Reply.decodeText expected (some "")) := rfl
  constructor
  · rintro ⟨data, h⟩
    have hread := (decodeBody_of_accepted h).2
    rw [hbody] at hread
    exact ⟨data, Reading.ofDecoded_eq_value hread⟩
  · rintro ⟨data, h⟩
    rw [h] at hbody
    exact ⟨data, ofReply_accepted rfl hbody⟩

namespace Response

variable {document : Value} {responses : Entries Key Value} {c d : Compilation} {codecs : Codecs}

/-- A reply without content is accepted exactly if nothing else is expected, or if an expected body
may be null or the empty text, and if reading it does not break off. Of expected bodies with one notation
the first one counts. -/
theorem accepts_noContent_iff (h : Visited document c)
    (run : (compile document responses).run c = (.ok codecs, d)) :
    ((∃ data, Outcome.ofReply codecs.expected codecs.error .ofNothing = .ok (.accepted 204 data)) ↔
      (inBucket true responses = [] ∨ ∃ codec, Leads document d responses true codec ∧
        (codec.Accepts .null ∨ codec.Accepts (.str ""))) ∧
      ¬ (Reply.decodeText codecs.expected (some "")).BreaksOff) ∧
    (codecs.expected.Writable → ¬ (Reply.decodeText codecs.expected (some "")).BreaksOff) := by
  have hnull := accepts_iff h run true .null
  have hempty := accepts_iff h run true (.str "")
  refine ⟨?_, Reply.not_breaksOff_empty⟩
  rw [Outcome.accepted_ofNothing_iff, Reply.decodeText_empty_succeeds]
  refine and_congr_left fun hends => ?_
  obtain ⟨hendsNull, hendsText⟩ := Reply.not_breaksOff_parts hends
  change (codecs.of true).Accepts .null ∨ (codecs.of true).Accepts (.str "") ↔ _
  constructor
  · rintro (haccepts | haccepts)
    · rcases (hnull.mp haccepts).1 with ⟨hnone, -⟩ | ⟨codec, hlead, hcodec⟩
      · exact .inl hnone
      · exact .inr ⟨codec, hlead, .inl hcodec⟩
    · rcases (hempty.mp haccepts).1 with ⟨-, hkind⟩ | ⟨codec, hlead, hcodec⟩
      · cases hkind
      · exact .inr ⟨codec, hlead, .inr hcodec⟩
  · rintro (hnone | ⟨codec, hlead, hcodec | hcodec⟩)
    · exact .inl (hnull.mpr ⟨.inl ⟨hnone, rfl⟩, hendsNull⟩)
    · exact .inl (hnull.mpr ⟨.inr ⟨codec, hlead, hcodec⟩, hendsNull⟩)
    · exact hendsText.imp id fun hends => hempty.mpr ⟨.inr ⟨codec, hlead, hcodec⟩, hends⟩

def jsonResponse (schema : Value) : Value :=
  .object [("content", .object [("application/json", .object [("schema", schema)])])]

def countOrNothing (count : Value) : Entries Key Value :=
  [("200", jsonResponse count), ("204", .object [])]

def numberSchema : Value := .object [("type", .str "number")]

def nullableNumber : Value := .object [("type", .str "number"), ("nullable", .bool true)]

theorem run_countOrNothing (count : Value) (codec : Codec)
    (hbodies : (bodyCodecs (.object []) (countOrNothing count)).run .start =
      (.ok [("200", codec)], .start)) (hnoted : codec.Noted) :
    (compile (.object []) (countOrNothing count)).run .start =
      (.ok ⟨codec, .optional .null⟩, .start) := by
  have hcodecs : Codecs.ofBodies [("200", codec)] = ⟨codec, .optional .null⟩ := by
    simp [Codecs.ofBodies, codecsOf, isExpected, Text.startsWith, bucket, addSpelled, collapse]
  exact run_compile_eq_ok.mpr ⟨_, hbodies, List.forall_mem_singleton.mpr hnoted, hcodecs⟩

theorem accepts_noContent_nullable : ∃ codecs d,
    (compile (.object []) (countOrNothing nullableNumber)).run .start = (.ok codecs, d) ∧
      ∃ data, Outcome.ofReply codecs.expected codecs.error .ofNothing = .ok (.accepted 204 data) := by
  have run := run_countOrNothing nullableNumber (.maybe .number) rfl ⟨_, rfl⟩
  have hlead : Leads (.object []) .start (countOrNothing nullableNumber) true (.maybe .number) :=
    ⟨[.maybe .number], .cons rfl .nil, [], [], rfl, nofun⟩
  refine ⟨_, _, run, (accepts_noContent_iff (visited_start _) run).1.mpr ⟨?_, nofun⟩⟩
  exact Or.inr ⟨_, hlead, Or.inl (Codec.accepts_maybe.mpr (Or.inl rfl))⟩

/-- Beside a count that must be a number, a reply without content is a failure. -/
theorem not_accepts_noContent :
    ¬ ∀ (document : Value) (responses : Entries Key Value) (c d : Compilation) (codecs : Codecs),
      Visited document c → (compile document responses).run c = (.ok codecs, d) →
      (∃ e ∈ responses, e.1.text = noContent) →
      ∃ data, Outcome.ofReply codecs.expected codecs.error .ofNothing = .ok (.accepted 204 data) := by
  intro h
  have run := run_countOrNothing numberSchema .number rfl ⟨_, rfl⟩
  have hdeclared : ∃ e ∈ countOrNothing numberSchema, e.1.text = noContent :=
    ⟨("204", .object []), by simp [countOrNothing], rfl⟩
  have haccepted := h _ _ _ _ _ (visited_start _) run hdeclared
  rw [Outcome.accepted_ofNothing_iff] at haccepted
  obtain ⟨v, hv⟩ := haccepted
  cases hv

end Response

end NoContent

section Json

/-- A code of three digits, and the status that it stands for. -/
def CodeOf (status : Int) (code : String) : Prop :=
  ∃ a b c : Nat, a < 10 ∧ b < 10 ∧ c < 10 ∧ status = 100 * a + 10 * b + c ∧
    code = String.ofList [a.digitChar, b.digitChar, c.digitChar]

theorem CodeOf.noContent {code : String} (h : CodeOf 204 code) : code = Response.noContent := by
  obtain ⟨a, b, c, ha, hb, hc, hstatus, rfl⟩ := h
  obtain rfl : a = 2 := by omega
  obtain rfl : b = 0 := by omega
  obtain rfl : c = 4 := by omega
  rfl

theorem CodeOf.isExpected {status : Int} {code : String} (h : CodeOf status code)
    (hlow : 200 ≤ status) (hhigh : status < 300) : Response.isExpected code = true := by
  obtain ⟨a, b, c, ha, hb, hc, rfl, rfl⟩ := h
  obtain rfl : a = 2 := by omega
  have hstart : Text.startsWith (String.ofList [(2).digitChar, b.digitChar, c.digitChar]) "2" =
      true := by
    show ['2'].isPrefixOf (String.ofList ['2', b.digitChar, c.digitChar]).toList = true
    rw [String.toList_ofList]
    rfl
  rw [Response.isExpected, hstart, Bool.or_true]

theorem CodeOf.isExpected_eq {status : Int} {code : String} (h : CodeOf status code) :
    Response.isExpected code = Text.startsWith code "2" := by
  obtain ⟨a, b, c, -, -, -, -, rfl⟩ := h
  have hcode : (String.ofList [a.digitChar, b.digitChar, c.digitChar] == "default") = false := by
    rw [beq_eq_false_iff_ne]
    intro he
    have hlength := congrArg (fun s : String => s.toList.length) he
    rw [String.toList_ofList] at hlength
    cases hlength
  rw [Response.isExpected, hcode, Bool.false_or]

namespace Response

/-- The response prefers JSON and has a schema for it. -/
def DeclaresJson (document response schema : Value) : Prop :=
  ∃ es media encoding, contentOf document response = .ok (.dict es) ∧
    Content.preferred? (.dict es) = .ok (some (Content.jsonType, encoding)) ∧
    Field.mapping (Value.getD es Content.jsonType) = .ok media ∧
    Value.getD media "schema" = schema ∧ schema.isTruthy = true

theorem DeclaresJson.bodyCodec_eq {document response schema : Value}
    (h : DeclaresJson document response schema) :
    bodyCodec document response = compileSchema document schema := by
  obtain ⟨es, media, encoding, hcontent, hpreferred, hmedia, rfl, htruthy⟩ := h
  have hgiven : (Value.dict es).isTruthy = true := by
    by_contra hempty
    rw [Content.preferred?, if_neg hempty] at hpreferred
    cases hpreferred
  have hschema : Content.schema (.dict es) = .ok (Value.getD media "schema") := by
    rw [Content.schema, hpreferred]
    show Field.mapping (Value.getD es Content.jsonType) >>= _ = _
    rw [hmedia]
    show Except.ok ((Value.getD media "schema").orElse Content.stringSchema) = _
    rw [Value.orElse, if_pos htruthy]
  rw [bodyCodec, hcontent]
  show (if (Value.dict es).isTruthy = true then _ else _) = _
  rw [if_pos hgiven, hschema]
  rfl

/-- The reply has the status of a declared response and a JSON body, which is something that the
codec of the response accepts. -/
structure Answers (document : Value) (d : Compilation) (responses : Entries Key Value)
    (reply : Reply) (entry : Key × Value) (codec : Codec) (raw : Value) : Prop where
  declared : entry ∈ responses
  code : CodeOf reply.status entry.1.text
  content : entry.1.text ≠ noContent
  schema : ∃ schema, DeclaresJson document entry.2 schema ∧
    ((compileSchema document schema).run d).1 = .ok codec
  json : reply.isJson = true
  body : ∃ text, reply.text = some text ∧ Json.read text = .ok raw
  given : raw.kind ≠ .null
  accepted : codec.Accepts raw

variable {document : Value} {responses : Entries Key Value} {c d : Compilation} {codecs : Codecs}
  {reply : Reply} {entry : Key × Value} {codec : Codec} {raw : Value}

theorem Answers.mem_inBucket (h : Answers document d responses reply entry codec raw) :
    entry ∈ inBucket (isExpected entry.1.text) responses := by
  have hcontent : (entry.1.text != noContent) = true := bne_iff_ne.mpr h.content
  rw [inBucket, List.mem_filter, hcontent, beq_self_eq_true]
  exact ⟨h.declared, rfl⟩

theorem Answers.hasBody (h : Answers document d responses reply entry codec raw) {body : Codec}
    (hbody : HasBody document d entry.2 body) : body = codec := by
  obtain ⟨schema, hschema, hcodec⟩ := h.schema
  rw [HasBody, hschema.bodyCodec_eq] at hbody
  rw [hbody] at hcodec
  exact Except.ok.inj hcodec

theorem Answers.decodeBody (h : Answers document d responses reply entry codec raw) (read : Codec) :
    reply.decodeBody read = Reading.ofDecoded (read.decode raw) := by
  obtain ⟨text, htext, hraw⟩ := h.body
  have hnonempty : text.isEmpty = false := by
    by_contra hempty
    have he : text = "" := String.isEmpty_iff.mp (by simpa using hempty)
    rw [he] at hraw
    cases hraw
  unfold Reply.decodeBody
  rw [htext]
  show (if (reply.isJson && !text.isEmpty) = true then _ else _) = _
  rw [h.json, hnonempty, hraw]
  rfl

/-- Bodies of one notation count as one, the first of them. -/
def LeaderAccepts (document : Value) (d : Compilation) (responses : Entries Key Value)
    (expected : Bool) (codec : Codec) (raw : Value) : Prop :=
  ∀ leader, Leads document d responses expected leader → leader.describe = codec.describe →
    leader.Accepts raw

theorem Answers.accepts (h : Visited document c)
    (run : (compile document responses).run c = (.ok codecs, d))
    (ha : Answers document d responses reply entry codec raw)
    (hleader : LeaderAccepts document d responses (isExpected entry.1.text) codec raw)
    (hends : ¬ (codecs.of (isExpected entry.1.text)).BreaksOff raw) :
    (codecs.of (isExpected entry.1.text)).Accepts raw := by
  obtain ⟨body, hbody, -, leader, hlead, htold⟩ := exists_leads h run ha.mem_inBucket
  rw [ha.hasBody hbody] at htold
  have haccepts := hleader leader hlead htold
  exact (accepts_iff h run _ raw).mpr ⟨.inr ⟨leader, hlead, haccepts⟩, hends⟩

def contentStatuses : List Int := [200, 201, 202, 203]

theorem Answers.isAccepted_iff (h : Answers document d responses reply entry codec raw) :
    reply.isAccepted = true ↔ reply.status ∈ contentStatuses := by
  have hstatus : reply.status ≠ 204 := by
    intro he
    exact h.content (he ▸ h.code).noContent
  simp [Reply.isAccepted, acceptedStatuses, contentStatuses, hstatus]

theorem Answers.isExpected (h : Answers document d responses reply entry codec raw)
    (hstatus : reply.status ∈ contentStatuses) : isExpected entry.1.text = true := by
  simp only [contentStatuses, List.mem_cons, List.not_mem_nil, or_false] at hstatus
  exact h.code.isExpected (by omega) (by omega)

def countOrMessage : Entries Key Value :=
  [("200", jsonResponse numberSchema), ("404", jsonResponse Content.stringSchema)]

def missingReply : Reply := ⟨404, some "application/json", some "\"gone\""⟩

def partReply : Reply := ⟨206, some "application/json", some "1"⟩

end Response

end Json

end OpenApi
