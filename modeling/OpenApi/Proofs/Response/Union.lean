import OpenApi.Proofs.Compilation.Unambiguous
import OpenApi.Proofs.Response.Outcomes
/-! # The union of the declared bodies

The codec of a bucket accepts nothing but what some declared body accepts. It accepts all of that
unless a body is hidden by an earlier one with the same notation but another meaning, which takes a
name of a property that looks like the notation of several, or a literal that is no scalar. -/
namespace OpenApi.Response

open Catalogue (Coherent)

variable {document response : Value} {abandoned : List String} {responses : Entries Key Value}
  {c d : Compilation} {codecs : Codecs} {codec : Codec}

/-- The value is accepted by the body of some response of the bucket, or it is null and the bucket
is empty. -/
def InUnion (document : Value) (d : Compilation) (responses : Entries Key Value) (expected : Bool)
    (raw : Value) : Prop :=
  (inBucket expected responses = [] ∧ raw.kind = .null) ∨
    ∃ e ∈ inBucket expected responses, ∃ codec, HasBody document d e.2 codec ∧ codec.Accepts raw

/-- What a body of the bucket accepts is accepted by the first one of some notation as well. -/
def NothingHidden (document : Value) (d : Compilation) (responses : Entries Key Value)
    (expected : Bool) : Prop :=
  ∀ e ∈ inBucket expected responses, ∀ codec, HasBody document d e.2 codec →
    ∀ raw, codec.Accepts raw →
      ∃ leader, Leads document d responses expected leader ∧ leader.Accepts raw

def AllLegible (document : Value) (d : Compilation) (responses : Entries Key Value)
    (expected : Bool) : Prop :=
  ∀ e ∈ inBucket expected responses, ∀ codec, HasBody document d e.2 codec → codec.IsLegible

theorem coherent_of_run (h : Visited document c)
    (run : (compile document responses).run c = (.ok codecs, d)) :
    ∃ abandoned, Coherent document abandoned abandoned d.catalogue := by
  obtain ⟨bodies, hrun, -, -⟩ := run_compile_eq_ok.mp run
  obtain ⟨abandoned, hc⟩ := h.coherent
  exact ⟨abandoned, ((bodyCodecs_lasts responses c hc).of_run hrun).1⟩

theorem knows_of_hasBody (hd : Coherent document abandoned abandoned d.catalogue)
    (h : HasBody document d response codec) : d.catalogue.Knows codec := by
  unfold HasBody bodyCodec at h
  cases hcontent : contentOf document response with
  | error e =>
    rw [hcontent] at h
    cases h
  | ok content =>
    rw [hcontent] at h
    change (if content.isTruthy then _ else _ : Compile Codec).run d = _ at h
    split at h
    · cases hnode : Content.schema content with
      | error e =>
        rw [hnode] at h
        cases h
      | ok node =>
        rw [hnode] at h
        obtain ⟨-, -, hcodec⟩ := compileSchema_ok hd h
        exact Catalogue.knows_of_compile hd hcodec
    · cases h
      exact nofun

theorem Leads.exists_response {expected : Bool} (h : Leads document d responses expected codec) :
    ∃ e ∈ inBucket expected responses, HasBody document d e.2 codec := by
  obtain ⟨bodies, hall, hlead⟩ := h
  obtain ⟨e, he, hbody⟩ := (partners hall).2 codec hlead.mem
  exact ⟨e, he, hbody⟩

theorem nothingHidden_of_allLegible (h : Visited document c)
    (run : (compile document responses).run c = (.ok codecs, d)) {expected : Bool}
    (hlegible : AllLegible document d responses expected) :
    NothingHidden document d responses expected := by
  intro e he codec hbody raw hraw
  obtain ⟨abandoned, hd⟩ := coherent_of_run h run
  obtain ⟨body, hbody', ⟨text, htext⟩, leader, hlead, htold⟩ := exists_leads h run he
  obtain rfl : body = codec := by
    rw [HasBody, hbody] at hbody'
    cases hbody'
    rfl
  -- the leader of its notation is a legible body too, so it is the body itself
  obtain ⟨e', he', hleader⟩ := hlead.exists_response
  have hmade : ∀ f ∈ inBucket expected responses, ∀ b, HasBody document d f.2 b →
      b.Legible d.catalogue.Has :=
    fun f hf b hb => (hlegible f hf b hb).mono (fun _ => id) (knows_of_hasBody hd hb)
  have heq := Codec.eq_of_describe_eq (Catalogue.knownByName hd) (hmade e' he' leader hleader)
    (hmade e he body hbody) (htold.trans htext) htext
  exact ⟨leader, hlead, heq ▸ hraw⟩

/-- The codec of a bucket accepts only what is in the union of the bodies. It accepts the whole union
exactly if nothing is hidden and it breaks off at nothing in the union. Nothing is hidden among legible
bodies. -/
theorem accepts_iff_inUnion (h : Visited document c)
    (run : (compile document responses).run c = (.ok codecs, d)) (expected : Bool) :
    (∀ raw, (codecs.of expected).Accepts raw → InUnion document d responses expected raw) ∧
    (NothingHidden document d responses expected → ∀ raw, (codecs.of expected).Accepts raw ↔
      InUnion document d responses expected raw ∧ ¬ (codecs.of expected).BreaksOff raw) ∧
    ((∀ raw, (codecs.of expected).Accepts raw ↔ InUnion document d responses expected raw) ↔
      NothingHidden document d responses expected ∧
        ∀ raw, InUnion document d responses expected raw → ¬ (codecs.of expected).BreaksOff raw) ∧
    (AllLegible document d responses expected → NothingHidden document d responses expected) ∧
    ((codecs.of expected).Writable → ∀ raw, raw.isShort = true →
      ¬ (codecs.of expected).BreaksOff raw) := by
  have hsound : ∀ raw, (codecs.of expected).Accepts raw →
      InUnion document d responses expected raw := by
    intro raw hraw
    rcases ((accepts_iff h run expected raw).mp hraw).1 with hnull | ⟨leader, hlead, hleader⟩
    · exact .inl hnull
    · obtain ⟨e, he, hbody⟩ := hlead.exists_response
      exact .inr ⟨e, he, leader, hbody, hleader⟩
  have hwhole : NothingHidden document d responses expected → ∀ raw,
      (codecs.of expected).Accepts raw ↔
        InUnion document d responses expected raw ∧ ¬ (codecs.of expected).BreaksOff raw := by
    intro hhidden raw
    refine ⟨fun hraw => ⟨hsound raw hraw, hraw.not_breaksOff⟩, fun ⟨hunion, hends⟩ => ?_⟩
    refine (accepts_iff h run expected raw).mpr ⟨?_, hends⟩
    rcases hunion with hnull | ⟨e, he, codec, hbody, hraw⟩
    · exact .inl hnull
    · exact .inr (hhidden e he codec hbody raw hraw)
  refine ⟨hsound, hwhole, ⟨fun hunion => ⟨fun e he codec hbody raw hraw => ?_, fun raw hraw => ?_⟩,
    fun ⟨hhidden, hends⟩ raw => ?_⟩, nothingHidden_of_allLegible h run,
    fun hwritable _ => hwritable.not_breaksOff⟩
  · have haccepts := (hunion raw).mpr (.inr ⟨e, he, codec, hbody, hraw⟩)
    rcases ((accepts_iff h run expected raw).mp haccepts).1 with ⟨hempty, -⟩ | hlead
    · rw [hempty] at he
      cases he
    · exact hlead
  · exact ((hunion raw).mpr hraw).not_breaksOff
  · exact (hwhole hhidden raw).trans (and_iff_left_of_imp (hends raw))

theorem accepts_iff_inUnion_count : ∃ codecs d,
    (compile (.object []) countOrMessage).run .start = (.ok codecs, d) ∧
      ∀ raw, (codecs.of true).Accepts raw ↔ InUnion (.object []) d countOrMessage true raw := by
  obtain ⟨codecs, d, run⟩ := Compile.exists_run (c := .start)
    (x := compile (.object []) countOrMessage) (by decide +kernel)
  have hlegible : AllLegible (.object []) d countOrMessage true := by
    intro e he codec hbody
    have hbucket : inBucket true countOrMessage =
        [(.str "200", jsonResponse numberSchema)] := rfl
    rw [hbucket] at he
    rw [List.mem_singleton.mp he] at hbody
    cases hbody
    exact .number
  have hends : ∀ raw, ¬ (codecs.of true).BreaksOff raw := by
    obtain ⟨bodies, hall, -, hcodec⟩ := bodies_of_run (visited_start _) run true
    obtain rfl : bodies = [.number] := bodies_unique hall (.cons rfl .nil)
    have hbucket : bucket [.number] = [.number] := by simp [bucket, addSpelled]
    rw [hcodec, hbucket]
    rintro raw ⟨e, he⟩
    cases guarded_eq_error he
  obtain ⟨-, -, hunion, hhidden, -⟩ := accepts_iff_inUnion (visited_start _) run true
  exact ⟨codecs, d, run, hunion.mpr ⟨hhidden hlegible, fun raw _ => hends raw⟩⟩

def strings (names : List String) : Value :=
  .object [("properties", .object (names.map fun name => (name, Content.stringSchema))),
    ("required", .list (names.map .str))]

/-- Two names, and one name that looks like the notation of both. -/
def twoNamesOrOne : Entries Key Value :=
  [("200", jsonResponse (strings ["a", "b"])), ("201", jsonResponse (strings ["a: string, b"]))]

def twoNames : Codec := .interface [("a", .string), ("b", .string)]

def oneName : Codec := .interface [("a: string, b", .string)]

/-- The response that is declared second is refused, as its notation is that of the first. -/
theorem not_accepts_union :
    ¬ ∀ (document : Value) (responses : Entries Key Value) (c d : Compilation) (codecs : Codecs)
      (expected : Bool) (raw : Value), Visited document c →
      (compile document responses).run c = (.ok codecs, d) →
      ((codecs.of expected).Accepts raw ↔ InUnion document d responses expected raw) := by
  intro h
  obtain ⟨codecs, d, run⟩ := Compile.exists_run (c := .start)
    (x := compile (.object []) twoNamesOrOne) (by decide +kernel)
  have htwo : HasBody (.object []) d (jsonResponse (strings ["a", "b"])) twoNames := rfl
  have hone : HasBody (.object []) d (jsonResponse (strings ["a: string, b"])) oneName := rfl
  have hraw : oneName.Accepts (.dict [("a: string, b", .str "x")]) := ⟨_, rfl⟩
  have hunion : InUnion (.object []) d twoNamesOrOne true (.dict [("a: string, b", .str "x")]) :=
    .inr ⟨_, List.mem_cons_of_mem _ List.mem_cons_self, oneName, hone, hraw⟩
  have haccepts := (h _ _ _ _ _ _ _ (visited_start _) run).mpr hunion
  rcases ((accepts_iff (visited_start _) run true _).mp haccepts).1 with
    ⟨hempty, -⟩ | ⟨leader, ⟨bodies, hall, hlead⟩, v, hleader⟩
  · cases hempty
  · obtain rfl : bodies = [twoNames, oneName] :=
      bodies_unique hall (.cons htwo (.cons hone .nil))
    -- the leader is the first body, which refuses the value, or one of another notation
    rcases leading_cons.mp hlead with rfl | ⟨hlead, htold⟩
    · cases hleader
    · rw [List.mem_singleton.mp hlead.mem] at htold
      exact htold (by decide +kernel)

end OpenApi.Response
