import OpenApi.Proofs.Compilation.Lasting
import OpenApi.Proofs.Response.Buckets
/-! # Bodies of responses

The codecs of the declared bodies lead to the two codecs that replies are read with. After the
responses were compiled, the codec of each body can be asked for again. -/
namespace OpenApi.Response

open Catalogue (Coherent)

variable {document : Value} {abandoned : List String} {responses : Entries Key Value}
  {c d : Compilation} {codecs : Codecs}

/-- The responses with content that are expected, or those that are errors. -/
def inBucket (expected : Bool) (responses : Entries Key Value) : Entries Key Value :=
  responses.filter fun e => e.1.text != noContent && isExpected e.1.text == expected

/-- The codec of the body of a response, asked for when it is known. -/
def HasBody (document : Value) (d : Compilation) (response : Value) (codec : Codec) : Prop :=
  (bodyCodec document response).run d = (.ok codec, d)

/-- Among the bodies of a bucket the codec is the first one of its notation. -/
def Leads (document : Value) (d : Compilation) (responses : Entries Key Value) (expected : Bool)
    (codec : Codec) : Prop :=
  ∃ codecs, List.Forall₂ (fun e c => HasBody document d e.2 c) (inBucket expected responses) codecs ∧
    Leading codecs codec

def Codecs.of (codecs : Codecs) (expected : Bool) : Codec :=
  if expected then codecs.expected else codecs.error

theorem bodyCodec_lasts (response : Value) :
    Establishes document abandoned (Lasts document abandoned (bodyCodec document response))
      (bodyCodec document response) := by
  unfold bodyCodec
  cases contentOf document response with
  | error e => exact fun _ _ => trivial
  | ok content =>
    show Establishes document abandoned
      (Lasts document abandoned (if content.isTruthy then _ else _)) (if content.isTruthy then _ else _)
    split
    · cases Content.schema content with
      | error e => exact fun _ _ => trivial
      | ok node => exact compileSchema_lasts node
    · exact establishes_pure fun _ _ _ _ => rfl

theorem bodyCodecs_lasts (responses : Entries Key Value) :
    Establishes document abandoned
      (fun bodies k => List.Forall₂
        (fun e b => e.1.text = b.1 ∧ Lasts document abandoned (bodyCodec document e.2) b.2 k)
        (responses.filter fun e => e.1.text != noContent) bodies)
      (bodyCodecs document responses) := by
  refine establishes_mapM (fun e b k l h hkl => ⟨h.1, h.2.mono hkl⟩) fun e _ => ?_
  exact (bodyCodec_lasts e.2).map fun codec k h => ⟨rfl, h⟩

theorem forall₂_inBucket {R : Key × Value → Codec → Prop} {bodies : List (String × Codec)}
    (h : List.Forall₂ (fun e b => e.1.text = b.1 ∧ R e b.2)
      (responses.filter fun e => e.1.text != noContent) bodies) (expected : Bool) :
    List.Forall₂ R (inBucket expected responses) (codecsOf expected bodies) := by
  have hbucket : inBucket expected responses =
      (responses.filter fun e => e.1.text != noContent).filter
        fun e => isExpected e.1.text == expected := by
    rw [List.filter_filter, inBucket]
    exact congrFun (congrArg _ (funext fun e => Bool.and_comm _ _)) _
  rw [hbucket, codecsOf, List.forall₂_map_right_iff]
  have hcodes : ∀ ⦃e : Key × Value⦄ ⦃b : String × Codec⦄, e.1.text = b.1 ∧ R e b.2 →
      ((isExpected e.1.text == expected) = true ↔ (isExpected b.1 == expected) = true) := by
    intro e b heb
    rw [heb.1]
  exact (List.rel_filter hcodes h).imp fun e b heb => heb.2

theorem Codecs.of_ofBodies (bodies : List (String × Codec)) (expected : Bool) :
    (Codecs.ofBodies bodies).of expected = collapse (bucket (codecsOf expected bodies)) := by
  cases expected <;> rfl

theorem noted_codecsOf {bodies : List (String × Codec)} (h : ∀ body ∈ bodies, body.2.Noted)
    (expected : Bool) : ∀ codec ∈ codecsOf expected bodies, codec.Noted := by
  intro codec hcodec
  obtain ⟨body, hbody, rfl⟩ := List.mem_map.mp hcodec
  exact h body (List.mem_filter.mp hbody).1

theorem bodies_unique {es : Entries Key Value} {as bs : List Codec}
    (ha : List.Forall₂ (fun e c => HasBody document d e.2 c) es as)
    (hb : List.Forall₂ (fun e c => HasBody document d e.2 c) es bs) : as = bs := by
  induction ha generalizing bs with
  | nil =>
    cases hb
    rfl
  | @cons e a es as hea _ ih =>
    obtain _ | ⟨heb, hrest⟩ := hb
    rw [HasBody, hea] at heb
    cases heb
    rw [ih hrest]

/-- Every response of a bucket has the codec of its body, all of these have a notation, and the bucket is
made of them. -/
theorem bodies_of_run (h : Visited document c)
    (run : (compile document responses).run c = (.ok codecs, d)) (expected : Bool) :
    ∃ bodies, List.Forall₂ (fun e codec => HasBody document d e.2 codec)
        (inBucket expected responses) bodies ∧ (∀ codec ∈ bodies, codec.Noted) ∧
      codecs.of expected = collapse (bucket bodies) := by
  obtain ⟨bodies, hrun, hnoted, rfl⟩ := run_compile_eq_ok.mp run
  obtain ⟨abandoned, hc⟩ := h.coherent
  obtain ⟨hd, -, hbodies⟩ := (bodyCodecs_lasts responses c hc).of_run hrun
  refine ⟨_, forall₂_inBucket (hbodies.imp fun e b heb => ?_) expected,
    noted_codecsOf hnoted expected, Codecs.of_ofBodies bodies expected⟩
  exact ⟨heb.1, heb.2 d hd (Catalogue.extends_refl d.catalogue)⟩

/-- The codec of a bucket accepts what the first codec of some notation accepts, unless it breaks off. That
of an empty bucket accepts null. -/
theorem accepts_iff (h : Visited document c)
    (run : (compile document responses).run c = (.ok codecs, d)) (expected : Bool) (raw : Value) :
    (codecs.of expected).Accepts raw ↔
      ((inBucket expected responses = [] ∧ raw.kind = .null) ∨
        ∃ codec, Leads document d responses expected codec ∧ codec.Accepts raw) ∧
      ¬ (codecs.of expected).BreaksOff raw := by
  obtain ⟨bodies, hall, hnoted, hcodec⟩ := bodies_of_run h run expected
  rw [hcodec, accepts_collapse_bucket hnoted]
  refine and_congr_left fun _ => or_congr (and_congr_left fun _ => ?_) (exists_congr fun codec => and_congr_left fun _ => ?_)
  · rw [← List.length_eq_zero_iff, ← List.length_eq_zero_iff, hall.length_eq]
  · constructor
    · intro hlead
      exact ⟨bodies, hall, hlead⟩
    · rintro ⟨others, hothers, hlead⟩
      rwa [bodies_unique hall hothers]

theorem exists_leads (h : Visited document c)
    (run : (compile document responses).run c = (.ok codecs, d)) {expected : Bool}
    {e : Key × Value} (he : e ∈ inBucket expected responses) :
    ∃ codec, HasBody document d e.2 codec ∧ codec.Noted ∧
      ∃ leader, Leads document d responses expected leader ∧
        leader.describe = codec.describe := by
  obtain ⟨bodies, hall, hnoted, -⟩ := bodies_of_run h run expected
  obtain ⟨codec, hmem, hbody⟩ := (partners hall).1 e he
  obtain ⟨leader, hlead, htold⟩ := exists_leading hmem
  exact ⟨codec, hbody, hnoted codec hmem, leader, ⟨bodies, hall, hlead⟩, htold⟩

end OpenApi.Response
