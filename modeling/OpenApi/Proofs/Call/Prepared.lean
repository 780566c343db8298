import OpenApi.Call
import OpenApi.Proofs.Entries
import OpenApi.Proofs.Schema.Related
/-! # What a call is prepared to

The headers of a call, those among its settings and those that come with its body, and the ways in
which preparing it ends. -/
namespace OpenApi

/-- The headers among the settings of a call. They come on top of all others. -/
def Arguments.ownHeaders (a : Arguments) : Headers := (a.settings.map CallOptions.headers).getD []

namespace CallOptions

theorem headers_jsonBody {o sent : CallOptions} {v : Value} (h : o.jsonBody v = .ok sent) :
    sent.headers = o.headers.put "Content-Type" (.str Content.jsonType) := by
  simp only [jsonBody] at h
  split at h
  · cases h
    rfl
  · split at h
    · cases h
      rfl
    · cases h

theorem headers_formBody {o sent : CallOptions} {v : Value} (h : o.formBody v = .ok sent) :
    sent.headers = o.headers.put "Content-Type" (.str Content.formType) := by
  obtain ⟨fields, -, h⟩ := bind_eq_ok.1 h
  cases h
  rfl

theorem headers_multipartBody {o sent : CallOptions} {v : Value}
    (h : o.multipartBody v = .ok sent) : sent.headers = o.headers := by
  obtain ⟨parts, -, h⟩ := bind_eq_ok.1 h
  cases h
  rfl

end CallOptions

theorem Body.encode_cases {b : Body} {v : Value} {options sent : CallOptions}
    (h : b.encode v options = .ok sent) :
    (∃ type, (b.encoding = some .json ∨ b.encoding = some .form) ∧
      sent.headers = options.headers.put "Content-Type" (.str type)) ∨
    (∃ type, b.encoding = none ∧ options.headers.has "Content-Type" = false ∧
      (b.contentType.filter fun s => !s.isEmpty) = some type ∧
      sent.headers = options.headers.put "Content-Type" (.str type)) ∨
    (sent.headers = options.headers ∧ (b.encoding = none →
      options.headers.has "Content-Type" = true ∨
        (b.contentType.filter fun s => !s.isEmpty) = none)) := by
  unfold Body.encode at h
  cases he : b.encoding with
  | some e =>
    rw [he] at h
    cases e with
    | json => exact .inl ⟨_, .inl rfl, CallOptions.headers_jsonBody h⟩
    | form => exact .inl ⟨_, .inr rfl, CallOptions.headers_formBody h⟩
    | multipart => exact .inr (.inr ⟨CallOptions.headers_multipartBody h, nofun⟩)
  | none =>
    rw [he] at h
    cases htype : b.contentType.filter fun s => !s.isEmpty with
    | none =>
      rw [htype] at h
      cases h
      exact .inr (.inr ⟨rfl, fun _ => .inr rfl⟩)
    | some type =>
      rw [htype] at h
      cases hhas : options.headers.has "Content-Type" with
      | true =>
        simp only [hhas, if_true] at h
        cases h
        exact .inr (.inr ⟨rfl, fun _ => .inl rfl⟩)
      | false =>
        simp only [hhas, Bool.false_eq_true, if_false] at h
        cases h
        exact .inr (.inl ⟨type, rfl, rfl, rfl, rfl⟩)

theorem Body.get?_of_encode {b : Body} {v : Value} {options sent : CallOptions}
    (h : b.encode v options = .ok sent) {k : String} {w : Value}
    (hw : options.headers.get? k = some w)
    (hk : k = "Content-Type" → b.encoding ≠ some .json ∧ b.encoding ≠ some .form) :
    sent.headers.get? k = some w := by
  have hput : ∀ type, k ≠ "Content-Type" →
      (options.headers.put "Content-Type" (.str type)).get? k = some w := by
    intro type hne
    rw [Entries.get?_put, if_neg (by simpa using hne), hw]
  rcases Body.encode_cases h with ⟨type, he, hs⟩ | ⟨type, -, hnew, -, hs⟩ | ⟨hs, -⟩
  · rw [hs]
    refine hput type fun hc => ?_
    rcases he with he | he
    · exact (hk hc).1 he
    · exact (hk hc).2 he
  · rw [hs]
    refine hput type fun hc => ?_
    rw [Entries.has, ← hc, hw] at hnew
    cases hnew
  · rwa [hs]

theorem Body.encode_empty (b : Body) {v : Value} (h : v = .null ∨ v = .dict [])
    (options : CallOptions) : ∃ sent, b.encode v options = .ok sent := by
  unfold Body.encode
  cases b.encoding with
  | none => exact ⟨_, rfl⟩
  | some e =>
    cases e with
    | json => rcases h with rfl | rfl <;> exact ⟨_, rfl⟩
    | form => rcases h with rfl | rfl <;> exact ⟨_, rfl⟩
    | multipart => rcases h with rfl | rfl <;> exact ⟨_, rfl⟩

namespace Operation

/-- The fault is that of other arguments: the further query values, the settings or the body. -/
def OtherFault (o : Operation) (a : Arguments) (bound : Entries String Value) (f : Fault) : Prop :=
  Field.mapping ((bound.get? "query").getD .null) = .error f ∨ settingsOf a bound = .error f ∨
    ∃ b options, o.body = some b ∧ b.encode ((bound.get? "body").getD .null) options = .error f

theorem headers_of_settingsOf {a : Arguments} {bound : Entries String Value} {own : CallOptions}
    (h : settingsOf a bound = .ok own) : own.headers = a.ownHeaders := by
  unfold settingsOf at h
  rw [Arguments.ownHeaders]
  split at h
  · rename_i options hs
    cases h
    rw [hs]
    rfl
  · rename_i hs
    split at h
    · cases h
    · cases h
      rw [hs]
      rfl

theorem optionsFor_cases (o : Operation) (base : Option String) (bound : Entries String Value)
    (own : CallOptions) : ∃ options : CallOptions,
      options.headers = Entries.overlay (o.headers bound) own.headers ∧
      ((∀ b, o.body = some b → ((bound.get? "body").getD .null).kind = .null) ∧
        o.optionsFor base bound own = .ok options ∨
        ∃ b, o.body = some b ∧ ((bound.get? "body").getD .null).kind ≠ .null ∧
          o.optionsFor base bound own = b.encode ((bound.get? "body").getD .null) options) := by
  refine ⟨{ own with
    method := o.verb.upperName
    headers := Entries.overlay (o.headers bound) own.headers
    baseUrl := own.baseUrl <|> base }, rfl, ?_⟩
  unfold optionsFor
  dsimp only
  cases o.body with
  | none => exact .inl ⟨nofun, rfl⟩
  | some b =>
    dsimp only
    split
    · rename_i hk
      exact .inl ⟨fun _ _ => hk, rfl⟩
    · rename_i hk
      exact .inr ⟨b, rfl, hk, rfl⟩

theorem get?_of_optionsFor {o : Operation} {base : Option String} {bound : Entries String Value}
    {own sent : CallOptions} (ho : o.optionsFor base bound own = .ok sent) {k : String} {w : Value}
    (hk : k ∉ own.headers.keys) (hw : (o.headers bound).get? k = some w)
    (ht : k = "Content-Type" → ∀ b, o.body = some b →
      b.encoding ≠ some .json ∧ b.encoding ≠ some .form) : sent.headers.get? k = some w := by
  obtain ⟨options, hh, hc⟩ := optionsFor_cases o base bound own
  have hget : options.headers.get? k = some w := by
    have hown : Entries.get? own.headers.reverse k = none := by
      refine Entries.get?_eq_none_iff.2 fun hm => hk ?_
      simpa [Entries.keys] using hm
    rw [hh, Entries.get?_overlay, hown, hw]
    rfl
  rcases hc with ⟨-, hc⟩ | ⟨b, hb, -, hc⟩
  · rw [hc] at ho
    cases ho
    exact hget
  · rw [hc] at ho
    exact Body.get?_of_encode ho hget fun he => ht he b hb

theorem prepare_cases {o : Operation} {a : Arguments} {bound : Entries String Value}
    (hb : o.bind a = .ok bound) (base : Option String) (query : Entries String Value) :
    (∃ f, o.prepare base query a = .error f ∧ o.OtherFault a bound f) ∨
      ∃ further own sent, Field.mapping ((bound.get? "query").getD .null) = .ok further ∧
        settingsOf a bound = .ok own ∧ o.optionsFor base bound own = .ok sent ∧
        o.prepare base query a = .ok {
          url := Query.append (o.url bound) further (query.map fun e => (.str e.1, e.2))
          options := sent
          accept := if o.returnsJson then Content.jsonType else Content.anyType } := by
  rw [prepare, hb]
  cases hm : Field.mapping ((bound.get? "query").getD .null) with
  | error f => exact .inl ⟨f, by simp only [Bind.bind, Except.bind, hm], .inl hm⟩
  | ok further =>
    cases hs : settingsOf a bound with
    | error f => exact .inl ⟨f, by simp only [Bind.bind, Except.bind, hm, hs], .inr (.inl hs)⟩
    | ok own =>
      cases ho : o.optionsFor base bound own with
      | ok sent =>
        refine .inr ⟨further, own, sent, rfl, rfl, ho, ?_⟩
        simp only [Bind.bind, Except.bind, hm, hs, ho]
        rfl
      | error f =>
        obtain ⟨options, -, ⟨-, hc⟩ | ⟨b, hbody, -, hc⟩⟩ := optionsFor_cases o base bound own
        · rw [hc] at ho
          cases ho
        · exact .inl ⟨f, by simp only [Bind.bind, Except.bind, hm, hs, ho],
            .inr (.inr ⟨b, options, hbody, hc ▸ ho⟩)⟩

/-- Nothing but its parameters can be wrong with a call that gives null or an empty mapping to the body
and no further query values or settings. -/
theorem exists_prepared {o : Operation} {a : Arguments} {bound : Entries String Value}
    (hb : o.bind a = .ok bound) (hq : (bound.get? "query").getD .null = .null)
    (hs : a.settings = none) (hopts : (bound.get? "opts").getD .null = .null)
    (hbody : ∀ b, o.body = some b → (bound.get? "body").getD .null = .null ∨
      (bound.get? "body").getD .null = .dict []) (base : Option String)
    (query : Entries String Value) : ∃ own sent r, o.optionsFor base bound own = .ok sent ∧
      o.prepare base query a = .ok r ∧ r.options = sent := by
  rcases prepare_cases hb base query with ⟨f, -, hf | hf | ⟨b, options, he, hf⟩⟩ |
    ⟨further, own, sent, -, -, ho, hr⟩
  · rw [hq] at hf
    cases hf
  · simp [settingsOf, hs, hopts, Value.isTruthy] at hf
  · obtain ⟨sent, hsent⟩ := Body.encode_empty b (hbody b he) options
    cases hsent.symm.trans hf
  · exact ⟨own, sent, _, ho, hr, rfl⟩

end Operation

end OpenApi
