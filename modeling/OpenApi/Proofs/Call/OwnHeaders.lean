import OpenApi.Proofs.Call.Carried
import OpenApi.Proofs.Request.Headers
/-! # The own headers of a call

Headers among the settings of a call come on top of those of its parameters. There they are told apart by
their spelling, and in a request they are not: so one that is spelled like a parameter takes its place,
and another spelling of either side comes after it. The type of the body is added by its spelling too. -/
namespace OpenApi

open Request

namespace Request

theorem hasHeader_of_filter {merged : Headers} {name other : String}
    (h : (merged.filter fun e => sameName e.1 name) ≠ []) (hs : sameName other name = true) :
    hasHeader merged other = true := by
  rw [hasHeader_congr merged hs, hasHeader_eq]
  simpa using h

theorem filter_tokenHeader {merged : Headers} {name : String}
    (h : (merged.filter fun e => sameName e.1 name) ≠ []) (d : Defaults) :
    (tokenHeader d merged).filter (fun e => sameName e.1 name) = [] := by
  refine List.filter_eq_nil_iff.2 fun e he hs => ?_
  obtain ⟨t, -, -, hnot, rfl⟩ := mem_tokenHeader.1 he
  rw [hasHeader_of_filter h hs] at hnot
  cases hnot

theorem filter_typeHeader {merged : Headers} {name : String}
    (h : (merged.filter fun e => sameName e.1 name) ≠ []) (o : CallOptions) :
    (typeHeader o merged).filter (fun e => sameName e.1 name) = [] := by
  refine List.filter_eq_nil_iff.2 fun e he hs => ?_
  obtain ⟨-, -, hnot, rfl⟩ := mem_typeHeader.1 he
  rw [hasHeader_of_filter h hs] at hnot
  cases hnot

end Request

namespace Prepared

/-- Whatever the defaults are, the request has one header of this name, with this value. -/
def Sends (r : Prepared) (name : String) (v : Value) : Prop :=
  ∀ d : Defaults, ∃ s, (headersFor r.options d (.str r.accept)).filter
    (fun e => sameName e.1 name) = [(s, v)]

def Infers (r : Prepared) (name : String) (v : Value) : Prop :=
  sameName "Content-Type" name = true ∧ r.options.parts = none ∧ r.options.body.kind ≠ .null ∧
    v = .str (inferType r.options.body)

variable {r : Prepared} {name : String} {e : String × Value}
  (h : lastOf? r.options.headers name = some e)

include h

theorem sends_iff_of_sent (hk : e.2.kind ≠ .null) (v : Value) : r.Sends name v ↔ e.2 = v := by
  have hsent : ∀ d : Defaults, (headersFor r.options d (.str r.accept)).filter
      (fun e => sameName e.1 name) = [e] := by
    intro d
    have hmerged : (mergeHeaders (.str r.accept) [Entries.mapValues .str d.headers,
        r.options.headers]).filter (fun e => sameName e.1 name) = [e] := by
      rw [filter_mergeHeaders_of_own h, if_neg hk]
    have hfull : ((mergeHeaders (.str r.accept) [Entries.mapValues .str d.headers,
        r.options.headers]).filter fun e => sameName e.1 name) ≠ [] := by
      rw [hmerged]
      simp
    rw [headersFor_eq, List.filter_append, List.filter_append, filter_tokenHeader hfull,
      filter_typeHeader hfull, hmerged]
    rfl
  constructor
  · intro hs
    obtain ⟨s, hs⟩ := hs Defaults.builtIn
    rw [hsent] at hs
    cases hs
    rfl
  · rintro rfl d
    exact ⟨e.1, hsent d⟩

theorem sends_iff_of_unsent (hk : e.2.kind = .null) (v : Value) :
    r.Sends name v ↔ r.Infers name v := by
  have hmerged : ∀ d : Defaults, (mergeHeaders (.str r.accept)
      [Entries.mapValues .str d.headers, r.options.headers]).filter
        (fun e => sameName e.1 name) = [] := by
    intro d
    rw [filter_mergeHeaders_of_own h, if_pos hk]
  constructor
  · intro hs
    obtain ⟨s, hs⟩ := hs { Defaults.builtIn with token := none }
    have htoken : ∀ merged, tokenHeader { Defaults.builtIn with token := none } merged = [] :=
      fun _ => rfl
    rw [headersFor_eq, List.filter_append, List.filter_append, hmerged, htoken, List.filter_nil,
      List.nil_append, List.nil_append] at hs
    obtain ⟨hm, hname⟩ := List.mem_filter.1 (hs ▸ List.mem_cons_self)
    obtain ⟨hparts, hbody, -, he⟩ := mem_typeHeader.1 hm
    cases he
    exact ⟨hname, hparts, hbody, rfl⟩
  · rintro ⟨hname, hparts, hbody, rfl⟩ d
    have hm := hmerged d
    rw [headersFor_eq, List.filter_append, List.filter_append, hm]
    have hnot : hasHeader (mergeHeaders (.str r.accept) [Entries.mapValues .str d.headers,
        r.options.headers]) "content-type" = false := by
      rw [hasHeader_contentType, hasHeader_congr _ hname, hasHeader_eq, hm]
      rfl
    have htoken : ∀ merged, (tokenHeader d merged).filter (fun e => sameName e.1 name) = [] := by
      intro merged
      refine List.filter_eq_nil_iff.2 fun e he hs => ?_
      obtain ⟨t, -, -, -, rfl⟩ := mem_tokenHeader.1 he
      have hsame : Text.lower "Authorization" = Text.lower "Content-Type" :=
        (sameName_iff.1 hs).trans (sameName_iff.1 hname).symm
      exact absurd hsame (by decide)
    refine ⟨"Content-Type", ?_⟩
    rw [htoken, typeHeader, hparts, hnot]
    simp [hbody, hname]

theorem sends_iff {v : Value} (hv : v.kind ≠ .null) :
    r.Sends name v ↔ e.2 = v ∨ e.2.kind = .null ∧ r.Infers name v := by
  by_cases hk : e.2.kind = .null
  · have hne : e.2 ≠ v := fun he => hv (he ▸ hk)
    simp [sends_iff_of_unsent h hk, hk, hne]
  · simp [sends_iff_of_sent h hk, hk]

end Prepared

namespace Operation

def SetsType (o : Operation) (bound : Entries String Value) : Prop :=
  ∃ b, o.body = some b ∧ ((bound.get? "body").getD .null).kind ≠ .null ∧
    (b.encoding = some .json ∨ b.encoding = some .form)

/-- The declared type of a body that is sent as it is. It is added if no header has this very name. -/
def addedType? (o : Operation) (bound : Entries String Value) (own : Headers) : Option String :=
  match o.body with
  | some b =>
    if ((bound.get? "body").getD .null).kind = .null ∨ b.encoding ≠ none ∨
        (Entries.overlay (o.headers bound) own).has "Content-Type" then none
    else b.contentType.filter fun s => !s.isEmpty
  | none => none

/-- The header that counts under a name: the type that is added for the body, the last own one that is not
spelled like one of the parameters, or the last one of the parameters with the own value if there is one. -/
def countingHeader (o : Operation) (bound : Entries String Value) (own : Headers) (name : String) :
    Option (String × Value) :=
  ((o.addedType? bound own).bind fun type =>
      if sameName "Content-Type" name then some ("Content-Type", .str type) else none).or
    ((lastOf? (own.filter fun e => !(o.headers bound).has e.1) name).or
      ((lastOf? (o.headers bound) name).map fun e => (e.1, (own.get? e.1).getD e.2)))

theorem lastOf?_overlay {base own : Headers} (hb : base.keys.Nodup) (ho : own.keys.Nodup)
    (name : String) : lastOf? (Entries.overlay base own) name =
      (lastOf? (own.filter fun e => !base.has e.1) name).or
        ((lastOf? base name).map fun e => (e.1, (own.get? e.1).getD e.2)) := by
  rw [Entries.overlay_eq hb ho, lastOf?_append]
  exact congrArg _ (lastOf?_map base (fun e => (Entries.get? own e.1).getD e.2) name)

theorem lastOf?_put_other {headers : Headers} {k name : String} (h : sameName k name = false)
    (v : Value) : lastOf? (headers.put k v) name = lastOf? headers name := by
  have hfilter : (headers.put k v).filter (fun e => sameName e.1 name) =
      headers.filter fun e => sameName e.1 name := by
    induction headers with
    | nil => simp [Entries.put, h]
    | cons e headers ih =>
      by_cases hk : k = e.1
      · subst hk
        simp [Entries.put, h]
      · simp [Entries.put, hk, List.filter_cons, ih]
  rw [lastOf?, lastOf?, hfilter]

theorem lastOf?_overlay_of_not_added {o : Operation} {bound : Entries String Value} {own : Headers}
    (hn : own.keys.Nodup) (name : String) (h : o.addedType? bound own = none) :
    lastOf? (Entries.overlay (o.headers bound) own) name = o.countingHeader bound own name := by
  have hgiven : (o.headers bound).keys.Nodup := Entries.nodup_keys_overlay _ List.nodup_nil
  rw [countingHeader, h, lastOf?_overlay hgiven hn]
  rfl

theorem addedType?_of_null {o : Operation} {bound : Entries String Value}
    (h : ∀ b, o.body = some b → ((bound.get? "body").getD .null).kind = .null) (own : Headers) :
    o.addedType? bound own = none := by
  unfold addedType?
  split
  · next b hb => rw [if_pos (.inl (h b hb))]
  · rfl

theorem addedType?_of_body {o : Operation} {b : Body} (hb : o.body = some b)
    {bound : Entries String Value} (h : ((bound.get? "body").getD .null).kind ≠ .null)
    (own : Headers) : o.addedType? bound own =
      if b.encoding ≠ none ∨ (Entries.overlay (o.headers bound) own).has "Content-Type" then none
      else b.contentType.filter fun s => !s.isEmpty := by
  rw [addedType?, hb]
  simp [h]

theorem lastOf?_optionsFor {o : Operation} {base : Option String} {bound : Entries String Value}
    {own sent : CallOptions} (h : o.optionsFor base bound own = .ok sent)
    (hn : own.headers.keys.Nodup) {name : String}
    (hx : ¬ (sameName "Content-Type" name = true ∧ o.SetsType bound)) :
    lastOf? sent.headers name = o.countingHeader bound own.headers name := by
  have hplain : o.addedType? bound own.headers = none →
      lastOf? (Entries.overlay (o.headers bound) own.headers) name =
        o.countingHeader bound own.headers name := lastOf?_overlay_of_not_added hn name
  obtain ⟨options, hh, ⟨hnull, hc⟩ | ⟨b, hb, hbody, hc⟩⟩ := optionsFor_cases o base bound own
  · cases hc.symm.trans h
    rw [hh]
    exact hplain (addedType?_of_null hnull own.headers)
  have hadded := addedType?_of_body hb hbody own.headers
  rw [← hh] at hadded
  rcases Body.encode_cases (hc.symm.trans h) with ⟨type, he, hs⟩ | ⟨type, he, hnew, htype, hs⟩ |
    ⟨hs, hleft⟩
  · -- the type is set, which does not touch headers of other names
    have hother : sameName "Content-Type" name = false := by
      rw [← Bool.not_eq_true]
      exact fun hname => hx ⟨hname, b, hb, hbody, he⟩
    have hencoded : b.encoding ≠ none := by
      rcases he with he | he <;> rw [he] <;> exact Option.some_ne_none _
    rw [hs, lastOf?_put_other hother, hh]
    exact hplain (hadded.trans (if_pos (.inl hencoded)))
  · -- the type is added behind all other headers
    have hnot : ¬ (b.encoding ≠ none ∨ options.headers.has "Content-Type" = true) := by
      rw [he, hnew]
      simp
    have hgiven : (o.headers bound).keys.Nodup := Entries.nodup_keys_overlay _ List.nodup_nil
    have hlast : "Content-Type" ∉ options.headers.keys := by
      rw [← Entries.has_iff, hnew]
      exact Bool.false_ne_true
    rw [countingHeader, hadded, if_neg hnot, htype, hs, Entries.put_of_new _ hlast, lastOf?_append,
      lastOf?_singleton, hh, lastOf?_overlay hgiven hn]
    rfl
  · rw [hs, hh]
    refine hplain (hadded.trans ?_)
    split
    · rfl
    · next hnot =>
      obtain ⟨he, hnew⟩ := not_or.1 hnot
      exact (hleft (not_not.1 he)).resolve_left hnew

section Own

variable {o : Operation} {a : Arguments} {bound : Entries String Value} {name s : String}
  {v : Value} (hl : lastOf? a.ownHeaders name = some (s, v))

include hl

theorem exists_countingHeader (bound : Entries String Value) :
    ∃ e, o.countingHeader bound a.ownHeaders name = some e := by
  obtain ⟨hm, hname⟩ := mem_of_lastOf? hl
  by_cases hs : (o.headers bound).has s = true
  · obtain ⟨e, he⟩ := exists_lastOf? (Entries.has_iff.1 hs) hname
    apply Option.isSome_iff_exists.1
    simp [countingHeader, he]
  · have hown := lastOf?_filter_keys hl (p := fun e => !(o.headers bound).has e.1) (by simpa using hs)
    apply Option.isSome_iff_exists.1
    simp [countingHeader, hown]

theorem countingHeader_of_one_spelling (hn : a.ownHeaders.keys.Nodup)
    (ht : sameName "Content-Type" name = true → o.addedType? bound a.ownHeaders = none)
    (hs : s ∈ (o.headers bound).keys → ∀ k ∈ (o.headers bound).keys ++ a.ownHeaders.keys,
      sameName k name = true → k = s) :
    ∃ e, o.countingHeader bound a.ownHeaders name = some e ∧ e.2 = v := by
  have hadded : ((o.addedType? bound a.ownHeaders).bind fun type =>
      if sameName "Content-Type" name then some ("Content-Type", Value.str type) else none) =
        none := by
    by_cases hname : sameName "Content-Type" name = true
    · rw [ht hname]
      rfl
    · cases o.addedType? bound a.ownHeaders <;> simp [hname]
  rw [countingHeader, hadded, Option.none_or]
  by_cases hgiven : s ∈ (o.headers bound).keys
  · have hnone : lastOf? (a.ownHeaders.filter fun e => !(o.headers bound).has e.1) name = none := by
      refine lastOf?_eq_none_iff.2 fun e he => ?_
      obtain ⟨hm, hnew⟩ := List.mem_filter.1 he
      rw [← Bool.not_eq_true]
      intro hname
      have hk := hs hgiven e.1 (List.mem_append_right _ (List.mem_map.2 ⟨e, hm, rfl⟩)) hname
      rw [hk, Entries.has_iff.2 hgiven] at hnew
      cases hnew
    obtain ⟨hm, hname⟩ := mem_of_lastOf? hl
    obtain ⟨e, he⟩ := exists_lastOf? hgiven hname
    obtain ⟨hem, hename⟩ := mem_of_lastOf? he
    have hk := hs hgiven e.1 (List.mem_append_left _ (List.mem_map.2 ⟨e, hem, rfl⟩)) hename
    refine ⟨(e.1, v), ?_, rfl⟩
    rw [hnone, he, Option.none_or, Option.map_some, hk, Entries.get?_of_mem hn hm]
    rfl
  · have hown := lastOf?_filter_keys hl (p := fun e => !(o.headers bound).has e.1) (by
      simpa using mt Entries.has_iff.1 hgiven)
    exact ⟨(s, v), by rw [hown, Option.some_or], rfl⟩

/-- A header of the settings is sent, in any letter case of its name and whatever the defaults are,
exactly if the one that counts under its name has its value, or if that one is null and the type of
the body happens to be this value. It does count where no type is added for the body and either no
header of the parameters or every header of this name is spelled like it. -/
theorem sends_own_iff (hb : o.bind a = .ok bound) {base : Option String}
    {query : Entries String Value} {r : Prepared} (hr : o.prepare base query a = .ok r)
    (hn : a.ownHeaders.keys.Nodup) (hv : v.kind ≠ .null)
    (hx : ¬ (sameName "Content-Type" name = true ∧ o.SetsType bound)) :
    (r.Sends name v ↔ ∃ e, o.countingHeader bound a.ownHeaders name = some e ∧
      (e.2 = v ∨ e.2.kind = .null ∧ r.Infers name v)) ∧
    ((sameName "Content-Type" name = true → o.addedType? bound a.ownHeaders = none) →
      (s ∈ (o.headers bound).keys → ∀ k ∈ (o.headers bound).keys ++ a.ownHeaders.keys,
        sameName k name = true → k = s) → r.Sends name v) := by
  have hiff : r.Sends name v ↔ ∃ e, o.countingHeader bound a.ownHeaders name = some e ∧
      (e.2 = v ∨ e.2.kind = .null ∧ r.Infers name v) := by
    rcases prepare_cases hb base query with ⟨f, hf, -⟩ | ⟨further, own, sent, -, hs, ho, hr'⟩
    · rw [hr] at hf
      cases hf
    rw [hr] at hr'
    cases hr'
    have hown := headers_of_settingsOf hs
    obtain ⟨e, he⟩ := exists_countingHeader (o := o) hl bound
    have hlast := lastOf?_optionsFor ho (hown ▸ hn) hx
    rw [hown, he] at hlast
    rw [Prepared.sends_iff hlast hv, he]
    constructor
    · exact fun h => ⟨e, rfl, h⟩
    · rintro ⟨_, heq, h⟩
      cases heq
      exact h
  refine ⟨hiff, fun ht hs => hiff.2 ?_⟩
  obtain ⟨e, he, hev⟩ := countingHeader_of_one_spelling hl hn ht hs
  exact ⟨e, he, .inl hev⟩

end Own

end Operation

def oneBody (mediaType : String) : Entries Key Value :=
  [(.str "openapi", .str "3.0.0"),
    (.str "info", Value.object [("title", .str "T"), ("version", .str "1")]),
    (.str "paths", Value.object [("/notes", Value.object [("post", Value.object [
      ("tags", .list [.str "notes"]),
      ("operationId", .str "addNote"),
      ("requestBody", Value.object [("content", Value.object [(mediaType, Value.object [
        ("schema", Value.object [("type", .str "string")])])])]),
      ("responses", Value.object [])])])])]

def callWithHeader (name value : String) : Arguments :=
  ⟨[.str "hi"], [], some { CallOptions.default with headers := [(name, .str value)] }⟩

theorem Operation.not_setsType {o : Operation} (h : o.body.any (fun b => b.encoding.isNone) = true)
    (bound : Entries String Value) : ¬ o.SetsType bound := by
  rintro ⟨b, hb, -, he⟩
  rw [hb] at h
  rcases he with he | he <;> simp [he] at h

theorem Operation.sends_own_iff_contentType : ∃ api d, ∃ o ∈ api.operations,
    (Api.compile (oneBody "text/plain") .default .null).run .start = (.ok api, d) ∧
      ∃ r, o.prepare none [] (callWithHeader "Content-Type" "text/markdown") = .ok r ∧
        r.Sends "content-type" (.str "text/markdown") := by
  obtain ⟨api, d, hr⟩ := Compile.exists_run (c := .start)
    (x := Api.compile (oneBody "text/plain") .default .null) (by decide +kernel)
  have hall : ((Api.compile (oneBody "text/plain") .default .null).run .start).1.toOption.any
      (fun api => api.operations.any fun o => o.body.any (fun b => b.encoding.isNone) &&
        (o.prepare none [] (callWithHeader "Content-Type" "text/markdown")).isOk &&
        (o.bind (callWithHeader "Content-Type" "text/markdown")).toOption.any fun bound =>
          (o.headers bound).isEmpty && decide (o.addedType? bound
            (callWithHeader "Content-Type" "text/markdown").ownHeaders = none)) = true := by
    decide +kernel
  rw [hr] at hall
  obtain ⟨o, ho, hall⟩ := List.any_eq_true.1 hall
  obtain ⟨hall, hbound⟩ := Bool.and_eq_true_iff.1 hall
  obtain ⟨hbody, hprepared⟩ := Bool.and_eq_true_iff.1 hall
  refine ⟨api, d, o, ho, hr, ?_⟩
  cases hb : o.bind (callWithHeader "Content-Type" "text/markdown") with
  | error f =>
    rw [hb] at hbound
    cases hbound
  | ok bound =>
    rw [hb] at hbound
    obtain ⟨hnone, hadded⟩ := Bool.and_eq_true_iff.1 hbound
    cases hp : o.prepare none [] (callWithHeader "Content-Type" "text/markdown") with
    | error f =>
      rw [hp] at hprepared
      cases hprepared
    | ok r =>
      have hl : lastOf? (callWithHeader "Content-Type" "text/markdown").ownHeaders "content-type" =
        some ("Content-Type", .str "text/markdown") := rfl
      refine ⟨r, rfl, (Operation.sends_own_iff hl hb hp (by decide) Kind.noConfusion ?_).2 ?_ ?_⟩
      · exact fun h => Operation.not_setsType hbody bound h.2
      · exact fun _ => of_decide_eq_true hadded
      · intro hm
        rw [List.isEmpty_iff.1 hnone] at hm
        cases hm

/-- A type in other letters than usual gives way to the declared one. -/
theorem Operation.not_sends_own_smallLetters : ∃ api d, ∃ o ∈ api.operations,
    (Api.compile (oneBody "text/plain") .default .null).run .start = (.ok api, d) ∧
      (∀ bound, ¬ o.SetsType bound) ∧
      lastOf? (callWithHeader "content-type" "text/markdown").ownHeaders "content-type" =
        some ("content-type", .str "text/markdown") ∧
      ∃ r, o.prepare none [] (callWithHeader "content-type" "text/markdown") = .ok r ∧
        ¬ r.Sends "content-type" (.str "text/markdown") := by
  obtain ⟨api, d, hr⟩ := Compile.exists_run (c := .start)
    (x := Api.compile (oneBody "text/plain") .default .null) (by decide +kernel)
  have hall : ((Api.compile (oneBody "text/plain") .default .null).run .start).1.toOption.any
      (fun api => api.operations.any fun o => o.body.any (fun b => b.encoding.isNone) &&
        (o.prepare none [] (callWithHeader "content-type" "text/markdown")).toOption.any fun r =>
          decide ((headersFor r.options .builtIn (.str r.accept)).filterMap
            (fun e => e.2.str?) = ["*/*", "text/plain"])) = true := by
    decide +kernel
  rw [hr] at hall
  obtain ⟨o, ho, hall⟩ := List.any_eq_true.1 hall
  obtain ⟨hbody, hprepared⟩ := Bool.and_eq_true_iff.1 hall
  refine ⟨api, d, o, ho, hr, Operation.not_setsType hbody, rfl, ?_⟩
  cases hp : o.prepare none [] (callWithHeader "content-type" "text/markdown") with
  | error f =>
    rw [hp] at hprepared
    cases hprepared
  | ok r =>
    rw [hp] at hprepared
    refine ⟨r, rfl, fun hs => ?_⟩
    obtain ⟨s, hs⟩ := hs .builtIn
    obtain ⟨hm, -⟩ := List.mem_filter.1 (hs ▸ List.mem_cons_self)
    have hvalue : "text/markdown" ∈ (headersFor r.options .builtIn (.str r.accept)).filterMap
        fun e => e.2.str? := List.mem_filterMap.2 ⟨_, hm, rfl⟩
    rw [of_decide_eq_true hprepared] at hvalue
    exact absurd hvalue (by decide)

end OpenApi
