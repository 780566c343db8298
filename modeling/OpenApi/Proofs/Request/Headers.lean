import OpenApi.Proofs.Entries
import OpenApi.Request
import Mathlib.Data.List.Induction
/-! # The headers of a request

Of the headers with one name, in whatever letter case, the last one given is sent, and no other. -/
namespace OpenApi.Request

theorem sameName_iff {a b : String} : sameName a b = true ↔ Text.lower a = Text.lower b := beq_iff_eq

def lastOf? (headers : Headers) (name : String) : Option (String × Value) :=
  (headers.filter fun e => sameName e.1 name).getLast?

theorem lastOf?_append (first second : Headers) (name : String) :
    lastOf? (first ++ second) name = (lastOf? second name).or (lastOf? first name) := by
  rw [lastOf?, lastOf?, lastOf?, List.filter_append, List.getLast?_append]

theorem lastOf?_singleton (e : String × Value) (name : String) :
    lastOf? [e] name = if sameName e.1 name then some e else none := by
  by_cases h : sameName e.1 name = true <;> simp [lastOf?, h]

theorem mem_of_lastOf? {headers : Headers} {name : String} {e : String × Value}
    (h : lastOf? headers name = some e) : e ∈ headers ∧ sameName e.1 name = true :=
  List.mem_filter.1 (List.mem_of_getLast? h)

theorem lastOf?_eq_none_iff {headers : Headers} {name : String} :
    lastOf? headers name = none ↔ ∀ e ∈ headers, sameName e.1 name = false := by
  rw [lastOf?, List.getLast?_eq_none_iff, List.filter_eq_nil_iff]
  simp

theorem exists_lastOf? {headers : Headers} {k name : String} (hk : k ∈ Entries.keys headers)
    (hname : sameName k name = true) : ∃ e, lastOf? headers name = some e := by
  apply Option.ne_none_iff_exists'.1
  intro hnone
  obtain ⟨e, he, rfl⟩ := List.mem_map.1 hk
  rw [lastOf?_eq_none_iff.1 hnone e he] at hname
  cases hname

theorem lastOf?_map (headers : Headers) (f : String × Value → Value) (name : String) :
    lastOf? (headers.map fun e => (e.1, f e)) name =
      (lastOf? headers name).map fun e => (e.1, f e) := by
  rw [lastOf?, lastOf?, List.filter_map, List.getLast?_map]
  rfl

theorem lastOf?_filter_keys {headers : Headers} {name : String} {e : String × Value}
    (h : lastOf? headers name = some e) {p : String × Value → Bool} (he : p e = true) :
    lastOf? (headers.filter p) name = some e := by
  rw [lastOf?, List.getLast?_eq_some_iff] at h ⊢
  obtain ⟨before, hb⟩ := h
  refine ⟨before.filter p, ?_⟩
  have hcomm : (headers.filter p).filter (fun e => sameName e.1 name) =
      (headers.filter fun e => sameName e.1 name).filter p := by
    rw [List.filter_filter, List.filter_filter]
    exact List.filter_congr fun d _ => Bool.and_comm _ _
  rw [hcomm, hb, List.filter_append]
  simp [he]

/-- Setting headers leaves the last one of each name. -/
theorem filter_setHeaders (start headers : Headers) (name : String) :
    (headers.foldl setHeader start).filter (fun e => sameName e.1 name) =
      match lastOf? headers name with
      | some e => [e]
      | none => start.filter fun e => sameName e.1 name := by
  induction headers using List.reverseRecOn with
  | nil => rfl
  | append_singleton headers e ih =>
    rw [List.foldl_append, List.foldl_cons, List.foldl_nil, setHeader, List.filter_append,
      List.filter_filter, lastOf?_append, lastOf?_singleton]
    by_cases he : sameName e.1 name = true
    · -- what had this name before is taken away
      have hnone : (headers.foldl setHeader start).filter
          (fun g => sameName g.1 name && !sameName g.1 e.1) = [] := by
        refine List.filter_eq_nil_iff.2 fun g _ hg => ?_
        obtain ⟨hname, hother⟩ := Bool.and_eq_true_iff.1 hg
        rw [sameName_iff.2 ((sameName_iff.1 hname).trans (sameName_iff.1 he).symm)] at hother
        cases hother
      rw [hnone, if_pos he]
      simp [he]
    · have hsame : (headers.foldl setHeader start).filter
          (fun g => sameName g.1 name && !sameName g.1 e.1) =
            (headers.foldl setHeader start).filter fun g => sameName g.1 name := by
        refine List.filter_congr fun g _ => ?_
        by_cases hg : sameName g.1 name = true
        · have hother : sameName g.1 e.1 = false := by
            rw [← Bool.not_eq_true, sameName_iff]
            intro hge
            exact he (sameName_iff.2 (hge.symm.trans (sameName_iff.1 hg)))
          simp [hg, hother]
        · simp [hg]
      rw [hsame, ih, if_neg he]
      simp [he]

theorem filter_setHeaders_singleton (first : String × Value) (headers : Headers) (name : String) :
    (headers.foldl setHeader [first]).filter (fun e => sameName e.1 name) =
      (lastOf? (first :: headers) name).toList := by
  have hsplit : lastOf? (first :: headers) name =
      (lastOf? headers name).or (lastOf? [first] name) := lastOf?_append [first] headers name
  rw [filter_setHeaders, hsplit, lastOf?_singleton]
  cases lastOf? headers name with
  | some e => rfl
  | none => by_cases h : sameName first.1 name = true <;> simp [h]

/-- Of the headers with a name the last one given is kept, unless it is null. -/
theorem filter_mergeHeaders (accept : Value) (sources : List Headers) (name : String) :
    (mergeHeaders accept sources).filter (fun e => sameName e.1 name) =
      ((lastOf? (("Accept", accept) :: sources.flatten) name).filter
        fun e => e.2.kind ≠ .null).toList := by
  have hcomm : ∀ hs : Headers, (hs.filter fun e => e.2.kind ≠ .null).filter
      (fun e => sameName e.1 name) =
        (hs.filter fun e => sameName e.1 name).filter fun e => e.2.kind ≠ .null := by
    intro hs
    rw [List.filter_filter, List.filter_filter]
    exact List.filter_congr fun d _ => Bool.and_comm _ _
  rw [mergeHeaders, hcomm, filter_setHeaders_singleton]
  cases lastOf? (("Accept", accept) :: sources.flatten) name with
  | none => rfl
  | some e => by_cases hk : e.2.kind = .null <;> simp [Option.filter, hk]

theorem filter_mergeHeaders_of_own {accept : Value} {defaults own : Headers} {name : String}
    {e : String × Value} (h : lastOf? own name = some e) :
    (mergeHeaders accept [defaults, own]).filter (fun e => sameName e.1 name) =
      if e.2.kind = .null then [] else [e] := by
  have hlast : lastOf? (("Accept", accept) :: [defaults, own].flatten) name = some e := by
    have hsplit : ("Accept", accept) :: [defaults, own].flatten =
        (("Accept", accept) :: defaults) ++ own := by simp
    rw [hsplit, lastOf?_append, h, Option.some_or]
  rw [filter_mergeHeaders, hlast]
  by_cases hk : e.2.kind = .null <;> simp [Option.filter, hk]

theorem hasHeader_eq (headers : Headers) (name : String) :
    hasHeader headers name = !(headers.filter fun e => sameName e.1 name).isEmpty := by
  rw [hasHeader, Bool.eq_iff_iff, List.any_eq_true]
  simp

theorem hasHeader_congr (headers : Headers) {a b : String} (h : sameName a b = true) :
    hasHeader headers a = hasHeader headers b := by
  have heq : ∀ e : String × Value, sameName e.1 a = sameName e.1 b := by
    intro e
    rw [sameName, sameName, sameName_iff.1 h]
  simp only [hasHeader, heq]

theorem hasHeader_authorization (headers : Headers) :
    hasHeader headers "authorization" = hasHeader headers "Authorization" :=
  hasHeader_congr headers (by decide)

theorem hasHeader_contentType (headers : Headers) :
    hasHeader headers "content-type" = hasHeader headers "Content-Type" :=
  hasHeader_congr headers (by decide)

def tokenHeader (d : Defaults) (merged : Headers) : Headers :=
  match d.token.filter fun t => !t.isEmpty with
  | some t => if hasHeader merged "authorization" then [] else
    [("Authorization", .str ("Bearer " ++ t))]
  | none => []

def typeHeader (o : CallOptions) (merged : Headers) : Headers :=
  if o.parts.isNone && o.body.kind ≠ .null && !hasHeader merged "content-type" then
    [("Content-Type", .str (inferType o.body))]
  else []

theorem headersFor_eq (o : CallOptions) (d : Defaults) (accept : Value) : headersFor o d accept =
    mergeHeaders accept [Entries.mapValues .str d.headers, o.headers] ++
      tokenHeader d (mergeHeaders accept [Entries.mapValues .str d.headers, o.headers]) ++
      typeHeader o (mergeHeaders accept [Entries.mapValues .str d.headers, o.headers]) := rfl

theorem mem_tokenHeader {d : Defaults} {merged : Headers} {e : String × Value} :
    e ∈ tokenHeader d merged ↔ ∃ t, d.token = some t ∧ t ≠ "" ∧
      hasHeader merged "Authorization" = false ∧ e = ("Authorization", .str ("Bearer " ++ t)) := by
  unfold tokenHeader
  rw [hasHeader_authorization]
  split
  · next t ht =>
    obtain ⟨htoken, hne⟩ := Option.filter_eq_some_iff.1 ht
    have hne : t ≠ "" := by simpa using hne
    by_cases hhas : hasHeader merged "Authorization" = true
    · simp [hhas]
    · simp [hhas, htoken, hne]
  · next hnone =>
    constructor
    · intro h
      cases h
    · rintro ⟨t, htoken, hne, -, -⟩
      rw [htoken] at hnone
      simp [Option.filter, hne] at hnone

theorem mem_typeHeader {o : CallOptions} {merged : Headers} {e : String × Value} :
    e ∈ typeHeader o merged ↔ o.parts = none ∧ o.body.kind ≠ .null ∧
      hasHeader merged "Content-Type" = false ∧ e = ("Content-Type", .str (inferType o.body)) := by
  unfold typeHeader
  rw [hasHeader_contentType]
  split
  · next hc =>
    simp only [Bool.and_eq_true, Option.isNone_iff_eq_none, decide_eq_true_eq,
      Bool.not_eq_true'] at hc
    rw [List.mem_singleton]
    exact ⟨fun he => ⟨hc.1.1, hc.1.2, hc.2, he⟩, fun h => h.2.2.2⟩
  · next hc =>
    constructor
    · intro h
      cases h
    · rintro ⟨hparts, hbody, hhas, -⟩
      simp [hparts, hbody, hhas] at hc

end OpenApi.Request
