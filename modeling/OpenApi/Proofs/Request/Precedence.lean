import OpenApi.Proofs.Request.Headers
/-! # Which headers are sent

Names of headers are the same in any letter case. Each name is decided by the last header given under
it: the accepted type comes first, then the defaults, then the headers of the call. If the one that
decides is null, nothing is sent under the name. A token and the type of the body are added where
nothing is sent under their names. -/
namespace OpenApi.Request

/-- All headers given for a request, one that counts more behind one that counts less. -/
def given (o : CallOptions) (d : Defaults) (accept : Value) : Headers :=
  ("Accept", accept) :: (Entries.mapValues .str d.headers ++ o.headers)

/-- The header is the last one given under its name, and it is not null. -/
def Decides (headers : Headers) (e : String × Value) : Prop :=
  lastOf? headers e.1 = some e ∧ e.2.kind ≠ .null

def LeavesOpen (headers : Headers) (name : String) : Prop :=
  ∀ e, Decides headers e → sameName e.1 name = false

def Distinct (headers : Headers) : Prop := headers.Pairwise fun a b => sameName a.1 b.1 = false

theorem sameName_refl (name : String) : sameName name name = true := sameName_iff.2 rfl

/-- A step of the merge: what had the name is taken away before the header is put behind. -/
theorem Distinct.setHeader {headers : Headers} (h : Distinct headers) (e : String × Value) :
    Distinct (setHeader headers e) := by
  refine List.pairwise_append.2 ⟨h.filter _, List.pairwise_singleton _ _, ?_⟩
  intro a ha b hb
  rw [List.mem_singleton.1 hb]
  obtain ⟨-, hother⟩ := List.mem_filter.1 ha
  simpa using hother

theorem Distinct.setHeaders {headers : Headers} (h : Distinct headers) (es : Headers) :
    Distinct (es.foldl Request.setHeader headers) := by
  induction es generalizing headers with
  | nil => exact h
  | cons e es ih =>
    rw [List.foldl_cons]
    exact ih (h.setHeader e)

theorem distinct_mergeHeaders (accept : Value) (sources : List Headers) :
    Distinct (mergeHeaders accept sources) := by
  have hstart : Distinct [("Accept", accept)] := List.pairwise_singleton _ _
  exact (hstart.setHeaders sources.flatten).filter _

theorem Distinct.append {first second : Headers} (hfirst : Distinct first) (hsecond : Distinct second)
    (h : ∀ e ∈ second, hasHeader first e.1 = false) : Distinct (first ++ second) := by
  refine List.pairwise_append.2 ⟨hfirst, hsecond, ?_⟩
  intro a ha b hb
  have hnot := List.any_eq_false.1 (h b hb) a ha
  simpa using hnot

section Merged

variable {accept : Value} {sources : List Headers}

theorem mem_mergeHeaders {e : String × Value} : e ∈ mergeHeaders accept sources ↔
    Decides (("Accept", accept) :: sources.flatten) e := by
  have hself : e ∈ mergeHeaders accept sources ↔
      e ∈ (mergeHeaders accept sources).filter fun g => sameName g.1 e.1 := by
    rw [List.mem_filter]
    exact ⟨fun h => ⟨h, sameName_refl e.1⟩, fun h => h.1⟩
  rw [hself, filter_mergeHeaders, Option.mem_toList, Option.filter_eq_some_iff, decide_eq_true_eq]
  rfl

theorem hasHeader_mergeHeaders {name : String} : hasHeader (mergeHeaders accept sources) name = false ↔
    LeavesOpen (("Accept", accept) :: sources.flatten) name := by
  rw [hasHeader, List.any_eq_false]
  constructor
  · intro h e he
    exact Bool.eq_false_iff.2 (h e (mem_mergeHeaders.2 he))
  · intro h e he
    exact Bool.eq_false_iff.1 (h e (mem_mergeHeaders.1 he))

end Merged

theorem distinct_tokenHeader (d : Defaults) (merged : Headers) : Distinct (tokenHeader d merged) := by
  unfold tokenHeader
  split
  · split
    · exact List.Pairwise.nil
    · exact List.pairwise_singleton _ _
  · exact List.Pairwise.nil

theorem distinct_typeHeader (o : CallOptions) (merged : Headers) : Distinct (typeHeader o merged) := by
  unfold typeHeader
  split
  · exact List.pairwise_singleton _ _
  · exact List.Pairwise.nil

theorem distinct_headersFor (o : CallOptions) (d : Defaults) (accept : Value) :
    Distinct (headersFor o d accept) := by
  rw [headersFor_eq]
  generalize hmerged :
    mergeHeaders accept [Entries.mapValues .str d.headers, o.headers] = merged
  have hd : Distinct merged := hmerged ▸ distinct_mergeHeaders accept _
  refine (hd.append (distinct_tokenHeader d merged) ?_).append (distinct_typeHeader o merged) ?_
  · intro e he
    obtain ⟨t, -, -, hnot, rfl⟩ := mem_tokenHeader.1 he
    exact hnot
  · intro e he
    obtain ⟨-, -, hnot, rfl⟩ := mem_typeHeader.1 he
    have htoken : hasHeader (tokenHeader d merged) "Content-Type" = false := by
      refine List.any_eq_false.2 fun g hg => ?_
      obtain ⟨t, -, -, -, rfl⟩ := mem_tokenHeader.1 hg
      have hother : ¬ sameName "Authorization" "Content-Type" = true := by decide
      exact hother
    rw [hasHeader, List.any_append, Bool.or_eq_false_iff]
    exact ⟨hnot, htoken⟩

/-- The headers of a request have different names in any letter case, and they are these: the given ones
that decide; the token, if there is one that is not empty and nothing else is sent as `Authorization`; and
the type of a body that is not of several parts, if nothing else is sent as `Content-Type`. -/
theorem headersFor_decided (o : CallOptions) (d : Defaults) (accept : Value) :
    Distinct (headersFor o d accept) ∧ ∀ e, e ∈ headersFor o d accept ↔
      Decides (given o d accept) e ∨
      (∃ t, d.token = some t ∧ t ≠ "" ∧ LeavesOpen (given o d accept) "Authorization" ∧
        e = ("Authorization", .str ("Bearer " ++ t))) ∨
      (o.parts = none ∧ o.body.kind ≠ .null ∧ LeavesOpen (given o d accept) "Content-Type" ∧
        e = ("Content-Type", .str (inferType o.body))) := by
  refine ⟨distinct_headersFor o d accept, fun e => ?_⟩
  have hgiven : given o d accept = ("Accept", accept) ::
      [Entries.mapValues .str d.headers, o.headers].flatten := by
    simp [given]
  rw [headersFor_eq, List.mem_append, List.mem_append, mem_mergeHeaders, mem_tokenHeader,
    mem_typeHeader, hasHeader_mergeHeaders, hasHeader_mergeHeaders, hgiven, or_assoc]

end OpenApi.Request
