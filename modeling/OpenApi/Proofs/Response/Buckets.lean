import OpenApi.Proofs.Codec.Accepts
import OpenApi.Proofs.Codec.Notation
import OpenApi.Proofs.Codec.Spelling
import OpenApi.Proofs.Compilation.Runs
import OpenApi.Response
/-! # Buckets of responses

A bucket tells codecs apart by their notation, and of its codecs those with a shorter notation come
first. So responses compile only if all their codecs have one, and the notation of what a bucket becomes
depends on the notations of its codecs only. What it accepts depends on the first codec of each notation. -/
namespace OpenApi.Response

open Codec (describe spelling)

variable {document : Value} {responses : Entries Key Value}

/-- The codecs of the responses with content, each with the code. -/
def bodyCodecs (document : Value) (responses : Entries Key Value) :
    Compile (List (String × Codec)) :=
  (responses.filter fun e => e.1.text != noContent).mapM fun e =>
    return (e.1.text, ← bodyCodec document e.2)

def addSpelled (bucket : List Codec) (c : Codec) : List Codec :=
  if (bucket.map spelling).contains c.spelling then bucket else bucket ++ [c]

def bucket (codecs : List Codec) : List Codec :=
  (codecs.foldl addSpelled []).mergeSort fun c d => c.spelling.length ≤ d.spelling.length

def codecsOf (expected : Bool) (bodies : List (String × Codec)) : List Codec :=
  (bodies.filter fun b => isExpected b.1 == expected).map Prod.snd

def Codecs.ofBodies (bodies : List (String × Codec)) : Codecs :=
  ⟨collapse (bucket (codecsOf true bodies)), collapse (bucket (codecsOf false bodies))⟩

section Noted

variable {bucket cs : List Codec} {c : Codec}

theorem addNew_eq (hb : ∀ b ∈ bucket, b.Noted) (hc : c.Noted) :
    addNew bucket c = .ok (addSpelled bucket c) := by
  have hknown : (bucket.anyM fun b => return (← b.describe) == (← c.describe)) =
      .ok ((bucket.map spelling).contains c.spelling) := by
    induction bucket with
    | nil => rfl
    | cons b rest ih =>
      obtain ⟨hfirst, hrest⟩ := List.forall_mem_cons.mp hb
      rw [List.anyM, hfirst.describe_eq, hc.describe_eq, List.map_cons, List.contains_cons,
        BEq.comm (a := c.spelling)]
      cases hsame : b.spelling == c.spelling with
      | true => simp [hsame, bind, Except.bind, pure, Except.pure]
      | false =>
        have hrest := ih hrest
        rw [hc.describe_eq] at hrest
        simpa [hsame, bind, Except.bind, pure, Except.pure] using hrest
  rw [addNew, hknown]
  rfl

/-- Whatever a codec is compared with, both have a notation. -/
theorem noted_of_addNew (h : addNew bucket c = .ok cs) (hcs : ∀ b ∈ cs, b.Noted) :
    (∀ b ∈ bucket, b.Noted) ∧ c.Noted := by
  obtain ⟨known, hknown, h⟩ := bind_eq_ok.mp h
  cases known with
  | false =>
    cases h
    obtain ⟨hb, hc⟩ := List.forall_mem_append.mp hcs
    exact ⟨hb, hc c (List.mem_singleton_self c)⟩
  | true =>
    cases h
    refine ⟨hcs, ?_⟩
    cases bucket with
    | nil => cases hknown
    | cons b rest =>
      rw [List.anyM] at hknown
      obtain ⟨same, hsame, -⟩ := bind_eq_ok.mp hknown
      obtain ⟨_, -, hsame⟩ := bind_eq_ok.mp hsame
      obtain ⟨text, htext, -⟩ := bind_eq_ok.mp hsame
      exact ⟨text, htext⟩

theorem noted_addSpelled (hb : ∀ b ∈ bucket, b.Noted) (hc : c.Noted) :
    ∀ b ∈ addSpelled bucket c, b.Noted := by
  unfold addSpelled
  split
  · exact hb
  · exact List.forall_mem_append.mpr ⟨hb, List.forall_mem_singleton.mpr hc⟩

theorem sorted_eq_ok : sorted bucket = .ok cs ↔ (∀ b ∈ bucket, b.Noted) ∧
    bucket.mergeSort (fun c d => c.spelling.length ≤ d.spelling.length) = cs := by
  have hnoted : (∀ b ∈ bucket, b.Noted) → sorted bucket =
      .ok (bucket.mergeSort fun c d => c.spelling.length ≤ d.spelling.length) := by
    intro hb
    have hnotes : (bucket.mapM fun c => return (c, ← c.describe) :
        Except WriteError (List (Codec × String))) = .ok (bucket.map fun c => (c, c.spelling)) := by
      induction bucket with
      | nil => rfl
      | cons b rest ih =>
        obtain ⟨hfirst, hrest⟩ := List.forall_mem_cons.mp hb
        rw [List.mapM_cons, ih hrest, hfirst.describe_eq]
        rfl
    have hsort := List.map_mergeSort (l := bucket) (f := fun c => (c, c.spelling))
      (r := fun c d => c.spelling.length ≤ d.spelling.length)
      (s := fun a b => a.2.length ≤ b.2.length) fun _ _ _ _ => rfl
    rw [sorted, hnotes]
    show Except.ok (List.map Prod.fst _) = _
    rw [← hsort, List.map_map]
    exact congrArg Except.ok (List.map_id _)
  constructor
  · intro h
    obtain ⟨notes, hnotes, -⟩ := bind_eq_ok.mp h
    have hb : ∀ b ∈ bucket, b.Noted := by
      intro b hmem
      obtain ⟨note, -, hnote⟩ := (partners (mapM_eq_ok hnotes)).1 b hmem
      obtain ⟨text, htext, -⟩ := bind_eq_ok.mp hnote
      exact ⟨text, htext⟩
    rw [hnoted hb] at h
    exact ⟨hb, Except.ok.inj h⟩
  · rintro ⟨hb, rfl⟩
    exact hnoted hb

end Noted

namespace Buckets

def Noted (b : Buckets) : Prop := (∀ c ∈ b.expected, c.Noted) ∧ ∀ c ∈ b.errors, c.Noted

theorem noted_empty : (⟨[], []⟩ : Buckets).Noted :=
  ⟨List.forall_mem_nil _, List.forall_mem_nil _⟩

def put (b : Buckets) (body : String × Codec) : Buckets :=
  if isExpected body.1 then { b with expected := addSpelled b.expected body.2 }
  else { b with errors := addSpelled b.errors body.2 }

variable {b b' : Buckets} {code : String} {c : Codec}

theorem add_eq_ok : b.add code c = .ok b' ∧ b'.Noted ↔
    b.Noted ∧ c.Noted ∧ b.put (code, c) = b' := by
  unfold add put
  cases isExpected code with
  | true =>
    constructor
    · rintro ⟨h, hnoted⟩
      obtain ⟨cs, hcs, h⟩ := bind_eq_ok.mp h
      cases h
      obtain ⟨hb, hc⟩ := noted_of_addNew hcs hnoted.1
      rw [addNew_eq hb hc] at hcs
      exact ⟨⟨hb, hnoted.2⟩, hc, by rw [if_pos rfl, Except.ok.inj hcs]⟩
    · rintro ⟨hb, hc, rfl⟩
      refine ⟨?_, noted_addSpelled hb.1 hc, hb.2⟩
      rw [if_pos rfl, addNew_eq hb.1 hc]
      rfl
  | false =>
    constructor
    · rintro ⟨h, hnoted⟩
      obtain ⟨cs, hcs, h⟩ := bind_eq_ok.mp h
      cases h
      obtain ⟨hb, hc⟩ := noted_of_addNew hcs hnoted.2
      rw [addNew_eq hb hc] at hcs
      exact ⟨⟨hnoted.1, hb⟩, hc, by rw [if_neg nofun, Except.ok.inj hcs]⟩
    · rintro ⟨hb, hc, rfl⟩
      refine ⟨?_, hb.1, noted_addSpelled hb.2 hc⟩
      rw [if_neg nofun, addNew_eq hb.2 hc]
      rfl

theorem foldl_put (bodies : List (String × Codec)) : bodies.foldl put b =
    ⟨(codecsOf true bodies).foldl addSpelled b.expected,
      (codecsOf false bodies).foldl addSpelled b.errors⟩ := by
  induction bodies generalizing b with
  | nil => rfl
  | cons body rest ih =>
    rw [List.foldl_cons, ih, put]
    cases hcode : isExpected body.1 with
    | true => simp [codecsOf, hcode]
    | false => simp [codecsOf, hcode]

theorem codecs_eq_ok {codecs : Codecs} : b.codecs = .ok codecs ↔ b.Noted ∧
    (⟨collapse (b.expected.mergeSort fun c d => c.spelling.length ≤ d.spelling.length),
      collapse (b.errors.mergeSort fun c d => c.spelling.length ≤ d.spelling.length)⟩ : Codecs) =
        codecs := by
  constructor
  · intro h
    obtain ⟨expected, hexpected, h⟩ := bind_eq_ok.mp h
    obtain ⟨errors, herrors, h⟩ := bind_eq_ok.mp h
    obtain ⟨hb, rfl⟩ := sorted_eq_ok.mp hexpected
    obtain ⟨hb', rfl⟩ := sorted_eq_ok.mp herrors
    exact ⟨⟨hb, hb'⟩, Except.ok.inj h⟩
  · rintro ⟨hb, rfl⟩
    exact bind_eq_ok.mpr ⟨_, sorted_eq_ok.mpr ⟨hb.1, rfl⟩,
      bind_eq_ok.mpr ⟨_, sorted_eq_ok.mpr ⟨hb.2, rfl⟩, rfl⟩⟩

end Buckets

section Runs

variable {c d : Compilation} {b b' : Buckets} {codecs : Codecs}

theorem run_addBody_eq_ok {e : Key × Value} : (addBody document b e).run c = (.ok b', d) ∧ b'.Noted ↔
    ∃ codec, (bodyCodec document e.2).run c = (.ok codec, d) ∧ b.Noted ∧ codec.Noted ∧
      b.put (e.1.text, codec) = b' := by
  unfold addBody
  rw [Compile.run_bind_eq_ok]
  constructor
  · rintro ⟨⟨codec, _, hcodec, hadd⟩, hnoted⟩
    obtain ⟨hok, rfl⟩ := Compile.run_ofExcept_eq_ok.mp hadd
    exact ⟨codec, hcodec, Buckets.add_eq_ok.mp ⟨mapError_eq_ok.mp hok, hnoted⟩⟩
  · rintro ⟨codec, hcodec, hput⟩
    obtain ⟨hadd, hnoted⟩ := Buckets.add_eq_ok.mpr hput
    exact ⟨⟨codec, d, hcodec, Compile.run_ofExcept_eq_ok.mpr ⟨mapError_eq_ok.mpr hadd, rfl⟩⟩, hnoted⟩

theorem run_addBodies_eq_ok {es : Entries Key Value} :
    (es.foldlM (addBody document) b).run c = (.ok b', d) ∧ b'.Noted ↔
      ∃ bodies, (es.mapM fun e : Key × Value =>
          return (e.1.text, ← bodyCodec document e.2)).run c = (.ok bodies, d) ∧
        b.Noted ∧ (∀ body ∈ bodies, body.2.Noted) ∧ bodies.foldl Buckets.put b = b' := by
  induction es generalizing b c with
  | nil =>
    constructor
    · rintro ⟨h, hnoted⟩
      cases h
      exact ⟨[], rfl, hnoted, nofun, rfl⟩
    · rintro ⟨bodies, h, hnoted, -, rfl⟩
      cases h
      exact ⟨rfl, hnoted⟩
  | cons e es ih =>
    rw [List.foldlM_cons, List.mapM_cons, Compile.run_bind_eq_ok]
    constructor
    · rintro ⟨⟨b₁, c₁, hfirst, hrest⟩, hnoted⟩
      obtain ⟨bodies, hbodies, hb₁, hall, rfl⟩ := ih.mp ⟨hrest, hnoted⟩
      obtain ⟨codec, hcodec, hb, hc, rfl⟩ := run_addBody_eq_ok.mp ⟨hfirst, hb₁⟩
      refine ⟨(e.1.text, codec) :: bodies, ?_, hb, List.forall_mem_cons.mpr ⟨hc, hall⟩, rfl⟩
      rw [Compile.run_bind_eq_ok]
      refine ⟨_, c₁, Compile.run_bind_eq_ok.mpr ⟨codec, c₁, hcodec, rfl⟩, ?_⟩
      exact Compile.run_bind_eq_ok.mpr ⟨bodies, d, hbodies, rfl⟩
    · rintro ⟨bodies, hbodies, hb, hall, rfl⟩
      obtain ⟨body, c₁, hfirst, hrest⟩ := Compile.run_bind_eq_ok.mp hbodies
      obtain ⟨codec, _, hcodec, hpair⟩ := Compile.run_bind_eq_ok.mp hfirst
      obtain ⟨more, _, hmore, hlist⟩ := Compile.run_bind_eq_ok.mp hrest
      cases hpair
      cases hlist
      obtain ⟨hc, hall⟩ := List.forall_mem_cons.mp hall
      obtain ⟨hadd, hb₁⟩ := run_addBody_eq_ok.mpr ⟨codec, hcodec, hb, hc, rfl⟩
      obtain ⟨hadds, hnoted⟩ := ih.mpr ⟨more, hmore, hb₁, hall, rfl⟩
      exact ⟨⟨_, _, hadd, hadds⟩, hnoted⟩

/-- Responses compile if their bodies do and all codecs of these have a notation. -/
theorem run_compile_eq_ok : (compile document responses).run c = (.ok codecs, d) ↔
    ∃ bodies, (bodyCodecs document responses).run c = (.ok bodies, d) ∧
      (∀ body ∈ bodies, body.2.Noted) ∧ Codecs.ofBodies bodies = codecs := by
  unfold compile
  rw [Compile.run_bind_eq_ok]
  constructor
  · rintro ⟨b, _, hadds, hcodecs⟩
    obtain ⟨hok, rfl⟩ := Compile.run_ofExcept_eq_ok.mp hcodecs
    obtain ⟨hnoted, rfl⟩ := Buckets.codecs_eq_ok.mp (mapError_eq_ok.mp hok)
    obtain ⟨bodies, hbodies, -, hall, rfl⟩ := run_addBodies_eq_ok.mp ⟨hadds, hnoted⟩
    refine ⟨bodies, hbodies, hall, ?_⟩
    rw [Buckets.foldl_put]
    rfl
  · rintro ⟨bodies, hbodies, hall, rfl⟩
    obtain ⟨hadds, hnoted⟩ := run_addBodies_eq_ok.mpr ⟨bodies, hbodies, Buckets.noted_empty, hall, rfl⟩
    refine ⟨_, d, hadds, Compile.run_ofExcept_eq_ok.mpr ⟨mapError_eq_ok.mpr ?_, rfl⟩⟩
    refine Buckets.codecs_eq_ok.mpr ⟨hnoted, ?_⟩
    rw [Buckets.foldl_put]
    rfl

end Runs

section Leading

variable {codecs : List Codec} {c : Codec}

/-- The codec is in the list, and none before it has its notation. -/
def Leading (codecs : List Codec) (c : Codec) : Prop :=
  ∃ before after, codecs = before ++ c :: after ∧ ∀ b ∈ before, b.describe ≠ c.describe

theorem Leading.mem (h : Leading codecs c) : c ∈ codecs := by
  obtain ⟨before, after, rfl, -⟩ := h
  simp

theorem leading_cons {d : Codec} :
    Leading (d :: codecs) c ↔ c = d ∨ (Leading codecs c ∧ d.describe ≠ c.describe) := by
  constructor
  · rintro ⟨before, after, he, hnew⟩
    cases before with
    | nil => exact Or.inl (List.cons.inj he).1.symm
    | cons b before =>
      obtain ⟨rfl, hrest⟩ := List.cons.inj he
      obtain ⟨hb, hbefore⟩ := List.forall_mem_cons.mp hnew
      exact Or.inr ⟨⟨before, after, hrest, hbefore⟩, hb⟩
  · rintro (rfl | ⟨⟨before, after, rfl, hnew⟩, hd⟩)
    · exact ⟨[], codecs, rfl, fun b hb => absurd hb List.not_mem_nil⟩
    · exact ⟨d :: before, after, rfl, List.forall_mem_cons.mpr ⟨hd, hnew⟩⟩

theorem exists_leading (h : c ∈ codecs) :
    ∃ d, Leading codecs d ∧ d.describe = c.describe := by
  induction codecs with
  | nil => exact absurd h List.not_mem_nil
  | cons b rest ih =>
    by_cases hb : b.describe = c.describe
    · exact ⟨b, leading_cons.mpr (Or.inl rfl), hb⟩
    · have hc : c ∈ rest := by
        rcases List.mem_cons.mp h with rfl | hc
        · exact absurd rfl hb
        · exact hc
      obtain ⟨d, hd, hdc⟩ := ih hc
      exact ⟨d, leading_cons.mpr (Or.inr ⟨hd, fun hbd => hb (hbd.trans hdc)⟩), hdc⟩

theorem mem_addSpelled {acc : List Codec} {b : Codec} :
    c ∈ addSpelled acc b ↔ c ∈ acc ∨ (c = b ∧ b.spelling ∉ acc.map spelling) := by
  unfold addSpelled
  by_cases hb : b.spelling ∈ acc.map spelling
  · rw [if_pos (List.contains_iff_mem.mpr hb)]
    simp only [hb, not_true_eq_false, and_false, or_false]
  · rw [if_neg fun h => hb (List.contains_iff_mem.mp h), List.mem_append, List.mem_singleton]
    simp only [hb, not_false_eq_true, and_true]

/-- A codec hides another one from here on if it is spelled alike, whether it is added or not. -/
theorem spelling_notMem_addSpelled {acc : List Codec} {b : Codec} :
    c.spelling ∉ (addSpelled acc b).map spelling ↔
      c.spelling ∉ acc.map spelling ∧ b.spelling ≠ c.spelling := by
  unfold addSpelled
  split
  · rename_i hb
    have hb := List.contains_iff_mem.mp hb
    exact ⟨fun hc => ⟨hc, fun he => hc (he ▸ hb)⟩, And.left⟩
  · rw [List.map_append, List.mem_append, List.map_singleton, List.mem_singleton, not_or, ne_comm]

theorem mem_foldl_addSpelled (hnoted : ∀ b ∈ codecs, b.Noted) {acc : List Codec} :
    c ∈ codecs.foldl addSpelled acc ↔
      c ∈ acc ∨ (Leading codecs c ∧ c.spelling ∉ acc.map spelling) := by
  induction codecs generalizing acc with
  | nil =>
    refine ⟨Or.inl, fun h => h.resolve_right ?_⟩
    rintro ⟨hlead, -⟩
    exact absurd hlead.mem List.not_mem_nil
  | cons b rest ih =>
    obtain ⟨hb, hrest⟩ := List.forall_mem_cons.mp hnoted
    have htexts : Leading rest c → (b.describe ≠ c.describe ↔ b.spelling ≠ c.spelling) :=
      fun hlead => not_congr (Codec.describe_eq_iff hb (hrest c hlead.mem))
    rw [List.foldl_cons, ih hrest, mem_addSpelled, spelling_notMem_addSpelled, leading_cons]
    constructor
    · rintro ((hacc | ⟨rfl, hnew⟩) | ⟨hlead, hnew, hne⟩)
      · exact Or.inl hacc
      · exact Or.inr ⟨Or.inl rfl, hnew⟩
      · exact Or.inr ⟨Or.inr ⟨hlead, (htexts hlead).mpr hne⟩, hnew⟩
    · rintro (hacc | ⟨rfl | ⟨hlead, hne⟩, hnew⟩)
      · exact Or.inl (Or.inl hacc)
      · exact Or.inl (Or.inr ⟨rfl, hnew⟩)
      · exact Or.inr ⟨hlead, hnew, (htexts hlead).mp hne⟩

theorem mem_bucket_iff (hnoted : ∀ b ∈ codecs, b.Noted) :
    c ∈ bucket codecs ↔ Leading codecs c := by
  rw [bucket, List.mem_mergeSort, mem_foldl_addSpelled hnoted]
  refine ⟨fun h => ?_, fun h => Or.inr ⟨h, List.not_mem_nil⟩⟩
  rcases h with h | h
  · exact absurd h List.not_mem_nil
  · exact h.1

theorem accepts_collapse {raw : Value} : (collapse codecs).Accepts raw ↔
    ((codecs = [] ∧ raw.kind = .null) ∨ ∃ c ∈ codecs, c.Accepts raw) ∧
      ¬ (collapse codecs).BreaksOff raw := by
  have hends : (collapse codecs).Accepts raw → ¬ (collapse codecs).BreaksOff raw :=
    Decoded.Succeeds.not_breaksOff
  match codecs with
  | [] =>
    have hnull : Codec.null.Accepts raw ↔ raw.kind = .null := by
      unfold Codec.Accepts Decoded.Succeeds
      rw [Codec.decode, guarded]
      by_cases h : raw.kind = .null
      · simp [h]
      · simp [h]
    rw [← and_iff_left_of_imp hends, collapse, Codec.accepts_optional, hnull]
    simp
  | [c] =>
    rw [← and_iff_left_of_imp hends]
    simp [collapse]
  | c :: c' :: rest =>
    change (Codec.oneOf (c :: c' :: rest)).Accepts raw ↔
      _ ∧ ¬ (Codec.oneOf (c :: c' :: rest)).BreaksOff raw
    rw [Codec.accepts_oneOf]
    simp

/-- A bucket accepts what the first codec of some notation accepts, unless it breaks off. An empty one
accepts null. -/
theorem accepts_collapse_bucket (hnoted : ∀ b ∈ codecs, b.Noted) {raw : Value} :
    (collapse (bucket codecs)).Accepts raw ↔
      ((codecs = [] ∧ raw.kind = .null) ∨ ∃ c, Leading codecs c ∧ c.Accepts raw) ∧
        ¬ (collapse (bucket codecs)).BreaksOff raw := by
  have hempty : bucket codecs = [] ↔ codecs = [] := by
    constructor
    · intro h
      refine List.eq_nil_iff_forall_not_mem.mpr fun c hc => ?_
      obtain ⟨d, hd, -⟩ := exists_leading hc
      rw [← mem_bucket_iff hnoted, h] at hd
      exact absurd hd List.not_mem_nil
    · rintro rfl
      simp [bucket]
  rw [accepts_collapse, hempty]
  simp only [mem_bucket_iff hnoted]

end Leading

section Alike

variable {cs ds : List Codec} {as bs : List (String × Codec)}

theorem map_describe (h : ∀ c ∈ cs, c.Noted) : cs.map describe = (cs.map spelling).map .ok := by
  rw [List.map_map]
  exact List.map_congr_left fun c hc => (h c hc).describe_eq

theorem noted_of_map_describe (hcs : ∀ c ∈ cs, c.Noted) (h : cs.map describe = ds.map describe) :
    ∀ d ∈ ds, d.Noted := by
  intro d hd
  have hmem : d.describe ∈ cs.map describe := h ▸ List.mem_map_of_mem hd
  obtain ⟨c, hc, hsame⟩ := List.mem_map.mp hmem
  obtain ⟨text, htext⟩ := hcs c hc
  exact ⟨text, hsame ▸ htext⟩

def addText (texts : List String) (s : String) : List String :=
  if texts.contains s then texts else texts ++ [s]

theorem map_foldl_addSpelled (bucket codecs : List Codec) :
    (codecs.foldl addSpelled bucket).map spelling =
      (codecs.map spelling).foldl addText (bucket.map spelling) := by
  induction codecs generalizing bucket with
  | nil => rfl
  | cons c rest ih =>
    have hadd : (addSpelled bucket c).map spelling = addText (bucket.map spelling) c.spelling := by
      unfold addSpelled addText
      split
      · rfl
      · rw [List.map_append]
        rfl
    rw [List.foldl_cons, ih, hadd, List.map_cons, List.foldl_cons]

theorem map_spelling_bucket (codecs : List Codec) : (bucket codecs).map spelling =
    ((codecs.map spelling).foldl addText []).mergeSort fun s t => s.length ≤ t.length := by
  have hsort := List.map_mergeSort (l := codecs.foldl addSpelled []) (f := spelling)
    (r := fun c d => c.spelling.length ≤ d.spelling.length)
    (s := fun s t => s.length ≤ t.length) fun _ _ _ _ => rfl
  rw [bucket, hsort, map_foldl_addSpelled]
  rfl

theorem map_describe_bucket (hcs : ∀ c ∈ cs, c.Noted) (h : cs.map describe = ds.map describe) :
    (bucket cs).map describe = (bucket ds).map describe := by
  have hds := noted_of_map_describe hcs h
  have hspelled : cs.map spelling = ds.map spelling := by
    rw [map_describe hcs, map_describe hds] at h
    exact List.map_injective_iff.mpr (fun _ _ => Except.ok.inj) h
  rw [map_describe fun c hc => hcs c ((mem_bucket_iff hcs).mp hc).mem,
    map_describe fun d hd => hds d ((mem_bucket_iff hds).mp hd).mem,
    map_spelling_bucket, map_spelling_bucket, hspelled]

theorem describe_collapse (h : cs.map describe = ds.map describe) :
    (collapse cs).describe = (collapse ds).describe := by
  match cs, ds with
  | [], [] => rfl
  | [_], [_] => exact (List.cons.inj h).1
  | c :: c' :: cs, d :: d' :: ds =>
    change (Codec.oneOf (c :: c' :: cs)).describe = (Codec.oneOf (d :: d' :: ds)).describe
    rw [describe, describe, Codec.describeAll_eq h]
  | [], _ :: _ | _ :: _, [] => cases h
  | [_], _ :: _ :: _ | _ :: _ :: _, [_] => simp at h

def noted (body : String × Codec) : String × Except WriteError String := (body.1, body.2.describe)

theorem map_describe_codecsOf (expected : Bool) (bodies : List (String × Codec)) :
    (codecsOf expected bodies).map describe =
      ((bodies.map noted).filter fun n => isExpected n.1 == expected).map Prod.snd := by
  rw [codecsOf, List.filter_map, List.map_map, List.map_map]
  rfl

/-- The notation of what a bucket becomes depends on the notations of its codecs only. -/
theorem Codecs.describe_ofBodies (has : ∀ body ∈ as, body.2.Noted) (h : as.map noted = bs.map noted) :
    (Codecs.ofBodies as).expected.describe = (Codecs.ofBodies bs).expected.describe ∧
      (Codecs.ofBodies as).error.describe = (Codecs.ofBodies bs).error.describe := by
  have hbucket : ∀ expected, (collapse (bucket (codecsOf expected as))).describe =
      (collapse (bucket (codecsOf expected bs))).describe := by
    intro expected
    refine describe_collapse (map_describe_bucket (fun c hc => ?_) ?_)
    · obtain ⟨body, hbody, rfl⟩ := List.mem_map.mp hc
      exact has body (List.mem_filter.mp hbody).1
    · rw [map_describe_codecsOf, map_describe_codecsOf, h]
  exact ⟨hbucket true, hbucket false⟩

end Alike

end OpenApi.Response
