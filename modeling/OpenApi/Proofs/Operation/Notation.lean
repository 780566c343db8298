import OpenApi.Proofs.Compilation.Beside
import OpenApi.Proofs.Operation.Parameters
import OpenApi.Proofs.Response.Buckets
/-! # Operations of one notation

Two compilations side by side compile one declaration to two operations that differ in their codecs
only, and these have one notation. -/
namespace OpenApi

open Compile

namespace Parameter

/-- A parameter with the notation of its codec in place of the codec. -/
def noted (p : Parameter) : Parameter × Except WriteError String := ({ p with codec := .unknown }, p.codec.describe)

theorem noted_filterMap {ps qs : List (Option Parameter)}
    (h : List.Forall₂ (fun p q => p.map noted = q.map noted) ps qs) :
    (ps.filterMap id).map noted = (qs.filterMap id).map noted := by
  rw [List.map_filterMap, List.map_filterMap]
  induction h with
  | nil => rfl
  | @cons p q ps qs hpq _ ih =>
    rw [List.filterMap_cons, List.filterMap_cons, id, id, hpq, ih]

theorem noted_requiredFirst (ps : List Parameter) : (requiredFirst ps).map noted =
    ((ps.map noted).filter fun n => n.1.required).mergeSort
      fun m n => m.1.name.length ≤ n.1.name.length := by
  have hsort := List.map_mergeSort (l := ps.filter fun p => p.required) (f := noted)
    (r := fun p q => p.name.length ≤ q.name.length)
    (s := fun m n => m.1.name.length ≤ n.1.name.length) fun _ _ _ _ => rfl
  rw [requiredFirst, hsort, List.filter_map]
  rfl

theorem noted_optional (ps : List Parameter) :
    (optional ps).map noted = (ps.map noted).filter fun n => !n.1.required := by
  rw [optional, List.filter_map]
  rfl

theorem compile_shadows (document : Value) (arguments : Entries String String)
    (es : Entries Key Value) : Shadows document (fun p q => p.map noted = q.map noted)
      (compile document arguments es) (compile document arguments es) := by
  unfold compile
  cases Location.ofValue? (entry es "in" (.str "query")) with
  | none => exact shadows_pure rfl
  | some location =>
    refine shadows_bind_ofExcept fun name _ => shadows_bind_ofExcept fun formatter _ => ?_
    refine (compileSchema_shadows document _).bind fun c d hcd => ?_
    refine shadows_bind_ofExcept fun style _ => shadows_bind_ofExcept fun description _ => ?_
    refine shadows_pure ?_
    rw [Option.map_some, Option.map_some, noted, noted, hcd.noted]

theorem compileAll_shadows (document : Value) (objects : List Value) :
    Shadows document (fun ps qs => ps.map noted = qs.map noted) (compileAll document objects)
      (compileAll document objects) := by
  unfold compileAll
  refine shadows_bind_ofExcept fun objects _ => shadows_bind_ofExcept fun names _ => ?_
  refine (shadows_mapM fun es _ => compile_shadows document _ es).bind fun ps qs h => ?_
  exact shadows_pure (noted_filterMap h)

end Parameter

namespace Response

theorem bodyCodec_shadows (document response : Value) : Shadows document Codec.NotedAlike
    (bodyCodec document response) (bodyCodec document response) := by
  unfold bodyCodec
  refine shadows_bind_ofExcept fun content _ => ?_
  split
  · exact shadows_bind_ofExcept fun node _ => compileSchema_shadows document node
  · exact shadows_pure (Codec.congruence_notedAlike.refl _)

theorem bodyCodecs_shadows (document : Value) (responses : Entries Key Value) :
    Shadows document (fun as bs => as.map noted = bs.map noted) (bodyCodecs document responses)
      (bodyCodecs document responses) := by
  unfold bodyCodecs
  refine (shadows_mapM (R := fun a b => noted a = noted b) fun e _ => ?_).mono fun as bs h => ?_
  · refine (bodyCodec_shadows document e.2).bind fun c d hcd => shadows_pure ?_
    rw [noted, noted, hcd.noted]
  · rw [← List.forall₂_eq_eq_eq, List.forall₂_map_left_iff, List.forall₂_map_right_iff]
    exact h

theorem compile_shadows (document : Value) (responses : Entries Key Value) :
    Shadows document (fun k l => k.expected.describe = l.expected.describe ∧
        k.error.describe = l.error.describe)
      (compile document responses) (compile document responses) := by
  intro c e hbehind
  unfold EndsIn
  rcases hrun : (compile document responses).run e with ⟨_ | codecs, f⟩
  · trivial
  obtain ⟨bs, hbs, hnoted, rfl⟩ := run_compile_eq_ok.mp hrun
  obtain ⟨hef, hshadow⟩ := (endsIn_iff_of_run hbs).mp
    (bodyCodecs_shadows document responses c e hbehind)
  obtain ⟨as, d, has, hsame, hdf⟩ := hshadow.exists_run
  -- behind, the bodies have the notations that they have ahead, so they all have one
  have hnotedBehind : ∀ body ∈ as, body.2.Noted := by
    intro body hbody
    have hmem : noted body ∈ bs.map noted := hsame ▸ List.mem_map_of_mem hbody
    obtain ⟨ahead, hahead, hpair⟩ := List.mem_map.mp hmem
    obtain ⟨text, htext⟩ := hnoted ahead hahead
    exact ⟨text, (Prod.ext_iff.mp hpair).2.symm.trans htext⟩
  have hcompile := run_compile_eq_ok.mpr ⟨as, has, hnotedBehind, rfl⟩
  exact ⟨hef, (endsIn_iff_of_run hcompile).mpr ⟨Codecs.describe_ofBodies hnotedBehind hsame, hdf⟩⟩

end Response

def Body.noted (b : Body) : Body × Except WriteError String := ({ b with codec := .unknown }, b.codec.describe)

theorem Body.compile_shadows (document request : Value) :
    Shadows document (fun a b => a.map noted = b.map noted) (compile document request)
      (compile document request) := by
  unfold compile
  split
  · exact shadows_pure rfl
  refine shadows_bind_ofExcept fun es _ => shadows_bind_ofExcept fun preferred _ => ?_
  refine shadows_bind_ofExcept fun node _ => ?_
  refine (compileSchema_shadows document node).bind fun c d hcd => ?_
  have hdone : ∀ (contentType : Option String), Shadows document
      (fun a b => a.map noted = b.map noted)
      (pure (some ⟨preferred.map Prod.snd, contentType, (Value.getD es "required").isTruthy, c⟩))
      (pure (some ⟨preferred.map Prod.snd, contentType, (Value.getD es "required").isTruthy, d⟩))
      := by
    intro contentType
    refine shadows_pure ?_
    rw [Option.map_some, Option.map_some, noted, noted, hcd.noted]
  cases preferred with
  | some media => exact hdone _
  | none =>
    dsimp only
    split
    · exact shadows_bind_ofExcept fun contentType _ => hdone contentType
    · exact hdone _

namespace Operation

/-- Two operations that differ in their codecs only, which have one notation. -/
structure NotedAlike (o p : Operation) : Prop where
  name : o.name = p.name
  tag : o.tag = p.tag
  tags : o.tags = p.tags
  verb : o.verb = p.verb
  path : o.path = p.path
  template : o.template = p.template
  required : o.required.map Parameter.noted = p.required.map Parameter.noted
  optional : o.optional.map Parameter.noted = p.optional.map Parameter.noted
  body : o.body.map Body.noted = p.body.map Body.noted
  expected : o.expected.describe = p.expected.describe
  error : o.error.describe = p.error.describe
  returnsJson : o.returnsJson = p.returnsJson
  summary : o.summary = p.summary
  description : o.description = p.description
  deprecated : o.deprecated = p.deprecated

theorem Declared.compile_shadows (document : Value) (d : Declared) (name : String) :
    Shadows document NotedAlike (d.compile document name) (d.compile document name) := by
  unfold Declared.compile
  refine shadows_bind_ofExcept fun objects _ => ?_
  refine (Parameter.compileAll_shadows document objects).bind fun ps qs hpq => ?_
  refine shadows_bind_ofExcept fun responses _ => ?_
  refine (Response.compile_shadows document responses).bind fun k l hkl => ?_
  refine shadows_bind_ofExcept fun path _ => ?_
  refine (Body.compile_shadows document _).bind fun a b hab => ?_
  refine shadows_bind_ofExcept fun returnsJson _ => shadows_bind_ofExcept fun tags _ => ?_
  refine shadows_bind_ofExcept fun tag _ => shadows_bind_ofExcept fun summary _ => ?_
  refine shadows_bind_ofExcept fun description _ => shadows_pure ?_
  constructor
  case required => rw [Parameter.noted_requiredFirst, Parameter.noted_requiredFirst, hpq]
  case optional => rw [Parameter.noted_optional, Parameter.noted_optional, hpq]
  case body => exact hab
  case expected => exact hkl.1
  case error => exact hkl.2
  all_goals rfl

end Operation

end OpenApi
