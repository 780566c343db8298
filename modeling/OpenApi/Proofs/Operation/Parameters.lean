import OpenApi.Api
import OpenApi.Proofs.Compilation.Results
import OpenApi.Proofs.Naming.Argument
/-! # Parameters of compiled operations

What holds of every operation that a declaration compiles to holds of all operations of an
interface. The parameters of such an operation have the arguments that were chosen together. -/
namespace OpenApi

open Compile

namespace Parameter

structure Declares (arguments : Entries String String) (es : Entries Key Value) (p : Parameter) :
    Prop where
  name : nameOf es = .ok p.name
  argument : p.argument = (arguments.get? p.name).getD ""
  location : Location.ofValue? (entry es "in" (.str "query")) = some p.location
  required : p.required = ((Value.getD es "required").isTruthy || decide (p.location = .path))

theorem compile_declares (document : Value) (arguments : Entries String String)
    (es : Entries Key Value) : (compile document arguments es).Gives fun r =>
      ∀ p, r = some p → Declares arguments es p := by
  unfold compile
  cases hl : Location.ofValue? (entry es "in" (.str "query")) with
  | none =>
    refine gives_pure fun p hp => ?_
    cases hp
  | some location =>
    refine gives_bind_ofExcept fun name hn => ?_
    refine gives_bind fun formatter => gives_bind fun codec => gives_bind fun style => ?_
    refine gives_bind fun description => gives_pure fun p hp => ?_
    cases hp
    exact ⟨hn, rfl, hl, rfl⟩

/-- The arguments of the parameters were chosen together, among those of more names perhaps. -/
def Named (ps : List Parameter) : Prop :=
  ∃ names, ∀ p ∈ ps, (Naming.argumentNames names).get? p.name = some p.argument

theorem compileAll_named (document : Value) (objects : List Value) :
    (compileAll document objects).Gives Named := by
  unfold compileAll
  refine gives_bind fun objects => ?_
  refine gives_bind_ofExcept fun names hn => ?_
  refine (gives_mapM fun es _ => compile_declares document _ es).bind fun rs hrs => ?_
  refine gives_pure ⟨names, fun p hp => ?_⟩
  obtain ⟨r, hr, rfl⟩ := List.mem_filterMap.1 hp
  obtain ⟨es, hes, hd⟩ := (partners hrs).2 _ hr
  have hp := hd p rfl
  obtain ⟨name, hm, hne⟩ := (partners (mapM_eq_ok hn)).1 es hes
  have he : p.name = name := Except.ok.inj (hp.name.symm.trans hne)
  obtain ⟨a, ha⟩ := Naming.exists_argument (he ▸ hm)
  rw [hp.argument, ha]
  rfl

end Parameter

namespace Operation

theorem mem_parameters_iff {ps : List Parameter} {p : Parameter} :
    p ∈ Parameter.requiredFirst ps ++ Parameter.optional ps ↔ p ∈ ps := by
  rw [List.mem_append, Parameter.requiredFirst, List.mem_mergeSort, Parameter.optional,
    List.mem_filter, List.mem_filter]
  constructor
  · rintro (h | h)
    · exact h.1
    · exact h.1
  · intro h
    by_cases hr : p.required = true
    · exact .inl ⟨h, hr⟩
    · exact .inr ⟨h, by simp [hr]⟩

theorem Declared.compile_named (document : Value) (d : Declared) (name : String) :
    (d.compile document name).Gives fun o => Parameter.Named o.parameters := by
  unfold Declared.compile
  refine gives_bind fun objects => ?_
  refine (Parameter.compileAll_named document objects).bind fun ps hps => ?_
  refine gives_bind fun responses => gives_bind fun codecs => gives_bind fun path => ?_
  refine gives_bind fun body => gives_bind fun returnsJson => gives_bind fun tags => ?_
  refine gives_bind fun tag => gives_bind fun summary => gives_bind fun description => ?_
  obtain ⟨names, h⟩ := hps
  exact gives_pure ⟨names, fun p hp => h p (mem_parameters_iff.1 hp)⟩

namespace Progress

def place (document : Value) (p : Progress) (d : Declared) : Compile Progress := do
  let name ← ofExcept d.name
  let tag ← ofExcept d.firstTag
  match tag.key? with
  | none => throw .malformed
  | some key =>
    if (p.namesOf key).contains name then throw (.operationClash name tag.text)
    else do
      let operation ← d.compile document name
      Compile.note (.compiledOperation d.verb.upperName d.path.text tag.text name)
      return ⟨p.operations ++ [operation], p.taken.put key (p.namesOf key ++ [name])⟩

/-- Adding an operation is to place it, or to skip it. -/
theorem add_eq (document : Value) (options : Options) (p : Progress) (d : Declared) :
    p.add document options d =
      if d.tags.isTruthy then
        match d.tags.elements? with
        | none => throw .malformed
        | some tags =>
          if options.skips tags then
            Compile.note (.skipped d.verb.upperName d.path.text d.tags) >>= fun _ => pure p
          else p.place document d
      else throw (.untagged d.verb.upperName d.path.text) := by
  unfold add
  cases d.tags.isTruthy with
  | false => rfl
  | true =>
    cases d.tags.elements? with
    | none => rfl
    | some tags =>
      show (if options.skips tags = true then _ else _) =
        if options.skips tags = true then _ else _
      refine if_congr Iff.rfl rfl (bind_congr fun name => bind_congr fun tag => ?_)
      cases tag.key? with
      | none => rfl
      | some key =>
        show (if (p.namesOf key).contains name = true then _ else _) =
          if (p.namesOf key).contains name = true then _ else _
        exact if_congr Iff.rfl rfl rfl

end Progress

structure Declared.In (document : Value) (d : Declared) : Prop where
  item : ∃ paths v, Field.mapping ((document.get? "paths").getD .null) = .ok paths ∧
    (d.path, v) ∈ paths ∧ Value.resolved document v = .ok (.dict d.item)
  entry : (.str d.key, .dict d.entries) ∈ d.item
  verb : Verb.ofKey? d.key = some d.verb

section Everywhere

variable {document : Value} {P : Operation → Prop}
  (hP : ∀ (d : Declared) (name : String), d.In document → d.name = .ok name →
    (d.compile document name).Gives P)

include hP

theorem Progress.place_gives {p : Progress} (hp : ∀ o ∈ p.operations, P o) {d : Declared}
    (hd : d.In document) : (p.place document d).Gives fun q => ∀ o ∈ q.operations, P o := by
  unfold place
  refine gives_bind_ofExcept fun name hname => gives_bind fun tag => ?_
  split
  · exact gives_throw _
  split
  · exact gives_throw _
  refine (hP d name hd hname).bind fun o ho => gives_bind fun _ => gives_pure ?_
  intro q hq
  rcases List.mem_append.1 hq with hq | hq
  · exact hp q hq
  · rwa [List.mem_singleton.1 hq]

theorem Progress.add_gives (options : Options) {p : Progress} (hp : ∀ o ∈ p.operations, P o)
    {d : Declared} (hd : d.In document) :
    (p.add document options d).Gives fun q => ∀ o ∈ q.operations, P o := by
  rw [add_eq]
  split
  · split
    · exact gives_throw _
    split
    · exact gives_bind fun _ => gives_pure hp
    · exact Progress.place_gives hP hp hd
  · exact gives_throw _

theorem Progress.addPath_gives (options : Options) {p : Progress} (hp : ∀ o ∈ p.operations, P o)
    {paths : Entries Key Value} {path : Key × Value}
    (hpaths : Field.mapping ((document.get? "paths").getD .null) = .ok paths)
    (hpath : path ∈ paths) :
    (p.addPath document options path).Gives fun q => ∀ o ∈ q.operations, P o := by
  unfold Progress.addPath
  refine gives_bind_ofExcept fun v hv => ?_
  split
  · next item =>
    refine gives_foldlM (fun p hp e he => ?_) hp
    unfold Progress.addEntry
    split
    · split
      · next verb entries hverb =>
        exact Progress.add_gives hP options hp ⟨⟨paths, path.2, hpaths, hpath, hv⟩, he, hverb⟩
      · exact gives_pure hp
    · exact gives_throw _
  · exact gives_pure hp

theorem compileAll_gives (options : Options) :
    (compileAll document options).Gives fun os => ∀ o ∈ os, P o := by
  unfold compileAll
  refine gives_bind_ofExcept fun paths hpaths => ?_
  refine (gives_foldlM (P := fun p : Progress => ∀ o ∈ p.operations, P o)
    (fun p hp e he => Progress.addPath_gives hP options hp hpaths he) ?_).bind fun p hp => ?_
  · simp [Progress.start]
  · exact gives_pure hp

end Everywhere

end Operation

theorem Api.compile_gives_named {document : Entries Key Value} {P : Operation → Prop}
    (hP : ∀ (d : Operation.Declared) (name : String), d.In (.dict document) → d.name = .ok name →
      (d.compile (.dict document) name).Gives P) (options : Options) (defaults : Value) :
    (Api.compile document options defaults).Gives fun api => ∀ o ∈ api.operations, P o := by
  unfold Api.compile
  refine gives_bind fun version => gives_bind fun baseUrl => ?_
  refine (Operation.compileAll_gives hP options).bind fun operations ho => ?_
  refine gives_bind fun models => gives_bind fun _ => gives_bind fun title => ?_
  exact gives_bind fun baseUrl => gives_pure ho

theorem Api.compile_gives_declared {document : Entries Key Value} {P : Operation → Prop}
    (hP : ∀ (d : Operation.Declared) (name : String), d.In (.dict document) →
      (d.compile (.dict document) name).Gives P) (options : Options) (defaults : Value) :
    (Api.compile document options defaults).Gives fun api => ∀ o ∈ api.operations, P o :=
  Api.compile_gives_named (fun d name hd _ => hP d name hd) options defaults

theorem Api.compile_gives {document : Entries Key Value} {P : Operation → Prop}
    (hP : ∀ (d : Operation.Declared) (name : String),
      (d.compile (.dict document) name).Gives P) (options : Options) (defaults : Value) :
    (Api.compile document options defaults).Gives fun api => ∀ o ∈ api.operations, P o :=
  Api.compile_gives_declared (fun d name _ => hP d name) options defaults

end OpenApi
