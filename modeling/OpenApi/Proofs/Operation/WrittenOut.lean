import OpenApi.Api
import OpenApi.Proofs.Compilation.Inlined
import OpenApi.Proofs.Operation.Agreeing
import OpenApi.Proofs.Operation.Notation
import OpenApi.Proofs.Value.Replaced
/-! # References written out

Path items, parameters, bodies and responses may be given by references. A document in which these are
written out, that is, replaced by what they lead to, compiles as the one with the references does, if none
of them leads to another reference. A second one would not be followed. -/
namespace OpenApi

open Value (Replaces Mapped Listed)

def Key.isVerb : Key → Bool
  | .str key => (Verb.ofKey? key).isSome
  | _ => false

section Places

variable (R : Value → Value → Prop)

/-- What an operation has under a key: the parameters, the body and the responses may be replaced. -/
def operationPart (k : Key) (v w : Value) : Prop :=
  if k == "parameters" then Listed R v w
  else if k == "requestBody" then R v w
  else if k == "responses" then Mapped (fun _ => R) v w
  else v = w

def itemPart (k : Key) (v w : Value) : Prop :=
  if k == "parameters" then Listed R v w
  else if k.isVerb then Mapped (operationPart R) v w
  else v = w

/-- A path item may be replaced, and so may its parts afterwards. -/
def pathPart (_ : Key) (v w : Value) : Prop := ∃ item, R v item ∧ Mapped (itemPart R) item w

end Places

/-- In the second document the references from path items, parameters, bodies and responses of the first
one are replaced by what they lead to, by a number of references that is permitted. The references that are
left lead to the same nodes in both documents. -/
structure WrittenOut (links : Nat → Prop) (document written : Entries Key Value) : Prop where
  paths : Mapped (pathPart (Replaces (.dict document) links)) (Value.getD document "paths")
    (Value.getD written "paths")
  kept : ∀ name ∈ ["openapi", "swagger", "info"], document.get? (.str name) = written.get? (.str name)
  agree : ∀ r ∈ (Value.dict written).references,
    Pointer.resolve (.dict document) r = Pointer.resolve (.dict written) r

/-- References that lead outside of the paths lead to the same nodes if the documents differ in their paths
only. -/
theorem WrittenOut.of_paths {links : Nat → Prop} {document written : Entries Key Value}
    (paths : Mapped (pathPart (Replaces (.dict document) links)) (Value.getD document "paths")
      (Value.getD written "paths"))
    (same : ∀ name, name ≠ "paths" → document.get? (.str name) = written.get? (.str name))
    (outside : ∀ r ∈ (Value.dict written).references, Pointer.first? r ≠ some "paths") :
    WrittenOut links document written where
  paths := paths
  kept name hname := by
    refine same name ?_
    rintro rfl
    exact absurd hname (by decide)
  agree r hr := by
    refine Pointer.resolve_eq_of_first fun name hname => same name ?_
    rintro rfl
    exact outside r hr hname

section Members

variable {R : Value → Value → Prop} {document other v w : Value}

theorem Followed.standsFor (h : Followed document R) (hvw : R v w)
    (hw : w.references ⊆ other.references) : StandsFor document other v w :=
  ⟨h.resolved hvw, Value.resolved_of_plain (h.plain hvw), h.null_iff hvw, hw⟩

theorem mapM_resolved_eq {vs ws : List Value} (h : List.Forall₂ (StandsFor document other) vs ws) :
    vs.mapM (Value.resolved document) = ws.mapM (Value.resolved other) ∧
      ∀ us, ws.mapM (Value.resolved other) = .ok us →
        ∀ u ∈ us, Parameter.Asks other.references u := by
  constructor
  · exact mapM_eq_of_forall₂ (h.imp fun v w hvw => hvw.before.trans hvw.after.symm)
  · intro us hus u hu
    obtain ⟨w, hw, hwu⟩ := (partners (mapM_eq_ok hus)).2 u hu
    obtain ⟨v, -, hvw⟩ := (partners h).2 w hw
    rw [hvw.after] at hwu
    cases hwu
    exact Parameter.asks_of_references hvw.references

theorem resolvedMembers_eq (hR : Followed document R) (h : Listed R v w)
    (hw : w.references ⊆ other.references) :
    Value.resolvedMembers document v = Value.resolvedMembers other w ∧
      ∀ us, Value.resolvedMembers other w = .ok us →
        ∀ u ∈ us, Parameter.Asks other.references u := by
  have hseq : ∀ {vs ws : List Value}, List.Forall₂ R vs ws →
      Value.references.inItems ws ⊆ other.references → List.Forall₂ (StandsFor document other) vs ws :=
    fun h hws => forall₂_of_right_members h fun w hw v hvw =>
      hR.standsFor hvw fun r hr => hws (Value.references_of_item hw hr)
  have hempty : ∀ us, (.ok [] : Except Fault (List Value)) = .ok us →
      ∀ u ∈ us, Parameter.Asks other.references u := by
    intro us hus
    cases hus
    exact nofun
  cases h with
  | list h | tuple h =>
    have hmembers := mapM_resolved_eq (hseq h hw)
    cases h with
    | nil => exact ⟨rfl, hempty⟩
    | cons => exact hmembers
  | other hl ht =>
    unfold Value.resolvedMembers
    cases v.isTruthy with
    | false => exact ⟨rfl, hempty⟩
    | true =>
      cases hus : v.elements? with
      | none => exact ⟨rfl, nofun⟩
      | some us =>
        have hkind := kind_of_elements hl ht hus
        rw [if_pos rfl, if_pos rfl]
        dsimp only
        rw [mapM_resolved_of_kind hkind, mapM_resolved_of_kind hkind]
        refine ⟨rfl, fun us' hus' u hu => ?_⟩
        cases hus'
        rintro es rfl
        exact absurd rfl (hkind _ hu)

end Members

section Operations

variable {R : Value → Value → Prop} {document other : Value}

structure Operation.Declared.Related (R : Value → Value → Prop) (d e : Operation.Declared) : Prop where
  path : d.path = e.path
  key : d.key = e.key
  verb : d.verb = e.verb
  shared : Listed R (Value.getD d.item "parameters") (Value.getD e.item "parameters")
  parts : List.Forall₂ (fun a b => a.1 = b.1 ∧ operationPart R a.1 a.2 b.2) d.entries e.entries

namespace Operation.Declared

variable {d e : Operation.Declared}

theorem Related.getD_eq (h : d.Related R e) (name : String)
    (hname : name ≠ "parameters" ∧ name ≠ "requestBody" ∧ name ≠ "responses") :
    Value.getD d.entries name = Value.getD e.entries name := by
  have hpart := Value.getD_of_mapped h.parts name
  simpa [operationPart, hname] using hpart

theorem Related.tags_eq (h : d.Related R e) : d.tags = e.tags := h.getD_eq "tags" (by decide)

theorem Related.firstTag_eq (h : d.Related R e) : d.firstTag = e.firstTag := by
  rw [firstTag, firstTag, h.tags_eq]

theorem Related.pathText_eq (h : d.Related R e) : d.pathText = e.pathText := by
  rw [pathText, pathText, h.path]

theorem Related.name_eq (h : d.Related R e) : d.name = e.name := by
  unfold name
  rw [h.getD_eq "operationId" (by decide), h.key, h.pathText_eq]

theorem Related.own (h : d.Related R e) :
    Listed R (Value.getD d.entries "parameters") (Value.getD e.entries "parameters") :=
  Value.getD_of_mapped h.parts "parameters" (.other nofun nofun)

theorem Related.responses (h : d.Related R e) :
    Mapped (fun _ => R) (Value.getD d.entries "responses") (Value.getD e.entries "responses") :=
  Value.getD_of_mapped h.parts "responses" (.other nofun)

theorem Related.body (h : d.Related R e) (hnull : R .null .null) :
    R (Value.getD d.entries "requestBody") (Value.getD e.entries "requestBody") :=
  Value.getD_of_mapped h.parts "requestBody" hnull

/-- All references of the operation, and of the parameters beside it, stand in the document. -/
structure Within (other : Value) (e : Operation.Declared) : Prop where
  shared : (Value.getD e.item "parameters").references ⊆ other.references
  entries : (Value.dict e.entries).references ⊆ other.references

theorem Within.getD (h : e.Within other) (name : String) :
    (Value.getD e.entries name).references ⊆ other.references :=
  fun _ hr => h.entries (Value.references_getD _ _ hr)

section Compiled

variable (hR : Followed document R)

include hR

theorem Related.parameterObjects_eq (h : d.Related R e) (he : e.Within other) :
    d.parameterObjects document = e.parameterObjects other ∧
      ∀ us, e.parameterObjects other = .ok us → ∀ u ∈ us, Parameter.Asks other.references u := by
  obtain ⟨hshared, hsharedAsks⟩ := resolvedMembers_eq hR h.shared he.shared
  obtain ⟨hown, hownAsks⟩ := resolvedMembers_eq hR h.own (he.getD _)
  refine ⟨by rw [parameterObjects, parameterObjects, hshared, hown], fun us hus => ?_⟩
  obtain ⟨shared, hs, hus⟩ := bind_eq_ok.mp hus
  obtain ⟨own, ho, hus⟩ := bind_eq_ok.mp hus
  exact Parameter.asks_mergeBracketed
    (List.forall_mem_append.mpr ⟨hsharedAsks shared hs, hownAsks own ho⟩) hus

theorem standsFor_responses {responses others : Entries Key Value}
    (h : List.Forall₂ (fun e f => e.1 = f.1 ∧ R e.2 f.2) responses others)
    (hothers : (Value.dict others).references ⊆ other.references) :
    Entries.Pointwise (StandsFor document other) responses others :=
  forall₂_of_right_members h fun _ hf _ hef =>
    ⟨hef.1, hR.standsFor hef.2 fun _ hr => hothers (Value.references_of_entry hf hr)⟩

/-- Related operations are compiled alike. -/
theorem Related.compile_eq
    (hagree : ∀ r ∈ other.references, Pointer.resolve document r = Pointer.resolve other r)
    (h : d.Related R e) (he : e.Within other) (name : String) :
    d.compile document name = e.compile other name := by
  obtain ⟨hobjects, hasks⟩ := Related.parameterObjects_eq hR h he
  have hbody := Body.compile_eq hagree (hR.standsFor (h.body hR.null) (he.getD _))
  unfold compile
  rw [hobjects, hbody, h.pathText_eq, h.tags_eq, h.firstTag_eq, h.getD_eq "summary" (by decide),
    h.getD_eq "description" (by decide), h.getD_eq "deprecated" (by decide), h.verb]
  refine Compile.bind_ofExcept_congr fun objects hob => ?_
  rw [Parameter.compileAll_eq_of_agree hagree (hasks objects hob)]
  refine bind_congr fun parameters => ?_
  rcases h.responses.mapping with ⟨f, hd, he⟩ | ⟨responses, others, hd, hw, hall⟩
  · rw [hd, he]
    exact Compile.bind_ofExcept_congr nofun
  · have hpoint := standsFor_responses hR hall fun r hr =>
      he.getD _ (Value.references_mapping hw hr)
    rw [hd, hw, Compile.bind_ofExcept_ok, Compile.bind_ofExcept_ok, Response.compile_eq hagree hpoint,
      Response.offersJson_eq hpoint]

end Compiled

end Operation.Declared

namespace Operation.Progress

variable (hR : Followed document R)
  (hagree : ∀ r ∈ other.references, Pointer.resolve document r = Pointer.resolve other r)

include hR hagree

theorem add_eq_of_related (options : Options) (p : Progress) {d e : Operation.Declared}
    (h : d.Related R e) (he : e.Within other) : p.add document options d = p.add other options e := by
  unfold add
  simp only [h.tags_eq, h.verb, h.path, h.name_eq, h.firstTag_eq,
    Operation.Declared.Related.compile_eq hR hagree h he]

theorem addEntry_eq (options : Options) (path : Key) {item others : Entries Key Value}
    (hshared : Listed R (Value.getD item "parameters") (Value.getD others "parameters"))
    (hothers : (Value.dict others).references ⊆ other.references) {a b : Key × Value}
    (hab : a.1 = b.1 ∧ itemPart R a.1 a.2 b.2) (hb : b ∈ others) (p : Progress) :
    p.addEntry document options path item a = p.addEntry other options path others b := by
  obtain ⟨k, v⟩ := a
  obtain ⟨l, w⟩ := b
  obtain ⟨rfl, hvw⟩ : k = l ∧ itemPart R k v w := hab
  unfold addEntry
  cases k with
  | str key =>
    dsimp only
    cases hverb : Verb.ofKey? key with
    | none => rfl
    | some verb =>
      have hmapped : Mapped (operationPart R) v w := by
        have hverbKey : (Key.str key).isVerb = true := by rw [Key.isVerb, hverb]; rfl
        have hname : ¬ (Key.str key == "parameters") = true := by
          rintro hname
          rw [Key.str_beq_str, beq_iff_eq] at hname
          have hnone : Verb.ofKey? "parameters" = none := by decide
          rw [hname, hnone] at hverb
          cases hverb
        rwa [itemPart, if_neg hname, if_pos hverbKey] at hvw
      cases hmapped with
      | dict hparts =>
        refine add_eq_of_related hR hagree options p ⟨rfl, rfl, rfl, hshared, hparts⟩ ⟨?_, ?_⟩
        · exact fun r hr => hothers (Value.references_getD _ _ hr)
        · exact fun r hr => hothers (Value.references_of_entry hb hr)
      | other hv =>
        cases v with
        | dict es => exact absurd rfl hv
        | _ => rfl
  | _ => rfl

theorem addPath_eq (options : Options) {a b : Key × Value} (hab : a.1 = b.1 ∧ pathPart R a.1 a.2 b.2)
    (hb : b.2.references ⊆ other.references) (p : Progress) :
    p.addPath document options a = p.addPath other options b := by
  obtain ⟨k, v⟩ := a
  obtain ⟨l, w⟩ := b
  obtain ⟨rfl, item, hitem, hmapped⟩ : k = l ∧ pathPart R k v w := hab
  unfold addPath
  rw [hR.resolved hitem, Value.resolved_of_plain (hmapped.plain (hR.plain hitem)),
    Compile.bind_ofExcept_ok, Compile.bind_ofExcept_ok]
  cases hmapped with
  | @dict es fs hparts =>
    have hshared : Listed R (Value.getD es "parameters") (Value.getD fs "parameters") :=
      Value.getD_of_mapped hparts "parameters" (.other nofun nofun)
    refine foldlM_eq_of_forall₂ (forall₂_of_right_members hparts fun f hf e hef => ?_) p
    exact addEntry_eq hR hagree options k hshared hb hef hf
  | other hv =>
    cases w with
    | dict es => exact absurd rfl hv
    | _ => rfl

end Operation.Progress

theorem Operation.compileAll_eq {document written : Entries Key Value}
    (h : WrittenOut (· ≤ 1) document written) (options : Options) :
    compileAll (.dict document) options = compileAll (.dict written) options := by
  have hpaths := h.paths.mapping
  have hR := followed_replaces (.dict document)
  unfold compileAll
  show (ofExcept (Field.mapping (Value.getD document "paths")) >>= _) =
    (ofExcept (Field.mapping (Value.getD written "paths")) >>= _)
  rcases hpaths with ⟨f, hd, hw⟩ | ⟨es, fs, hd, hw, hall⟩
  · rw [hd, hw]
    exact Compile.bind_ofExcept_congr nofun
  · rw [hd, hw, Compile.bind_ofExcept_ok, Compile.bind_ofExcept_ok]
    have hfs : (Value.dict fs).references ⊆ (Value.dict written).references := fun r hr =>
      Value.references_getD _ _ (Value.references_mapping hw hr)
    have hsame := foldlM_eq_of_forall₂ (forall₂_of_right_members hall fun f hf e hef =>
      Progress.addPath_eq hR h.agree options hef fun r hr => hfs (Value.references_of_entry hf hr)) .start
    rw [hsame]

end Operations

namespace Api

/-- References from path items, parameters, bodies and responses make no difference, if none of them leads
to another reference. -/
theorem compile_writtenOut {document written : Entries Key Value}
    (h : WrittenOut (· ≤ 1) document written) (options : Options) (defaults : Value) :
    compile document options defaults = compile written options defaults := by
  have hkept := h.kept
  simp only [List.forall_mem_cons] at hkept
  obtain ⟨hopenapi, hswagger, hinfo, -⟩ := hkept
  have hversion : documentVersion document = documentVersion written := by
    rw [documentVersion, documentVersion, Value.getD, Value.getD, hswagger, hopenapi]
  have htitle : titleOf document = titleOf written := by
    rw [titleOf, titleOf, Value.getD, Value.getD, hinfo]
  unfold compile
  rw [hversion, htitle, Operation.compileAll_eq h options]

def limitedItem (limit body reply : Value) : Value :=
  .object [("parameters", .list [limit]), ("post", .object [("tags", .list [.str "pets"]),
    ("requestBody", body), ("responses", .object [("200", reply)])])]

def limitNode : Value := .object [("name", .str "limit"), ("schema", .object [("type", .str "integer")])]

def jsonNode (schema : Value) : Value :=
  .object [("content", .object [("application/json", .object [("schema", schema)])])]

def petsUnder (item : Value) : Entries Key Value :=
  [("openapi", .str "3.0.0"), ("info", .object [("title", .str "Pets"), ("version", .str "1")]),
    ("Item", limitedItem (.reference "#/Limit") (.reference "#/Body") (.reference "#/Reply")),
    ("Limit", limitNode), ("Body", jsonNode (.reference "#/Pet")), ("Reply", jsonNode (.reference "#/Pet")),
    ("Pet", .object [("type", .str "string")]), ("paths", .object [("/pets", item)])]

def petsWritten : Entries Key Value :=
  petsUnder (limitedItem limitNode (jsonNode (.reference "#/Pet")) (jsonNode (.reference "#/Pet")))

theorem replaces_reference {es : Entries Key Value} {last : Value} {ref : String} (name : String)
    (hs : (Pointer.segments ref).toOption = some [name]) (hn : es.get? (.str name) = some last)
    (plain : last.get? "$ref" = none) (object : last.kind = .dict) :
    Replaces (.dict es) (· ≤ 1) (.reference ref) last :=
  ⟨1, Nat.le_refl 1, .link rfl (Pointer.resolve_of_segments name hs hn) (.here plain) object⟩

theorem writtenOut_pets : WrittenOut (· ≤ 1) (petsUnder (.reference "#/Item")) petsWritten := by
  refine .of_paths ?_ (fun name h => ?_) (by decide +kernel)
  · refine .dict (.cons ⟨rfl, _, replaces_reference "Item" (by decide +kernel) rfl rfl rfl, ?_⟩ .nil)
    refine .dict (.cons ⟨rfl, ?_⟩ (.cons ⟨rfl, ?_⟩ .nil))
    · exact .list (.cons (replaces_reference "Limit" (by decide +kernel) rfl rfl rfl) .nil)
    · rw [itemPart, if_neg (by decide), if_pos (by decide +kernel)]
      have hbody : Replaces (.dict (petsUnder (.reference "#/Item"))) (· ≤ 1) (.reference "#/Body")
          (jsonNode (.reference "#/Pet")) := replaces_reference "Body" (by decide +kernel) rfl rfl rfl
      have hreply : Replaces (.dict (petsUnder (.reference "#/Item"))) (· ≤ 1) (.reference "#/Reply")
          (jsonNode (.reference "#/Pet")) := replaces_reference "Reply" (by decide +kernel) rfl rfl rfl
      exact .dict (.cons ⟨rfl, rfl⟩ (.cons ⟨rfl, hbody⟩
        (.cons ⟨rfl, .dict (.cons ⟨rfl, hreply⟩ .nil)⟩ .nil)))
  · simp [petsWritten, petsUnder, Entries.get?_cons, h]

theorem compile_writtenOut_pets : ∃ api d,
    (compile (petsUnder (.reference "#/Item")) .default .null).run .start = (.ok api, d) ∧
      (compile petsWritten .default .null).run .start = (.ok api, d) := by
  have hsame := compile_writtenOut writtenOut_pets .default .null
  obtain ⟨api, d, run⟩ := Compile.exists_run (c := .start) (x := compile petsWritten .default .null)
    (by decide +kernel)
  refine ⟨api, d, ?_, run⟩
  rw [hsame]
  exact run

/-- One response leads to the other one, which is a truth value. -/
def flagUnder (reply : Value) : Entries Key Value :=
  [("openapi", .str "3.0.0"), ("info", .object [("title", .str "Flags"), ("version", .str "1")]),
    ("First", .reference "#/Second"), ("Second", jsonNode (.object [("type", .str "boolean")])),
    ("paths", .object [("/flag", .object [("get", .object [("tags", .list [.str "flags"]),
      ("responses", .object [("200", reply)])])])])]

def flagWritten : Entries Key Value := flagUnder (jsonNode (.object [("type", .str "boolean")]))

theorem writtenOut_flag :
    WrittenOut (fun _ => True) (flagUnder (.reference "#/First")) flagWritten := by
  refine .of_paths ?_ (fun name h => ?_) (by decide +kernel)
  · have hfirst : Pointer.resolve (.dict (flagUnder (.reference "#/First"))) "#/First" =
        .ok (.reference "#/Second") := Pointer.resolve_of_segments "First" (by decide +kernel) rfl
    have hsecond : Pointer.resolve (.dict (flagUnder (.reference "#/First"))) "#/Second" =
        .ok (jsonNode (.object [("type", .str "boolean")])) :=
      Pointer.resolve_of_segments "Second" (by decide +kernel) rfl
    have hreply : Replaces (.dict (flagUnder (.reference "#/First"))) (fun _ => True)
        (.reference "#/First") (jsonNode (.object [("type", .str "boolean")])) :=
      ⟨2, trivial, .link rfl hfirst (.link rfl hsecond (.here rfl) rfl) rfl⟩
    refine .dict (.cons ⟨rfl, _, ⟨0, trivial, .here rfl⟩, .dict (.cons ⟨rfl, ?_⟩ .nil)⟩ .nil)
    rw [itemPart, if_neg (by decide), if_pos (by decide +kernel)]
    exact .dict (.cons ⟨rfl, rfl⟩ (.cons ⟨rfl, .dict (.cons ⟨rfl, hreply⟩ .nil)⟩ .nil))
  · simp [flagWritten, flagUnder, Entries.get?_cons, h]

def expectedNotations (document : Entries Key Value) :
    Option (List (Except WriteError String)) :=
  ((compile document .default .null).run .start).1.toOption.map fun api =>
    api.operations.map fun o => o.expected.describe

/-- Of the two references only the first one is followed, and the second one declares no content. -/
theorem not_writtenOut_flag :
    ¬ ∀ (document written : Entries Key Value) (options : Options) (defaults : Value) (api : Api)
      (d : Compilation), WrittenOut (fun _ => True) document written →
      (compile document options defaults).run .start = (.ok api, d) →
      ∃ other e, (compile written options defaults).run .start = (.ok other, e) ∧
        List.Forall₂ Operation.NotedAlike api.operations other.operations := by
  intro h
  obtain ⟨api, d, run⟩ := Compile.exists_run (c := .start)
    (x := compile (flagUnder (.reference "#/First")) .default .null) (by decide +kernel)
  obtain ⟨other, e, hother, halike⟩ := h _ _ _ _ api d writtenOut_flag run
  have hsame : api.operations.map (fun o => o.expected.describe) =
      other.operations.map fun o => o.expected.describe := by
    rw [← List.forall₂_eq_eq_eq, List.forall₂_map_left_iff, List.forall₂_map_right_iff]
    exact halike.imp fun _ _ h => h.expected
  have hfirst : expectedNotations (flagUnder (.reference "#/First")) = some [.ok "unknown"] := by
    decide +kernel
  have hwritten : expectedNotations flagWritten = some [.ok "boolean"] := by decide +kernel
  rw [expectedNotations, run] at hfirst
  rw [expectedNotations, hother] at hwritten
  have hlists : ([.ok "unknown"] : List (Except WriteError String)) = [.ok "boolean"] :=
    (Option.some.inj hfirst).symm.trans (hsame.trans (Option.some.inj hwritten))
  exact absurd hlists (by decide)

end Api

end OpenApi
