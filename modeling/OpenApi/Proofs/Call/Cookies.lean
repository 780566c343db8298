import OpenApi.Proofs.Call.Carried
import OpenApi.Proofs.Call.Required
import OpenApi.Proofs.Text.Runs
/-! # The cookies of a call

The cookies of a call stand in one header, a semicolon and a space between each two of them. Nothing is
escaped in them. So the header is read back as what was passed exactly if no value holds that separator:
one that does is read as several cookies, and names them as it likes. -/
namespace OpenApi

namespace Cookies

/-- What stands between semicolons with a space behind them. -/
def pieces : List Char → List (List Char)
  | [] => [[]]
  | ';' :: ' ' :: rest => [] :: pieces rest
  | c :: rest =>
    match pieces rest with
    | [] => [[c]]
    | p :: ps => (c :: p) :: ps

def pairOf (piece : List Char) : String × String :=
  (String.ofList (piece.takeWhile (· != '=')),
    String.ofList ((piece.dropWhile (· != '=')).drop 1))

def read (header : String) : List (String × String) := (pieces header.toList).map pairOf

def written (c : String × String) : String := c.1 ++ "=" ++ c.2

def Whole (cs : List Char) : Prop := Text.occurs [';', ' '] cs = false

instance : DecidablePred Whole := fun _ => inferInstanceAs (Decidable (_ = false))

theorem whole_cons {c : Char} {cs : List Char} :
    Whole (c :: cs) ↔ ¬ (c = ';' ∧ ' ' ∈ cs.head?) ∧ Whole cs := by
  have hfirst : [';', ' '].isPrefixOf (c :: cs) = true ↔ c = ';' ∧ ' ' ∈ cs.head? := by
    rw [List.isPrefixOf_iff_prefix, List.cons_prefix_cons, @eq_comm _ ';']
    cases cs with
    | nil => simp
    | cons d cs => simp [List.cons_prefix_cons, @eq_comm _ ' ']
  rw [Whole, Whole, Text.occurs, Bool.or_eq_false_iff, ← Bool.not_eq_true, hfirst]

theorem pieces_ne_nil (cs : List Char) : pieces cs ≠ [] := by
  fun_induction pieces cs <;> simp

theorem pieces_cons {c : Char} {rest p : List Char} {ps : List (List Char)}
    (h : ¬ (c = ';' ∧ ' ' ∈ rest.head?)) (hp : pieces rest = p :: ps) :
    pieces (c :: rest) = (c :: p) :: ps := by
  rw [pieces, hp]
  rintro rest' rfl rfl
  exact h ⟨rfl, rfl⟩

/-- The separator does not overlap itself, so pieces end where it is put, whatever stands before it. -/
theorem pieces_append (cs rest : List Char) :
    pieces (cs ++ ';' :: ' ' :: rest) = pieces cs ++ pieces rest := by
  fun_induction pieces cs with
  | case1 => rfl
  | case2 cs ih => exact congrArg ([] :: ·) ih
  | case3 c cs hnot hnil ih => exact absurd hnil (pieces_ne_nil cs)
  | case4 c cs hnot p ps hp ih =>
    refine pieces_cons ?_ (ih.trans (by rw [hp]; rfl))
    rintro ⟨rfl, hspace⟩
    cases cs with
    | nil => cases hspace
    | cons d cs =>
      cases hspace
      exact hnot cs rfl rfl

theorem pieces_intercalate {parts : List (List Char)} (h : parts ≠ []) :
    pieces ([';', ' '].intercalate parts) = parts.flatMap pieces := by
  induction parts with
  | nil => exact absurd rfl h
  | cons p parts ih =>
    cases parts with
    | nil => simp
    | cons q parts =>
      have hstep := pieces_append p ([';', ' '].intercalate (q :: parts))
      rw [List.intercalate_cons_cons, List.flatMap_cons, ← ih (by simp), ← hstep]
      simp

theorem pieces_of_whole {cs : List Char} (h : Whole cs) : pieces cs = [cs] := by
  induction cs with
  | nil => rfl
  | cons c cs ih =>
    obtain ⟨hc, hcs⟩ := whole_cons.mp h
    exact pieces_cons hc (ih hcs)

theorem prefix_of_pieces {cs p : List Char} {ps : List (List Char)} (h : pieces cs = p :: ps) :
    p <+: cs := by
  fun_induction pieces cs generalizing p ps with
  | case1 =>
    cases h
    exact List.prefix_rfl
  | case2 cs ih =>
    cases h
    exact List.nil_prefix
  | case3 c cs hnot hnil ih => exact absurd hnil (pieces_ne_nil cs)
  | case4 c cs hnot q qs hq ih =>
    cases h
    exact (List.prefix_cons_inj c).mpr (ih hq)

theorem whole_of_mem_pieces {cs p : List Char} (h : p ∈ pieces cs) : Whole p := by
  fun_induction pieces cs generalizing p with
  | case1 =>
    rw [List.mem_singleton.mp h]
    rfl
  | case2 cs ih =>
    rcases List.mem_cons.mp h with rfl | h
    · rfl
    · exact ih h
  | case3 c cs hnot hnil ih => exact absurd hnil (pieces_ne_nil cs)
  | case4 c cs hnot q qs hq ih =>
    rcases List.mem_cons.mp h with rfl | h
    · refine whole_cons.mpr ⟨?_, ih (hq ▸ List.mem_cons_self)⟩
      rintro ⟨rfl, hspace⟩
      -- the piece begins like the text, so the separator would stand there
      obtain ⟨after, rfl⟩ := prefix_of_pieces hq
      cases q with
      | nil => cases hspace
      | cons d q =>
        cases hspace
        exact hnot (q ++ after) rfl rfl
    · exact ih (hq ▸ List.mem_cons_of_mem q h)

theorem Whole.of_append {before cs : List Char} (h : Whole (before ++ cs)) : Whole cs := by
  induction before with
  | nil => exact h
  | cons c before ih => exact ih (whole_cons.mp h).2

theorem whole_append {before cs : List Char} (h : ';' ∉ before) :
    Whole (before ++ cs) ↔ Whole cs := by
  induction before with
  | nil => rfl
  | cons c before ih =>
    obtain ⟨hc, hbefore⟩ := not_or.mp (List.mem_cons.not.mp h)
    rw [List.cons_append, whole_cons, ih hbefore]
    constructor
    · exact And.right
    · exact fun hw => ⟨fun hs => hc hs.1.symm, hw⟩

theorem whole_of_mem_read {header : String} {c : String × String} (h : c ∈ read header) :
    Whole c.2.toList := by
  obtain ⟨piece, hpiece, rfl⟩ := List.mem_map.mp h
  have hsuffix : (piece.dropWhile (· != '=')).drop 1 <:+ piece :=
    (List.drop_suffix 1 _).trans (List.dropWhile_suffix _)
  obtain ⟨before, hbefore⟩ := hsuffix
  have hwhole := whole_of_mem_pieces hpiece
  rw [← hbefore] at hwhole
  simpa [pairOf] using hwhole.of_append

/-- The name can be told from the value, and does not end a piece. -/
def IsName (name : String) : Prop := '=' ∉ name.toList ∧ ';' ∉ name.toList

instance : DecidablePred IsName := fun _ => inferInstanceAs (Decidable (_ ∧ _))

theorem toList_written (c : String × String) :
    (written c).toList = c.1.toList ++ '=' :: c.2.toList := by
  simp [written]

theorem pairOf_written {c : String × String} (h : '=' ∉ c.1.toList) :
    pairOf (written c).toList = c := by
  obtain ⟨hname, hvalue⟩ := cut_at_mark h c.2.toList
  rw [pairOf, toList_written, hname, hvalue]
  simp

theorem read_written {c : String × String} (hn : IsName c.1) (hw : Whole c.2.toList) :
    read (written c) = [c] := by
  have hwhole : Whole (written c).toList := by
    rw [toList_written]
    refine (whole_append hn.2).mpr (whole_cons.mpr ⟨?_, hw⟩)
    exact fun hs => absurd hs.1 (by decide)
  rw [read, pieces_of_whole hwhole, List.map_singleton, pairOf_written hn.1]

/-- Whatever cookies hold, each of them is read as if it stood alone. -/
theorem read_joined {cs : List (String × String)} (h : cs ≠ []) :
    read (joined "; " (cs.map written)) = cs.flatMap fun c => read (written c) := by
  have hsep : "; ".toList = [';', ' '] := rfl
  rw [read, joined, String.toList_intercalate, hsep, List.map_map,
    pieces_intercalate (by simpa using h), List.flatMap_map, List.map_flatMap]
  rfl

theorem read_joined_iff {cs : List (String × String)} (h : cs ≠ []) (hn : ∀ c ∈ cs, IsName c.1) :
    read (joined "; " (cs.map written)) = cs ↔ ∀ c ∈ cs, Whole c.2.toList := by
  constructor
  · intro hr c hc
    rw [← hr] at hc
    exact whole_of_mem_read hc
  · intro hw
    have halone : ∀ c ∈ cs, read (written c) = [c] := fun c hc => read_written (hn c hc) (hw c hc)
    rw [read_joined h, List.flatMap_congr halone]
    exact List.flatMap_singleton' cs

end Cookies

def Prepared.cookies? (r : Prepared) : Option Value := r.options.headers.get? "Cookie"

namespace Operation

/-- The texts that a call gives to cookies, under the names of these and in their order. -/
def cookiesOf (o : Operation) (bound : Entries String Value) : List (String × String) :=
  o.arguments.filterMap fun a =>
    if a.2.location = .cookie then ((bound.get? a.1).getD .null).str?.map fun s => (a.2.name, s)
    else none

/-- The call gives texts to some cookies, nothing to the other ones, and no settings. -/
structure PassesCookies (o : Operation) (a : Arguments) (bound : Entries String Value) : Prop where
  binds : o.bind a = .ok bound
  settings : a.settings = none
  texts : ∀ e ∈ o.arguments, e.2.location = .cookie →
    ((bound.get? e.1).getD .null).kind = .null ∨ ((bound.get? e.1).getD .null).kind = .str
  passed : o.cookiesOf bound ≠ []

/-- The header of the call is read as the cookies that it passes. -/
def TellsCookies (o : Operation) (bound : Entries String Value) (r : Prepared) : Prop :=
  ∃ header, r.cookies? = some (.str header) ∧ Cookies.read header = o.cookiesOf bound

/-- No text that the call gives to a cookie holds the separator. -/
def WholeCookies (o : Operation) (bound : Entries String Value) : Prop :=
  ∀ c ∈ o.cookiesOf bound, Cookies.Whole c.2.toList

instance (o : Operation) (bound : Entries String Value) : Decidable (o.WholeCookies bound) :=
  inferInstanceAs (Decidable (∀ c ∈ _, _))

theorem isName_of_cookiesOf {o : Operation}
    (hn : ∀ p ∈ o.parametersAt .cookie, Cookies.IsName p.name) {bound : Entries String Value} :
    ∀ c ∈ o.cookiesOf bound, Cookies.IsName c.1 := by
  intro c hc
  obtain ⟨e, he, hc⟩ := List.mem_filterMap.mp hc
  split at hc
  · next hl =>
    obtain ⟨s, -, rfl⟩ := Option.map_eq_some_iff.mp hc
    have hkeys : o.arguments.keys.Nodup := Entries.nodup_keys_overlay _ List.nodup_nil
    obtain ⟨hp, -⟩ := mem_entry_of_arguments (Entries.get?_of_mem hkeys he)
    exact hn e.2 (List.mem_filter.mpr ⟨hp, by simpa using hl⟩)
  · cases hc

namespace PassesCookies

variable {o : Operation} {a : Arguments} {bound : Entries String Value}
  (h : o.PassesCookies a bound)

include h

theorem written_eq : (o.valuesAt bound .cookie).map (fun p => p.1.name ++ "=" ++ p.2.wireText) =
    (o.cookiesOf bound).map Cookies.written := by
  rw [valuesAt, cookiesOf, List.map_filterMap, List.map_filterMap]
  refine List.filterMap_congr fun e he => ?_
  by_cases hl : e.2.location = .cookie
  · have hv : (bound.get? e.1).getD .null = .null ∨ ∃ s, (bound.get? e.1).getD .null = .str s := by
      have ht := h.texts e he hl
      cases hv : (bound.get? e.1).getD .null with
      | null => exact .inl rfl
      | str s => exact .inr ⟨s, rfl⟩
      | _ =>
        rw [hv] at ht
        rcases ht with ht | ht <;> cases ht
    rcases hv with hv | ⟨s, hv⟩
    · simp [hl, hv, Value.kind, Value.str?]
    · have htext : (Value.str s).wireText = s := rfl
      simp [hl, hv, Value.kind, Value.str?, htext, Cookies.written]
  · simp [hl]

theorem headers_cookie : (o.headers bound).get? "Cookie" =
    some (.str (joined "; " ((o.cookiesOf bound).map Cookies.written))) := by
  have hcookies : o.cookieHeader bound =
      [("Cookie", .str (joined "; " ((o.cookiesOf bound).map Cookies.written)))] := by
    have hsome : (o.cookiesOf bound).map Cookies.written ≠ [] := by simpa using h.passed
    rw [cookieHeader, h.written_eq]
    split
    · next hnil => exact absurd hnil hsome
    · rfl
  rw [headers, Entries.ofList, Entries.get?_overlay, hcookies, List.reverse_append,
    Entries.get?_append]
  rfl

theorem prepare_cookies (base : Option String) (query : Entries String Value) :
    match o.prepare base query a with
    | .ok r => r.cookies? = some (.str (joined "; " ((o.cookiesOf bound).map Cookies.written)))
    | .error f => o.OtherFault a bound f := by
  rcases prepare_cases h.binds base query with ⟨f, hf, hother⟩ | ⟨further, own, sent, -, hs, ho, hr⟩
  · rwa [hf]
  rw [hr]
  have hown : own.headers = [] := by
    rw [headers_of_settingsOf hs, Arguments.ownHeaders, h.settings]
    rfl
  refine get?_of_optionsFor ho ?_ h.headers_cookie ?_
  · rw [hown]
    exact List.not_mem_nil
  · intro he
    exact absurd he (by decide)

end PassesCookies

/-- The header of a call is read as what the call passes exactly if no value that it passes holds the
separator. So two such calls have one header only if they pass the same cookies. -/
theorem tellsCookies_iff {o : Operation} (hn : ∀ p ∈ o.parametersAt .cookie, Cookies.IsName p.name)
    {a : Arguments} {bound : Entries String Value} (h : o.PassesCookies a bound)
    (base : Option String) (query : Entries String Value) :
    match o.prepare base query a with
    | .ok r => (o.TellsCookies bound r ↔ o.WholeCookies bound) ∧
        ∀ other values base' query' s, o.PassesCookies other values →
          o.prepare base' query' other = .ok s → o.WholeCookies bound → o.WholeCookies values →
            r.cookies? = s.cookies? → o.cookiesOf bound = o.cookiesOf values
    | .error f => o.OtherFault a bound f := by
  have hprepare := h.prepare_cookies base query
  cases hr : o.prepare base query a with
  | error f => rwa [hr] at hprepare
  | ok r =>
    rw [hr] at hprepare
    have hread {values} (hv : o.cookiesOf values ≠ []) :=
      Cookies.read_joined_iff hv (isName_of_cookiesOf hn)
    constructor
    · rw [WholeCookies, ← hread h.passed, TellsCookies, hprepare]
      constructor
      · rintro ⟨header, hheader, he⟩
        cases hheader
        exact he
      · exact fun he => ⟨_, rfl, he⟩
    · intro other values base' query' s hother hs hw hw' he
      have hprepare' := hother.prepare_cookies base' query'
      rw [hs] at hprepare'
      rw [hprepare, hprepare'] at he
      have hheader := Value.str.inj (Option.some.inj he)
      rw [← (hread h.passed).mpr hw, hheader, (hread hother.passed).mpr hw']

end Operation

def sessionDocument : Entries Key Value :=
  [(.str "openapi", .str "3.0.0"),
    (.str "info", Value.object [("title", .str "T"), ("version", .str "1")]),
    (.str "paths", Value.object [("/session", Value.object [("get", Value.object [
      ("tags", .list [.str "auth"]),
      ("operationId", .str "getSession"),
      ("parameters", .list (["sid", "role"].map fun name => Value.object [
        ("name", .str name), ("in", .str "cookie"),
        ("schema", Value.object [("type", .str "string")])])),
      ("responses", Value.object [])])])])]

def sessionCookie (name argument : String) : Parameter where
  name := name
  argument := argument
  location := .cookie
  required := false
  style := none
  explode := false
  formatter := .form
  description := none
  codec := .string

/-- The operation takes nothing but its two cookies. -/
def Operation.OnSession (o : Operation) : Prop :=
  o.parameters = [sessionCookie "sid" "sid", sessionCookie "role" "role"] ∧ o.body = none

def sessionCall (sid : String) (role : Value) : Arguments :=
  ⟨[], [("sid", .str sid), ("role", role)], none⟩

theorem argumentNames_session :
    Naming.argumentNames ["sid", "role"] = [("sid", "sid"), ("role", "role")] := by
  have hsorted : ["sid", "role"].mergeSort (fun a b => a.length ≤ b.length) = ["sid", "role"] :=
    List.mergeSort_of_pairwise (by decide)
  rw [Naming.argumentNames, hsorted]
  decide +kernel

theorem Api.compile_session : ∃ api d, ∃ o ∈ api.operations,
    (Api.compile sessionDocument .default .null).run .start = (.ok api, d) ∧ o.OnSession := by
  obtain ⟨api, d, hr⟩ := Compile.exists_run (c := .start)
    (x := Api.compile sessionDocument .default .null) (by decide +kernel)
  -- the names of the arguments are found by sorting, which does not compute, and are left as they stand
  have hall : ((Api.compile sessionDocument .default .null).run .start).1.toOption.map
      (fun api => api.operations.map fun o => (o.parameters, o.body)) =
        some [(Parameter.requiredFirst [] ++ ["sid", "role"].map fun name => sessionCookie name
          (((Naming.argumentNames ["sid", "role"]).get? name).getD ""), none)] := by rfl
  rw [hr, argumentNames_session] at hall
  obtain ⟨o, ho, hp, hb⟩ : ∃ o, api.operations = [o] ∧
      o.parameters = [sessionCookie "sid" "sid", sessionCookie "role" "role"] ∧ o.body = none := by
    simpa [Parameter.requiredFirst, Entries.get?, Except.toOption] using hall
  exact ⟨api, d, o, by simp [ho], hr, hp, hb⟩

namespace Operation.OnSession

variable {o : Operation} (h : o.OnSession)

include h

theorem names : ∀ p ∈ o.parametersAt .cookie, Cookies.IsName p.name := by
  rw [parametersAt, h.1]
  decide +kernel

theorem arguments_eq : o.arguments =
    [("sid", sessionCookie "sid" "sid"), ("role", sessionCookie "role" "role")] := by
  rw [arguments, h.1]
  rfl

theorem passesCookies (s : String) {role : Value} (hrole : role.kind = .null ∨ role.kind = .str) :
    ∃ bound, o.PassesCookies (sessionCall s role) bound ∧
      o.cookiesOf bound = ("sid", s) :: (role.str?.map fun t => ("role", t)).toList ∧
      ∃ r, o.prepare none [] (sessionCall s role) = .ok r := by
  have hsignature : o.signature = [⟨"sid", false, false⟩, ⟨"role", false, false⟩,
      ⟨"query", false, false⟩, ⟨"opts", false, false⟩] := by
    rw [signature, parameterSlots, parameterSlots, bodySlots, h.arguments_eq, h.2]
    rfl
  have hbind : o.bind (sessionCall s role) =
      .ok [("sid", .str s), ("role", role), ("query", .null), ("opts", .null)] := by
    rw [bind, hsignature]
    rfl
  have hcookies : o.cookiesOf [("sid", .str s), ("role", role), ("query", .null), ("opts", .null)] =
      ("sid", s) :: (role.str?.map fun t => ("role", t)).toList := by
    rw [cookiesOf, h.arguments_eq]
    cases role <;> rfl
  refine ⟨_, ⟨hbind, rfl, ?_, by simp [hcookies]⟩, hcookies, ?_⟩
  · rw [h.arguments_eq]
    intro e he _
    rcases List.mem_cons.mp he with rfl | he
    · exact .inr rfl
    · cases List.mem_singleton.mp he
      exact hrole
  · obtain ⟨-, -, r, -, hr, -⟩ := exists_prepared hbind rfl rfl rfl
      (fun b hb => absurd (h.2.symm.trans hb) (by simp)) none []
    exact ⟨r, hr⟩

end Operation.OnSession

theorem Api.tellsCookies_iff_marked : ∃ api d, ∃ o ∈ api.operations,
    (Api.compile sessionDocument .default .null).run .start = (.ok api, d) ∧
      (∀ p ∈ o.parametersAt .cookie, Cookies.IsName p.name) ∧ ∃ bound other r s,
        o.PassesCookies (sessionCall "a;b=c;" (.str " =;")) bound ∧
        o.prepare none [] (sessionCall "a;b=c;" (.str " =;")) = .ok r ∧
        o.PassesCookies (sessionCall "a;b=c" .null) other ∧
        o.prepare none [] (sessionCall "a;b=c" .null) = .ok s ∧
          o.TellsCookies bound r ∧ r.cookies? ≠ s.cookies? := by
  have htext : (Value.str " =;").kind = .null ∨ (Value.str " =;").kind = .str := .inr rfl
  have hnull : Value.null.kind = .null ∨ Value.null.kind = .str := .inl rfl
  obtain ⟨api, d, o, ho, hr, hsession⟩ := Api.compile_session
  obtain ⟨bound, hpasses, hcookies, r, hprepare⟩ := hsession.passesCookies "a;b=c;" htext
  obtain ⟨other, hother, hcookies', s, hprepare'⟩ := hsession.passesCookies "a;b=c" hnull
  have hwhole : o.WholeCookies bound := by
    rw [Operation.WholeCookies, hcookies]
    decide +kernel
  have hwhole' : o.WholeCookies other := by
    rw [Operation.WholeCookies, hcookies']
    decide +kernel
  have hiff := Operation.tellsCookies_iff hsession.names hpasses none []
  rw [hprepare] at hiff
  refine ⟨api, d, o, ho, hr, hsession.names, bound, other, r, s, hpasses, hprepare, hother,
    hprepare', hiff.1.mpr hwhole, fun he => ?_⟩
  have hsame := hiff.2 _ other none [] s hother hprepare' hwhole hwhole' he
  rw [hcookies, hcookies'] at hsame
  exact absurd hsame (by decide)

/-- A value that holds the separator is read as a cookie that was not passed. A call that does pass that
cookie has the same header. -/
theorem Api.not_tellsCookies_forged : ∃ api d, ∃ o ∈ api.operations,
    (Api.compile sessionDocument .default .null).run .start = (.ok api, d) ∧
      (∀ p ∈ o.parametersAt .cookie, Cookies.IsName p.name) ∧ ∃ bound other r s,
        o.PassesCookies (sessionCall "a; role=admin" .null) bound ∧
        o.prepare none [] (sessionCall "a; role=admin" .null) = .ok r ∧
        o.PassesCookies (sessionCall "a" (.str "admin")) other ∧
        o.prepare none [] (sessionCall "a" (.str "admin")) = .ok s ∧
          o.cookiesOf bound = [("sid", "a; role=admin")] ∧
          o.cookiesOf other = [("sid", "a"), ("role", "admin")] ∧
          r.cookies? = s.cookies? ∧ ¬ o.TellsCookies bound r := by
  have htext : (Value.str "admin").kind = .null ∨ (Value.str "admin").kind = .str := .inr rfl
  have hnull : Value.null.kind = .null ∨ Value.null.kind = .str := .inl rfl
  obtain ⟨api, d, o, ho, hr, hsession⟩ := Api.compile_session
  obtain ⟨bound, hpasses, hcookies, r, hprepare⟩ := hsession.passesCookies "a; role=admin" hnull
  obtain ⟨other, hother, hcookies', s, hprepare'⟩ := hsession.passesCookies "a" htext
  have hheader := hpasses.prepare_cookies none []
  have hheader' := hother.prepare_cookies none []
  rw [hprepare, hcookies] at hheader
  rw [hprepare', hcookies'] at hheader'
  refine ⟨api, d, o, ho, hr, hsession.names, bound, other, r, s, hpasses, hprepare, hother,
    hprepare', hcookies, hcookies', ?_, ?_⟩
  · exact hheader.trans hheader'.symm
  · rintro ⟨header, he, hread⟩
    rw [hheader] at he
    cases he
    rw [hcookies] at hread
    exact absurd hread (by decide +kernel)

end OpenApi
