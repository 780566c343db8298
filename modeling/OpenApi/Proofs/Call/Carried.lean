import OpenApi.Proofs.Call.Arguments
import OpenApi.Proofs.Call.Prepared
/-! # Where the values of a call go

A call gives values to the parameters of an operation, and the request carries each of them where
its parameter says. This holds of an operation exactly if its parameters have different names, in
whatever locations they are, and if no header parameter is named like a header that the cookies or
the body of a call give. -/
namespace OpenApi

namespace Operation

def parametersAt (o : Operation) (location : Location) : List Parameter :=
  o.parameters.filter fun p => p.location = location

/-- The values stand in the request where their parameters say: behind the placeholders of the
path, in the query string, and in headers, unless the call has own ones of these names. -/
structure Carries (o : Operation) (query : Entries String Value) (own : Headers)
    (value : Parameter → Value) (r : Prepared) : Prop where
  url : ∃ paths further,
    (∀ p ∈ o.parametersAt .path, (Url.Segment.parameter p.name).render paths =
      Text.encodeComponent (value p).wireText) ∧
    r.url = Query.append (o.template.render paths ++
      Query.join ((o.parametersAt .query).map fun p =>
        p.formatter.write [(.str p.name, value p)])) further (query.map fun e => (.str e.1, e.2))
  header : ∀ p ∈ o.parametersAt .header, p.name ∉ own.keys →
    r.options.headers.get? p.name = some (.str (value p).wireText)
  cookie : o.parametersAt .cookie ≠ [] → "Cookie" ∉ own.keys →
    r.options.headers.get? "Cookie" = some (.str (joined "; " ((o.parametersAt .cookie).map
      fun p => p.name ++ "=" ++ (value p).wireText)))

/-- Every parameter has an argument of its own, to which a call can give any value, and if a call
gives values to all of them, then they are carried, or else another argument is at fault. -/
structure KeepsParameters (o : Operation) : Prop where
  arguments : o.arguments.values = o.parameters
  assigns : o.Callable → ∀ value : Parameter → Value, ∃ a bound, o.bind a = .ok bound ∧
    ∀ p ∈ o.parameters, valueOf bound p = value p
  carries : ∀ base query a bound, o.bind a = .ok bound →
    (∀ p ∈ o.parameters, (valueOf bound p).kind ≠ .null) →
      match o.prepare base query a with
      | .ok r => o.Carries query a.ownHeaders (valueOf bound) r
      | .error f => o.OtherFault a bound f

def CookieTwice (o : Operation) : Prop :=
  (∃ p ∈ o.parametersAt .header, p.name = "Cookie") ∧ o.parametersAt .cookie ≠ []

def TypeTwice (o : Operation) : Prop :=
  (∃ p ∈ o.parametersAt .header, p.name = "Content-Type") ∧
    ∃ b ∈ o.body, b.encoding = some .json ∨ b.encoding = some .form

instance (o : Operation) : Decidable o.CookieTwice := inferInstanceAs (Decidable (_ ∧ _))

instance (o : Operation) : Decidable o.TypeTwice := inferInstanceAs (Decidable (_ ∧ _))

theorem keys_names {α : Type} (f : Parameter → α) (ps : List Parameter) :
    Entries.keys (ps.map fun p => (p.name, f p)) = ps.map Parameter.name := by
  simp [Entries.keys, Function.comp_def]

theorem names_nodup_at {o : Operation} (hd : (o.parameters.map Parameter.name).Nodup)
    (location : Location) : ((o.parametersAt location).map Parameter.name).Nodup :=
  hd.sublist (List.filter_sublist.map _)

theorem keys_paths {o : Operation} (hd : (o.parameters.map Parameter.name).Nodup)
    (value : Parameter → Value) :
    (Entries.keys ((o.parametersAt .path).map fun p => (p.name, value p))).Nodup := by
  rw [keys_names]
  exact names_nodup_at hd .path

section Given

variable {o : Operation} {bound : Entries String Value} (h : Parameter.Named o.parameters)
  (hd : (o.parameters.map Parameter.name).Nodup)
  (hv : ∀ p ∈ o.parameters, (valueOf bound p).kind ≠ .null)

include h hd hv

theorem valuesAt_eq (location : Location) : o.valuesAt bound location =
    (o.parametersAt location).map fun p => (p, valueOf bound p) := by
  have hone : ∀ p ∈ o.parameters, ((fun a : String × Parameter =>
      let v := (bound.get? a.1).getD .null
      if a.2.location = location ∧ v.kind ≠ .null then some (a.2, v) else none) ∘
        fun p => (p.slotName, p)) p =
      if p.location = location then some (p, valueOf bound p) else none := by
    intro p hp
    have hpv : ((bound.get? p.slotName).getD .null).kind ≠ .null := hv p hp
    by_cases hl : p.location = location
    · simp [hl, hpv, valueOf]
    · simp [hl]
  rw [valuesAt, arguments_eq h hd, List.filterMap_map, List.filterMap_congr hone, parametersAt]
  clear h hd hv hone
  induction o.parameters with
  | nil => rfl
  | cons p ps ih => by_cases hl : p.location = location <;> simp [hl, ih]

theorem url_eq : o.url bound =
    o.template.render ((o.parametersAt .path).map fun p => (p.name, valueOf bound p)) ++
      Query.join ((o.parametersAt .query).map fun p =>
        p.formatter.write [(.str p.name, valueOf bound p)]) := by
  rw [url, valuesAt_eq h hd hv, valuesAt_eq h hd hv, List.map_map, List.map_map]
  rw [← Entries.ofList_of_nodup (keys_paths hd _)]
  rfl

theorem cookieHeader_eq : o.cookieHeader bound =
    if o.parametersAt .cookie = [] then []
    else [("Cookie", .str (joined "; " ((o.parametersAt .cookie).map
      fun p => p.name ++ "=" ++ (valueOf bound p).wireText)))] := by
  rw [cookieHeader, valuesAt_eq h hd hv, List.map_map]
  cases o.parametersAt .cookie with
  | nil => rfl
  | cons p ps => rfl

theorem headers_eq (hc : ¬ o.CookieTwice) : o.headers bound =
    ((o.parametersAt .header).map fun p => (p.name, .str (valueOf bound p).wireText)) ++
      o.cookieHeader bound := by
  rw [headers, valuesAt_eq h hd hv, List.map_map]
  apply Entries.ofList_of_nodup
  have hnames := names_nodup_at hd .header
  have hkeys := keys_names (fun p => Value.str (valueOf bound p).wireText) (o.parametersAt .header)
  simp only [Function.comp_def]
  rw [Entries.keys_append, hkeys, cookieHeader_eq h hd hv]
  split
  · simpa using hnames
  · rename_i hcookies
    refine List.nodup_append.2 ⟨hnames, by simp, ?_⟩
    rintro k hk _ hk' rfl
    obtain ⟨p, hp, rfl⟩ := List.mem_map.1 hk
    exact hc ⟨⟨p, hp, by simpa using hk'⟩, hcookies⟩

end Given

theorem carries_of_prepare {o : Operation} (h : Parameter.Named o.parameters)
    (hd : (o.parameters.map Parameter.name).Nodup) (hc : ¬ o.CookieTwice) (ht : ¬ o.TypeTwice)
    {a : Arguments} {bound : Entries String Value} (hb : o.bind a = .ok bound)
    (hv : ∀ p ∈ o.parameters, (valueOf bound p).kind ≠ .null) (base : Option String)
    (query : Entries String Value) :
    match o.prepare base query a with
    | .ok r => o.Carries query a.ownHeaders (valueOf bound) r
    | .error f => o.OtherFault a bound f := by
  rcases prepare_cases hb base query with ⟨f, hf, hother⟩ | ⟨further, own, sent, -, hs, ho, hr⟩
  · rwa [hf]
  rw [hr]
  have hown := headers_of_settingsOf hs
  have hh : (o.headers bound).keys.Nodup := Entries.nodup_keys_overlay _ List.nodup_nil
  have hheaders := headers_eq h hd hv hc
  constructor
  · refine ⟨(o.parametersAt .path).map fun p => (p.name, valueOf bound p), further, ?_, ?_⟩
    · intro p hp
      have hget := Entries.get?_of_mem (keys_paths hd (valueOf bound))
        (List.mem_map.2 ⟨p, hp, rfl⟩)
      simp only [Url.Segment.render, hget, Option.getD_some]
    · rw [← url_eq h hd hv]
  · intro p hp hnew
    refine get?_of_optionsFor ho (hown ▸ hnew) ?_ ?_
    · apply Entries.get?_of_mem hh
      rw [hheaders]
      exact List.mem_append_left _ (List.mem_map.2 ⟨p, hp, rfl⟩)
    · intro he b hbody
      constructor
      · exact fun hj => ht ⟨⟨p, hp, he⟩, b, hbody, .inl hj⟩
      · exact fun hf => ht ⟨⟨p, hp, he⟩, b, hbody, .inr hf⟩
  · intro hcookies hnew
    refine get?_of_optionsFor ho (hown ▸ hnew) ?_ ?_
    · apply Entries.get?_of_mem hh
      rw [hheaders, cookieHeader_eq h hd hv, if_neg hcookies]
      exact List.mem_append_right _ List.mem_cons_self
    · intro he
      exact absurd he (by decide)

theorem different_of_keepsParameters {o : Operation} (h : Parameter.Named o.parameters)
    (hk : o.KeepsParameters) : (o.parameters.map Parameter.name).Nodup := by
  apply names_nodup_of_arguments h
  have := congrArg List.length hk.arguments
  rwa [Entries.values, List.length_map] at this

theorem joined_ne_empty {separator part : String} (hp : part ≠ "") (rest : List String) :
    joined separator (part :: rest) ≠ "" := by
  cases rest with
  | nil => simpa [joined] using hp
  | cons next rest =>
    rw [joined, String.intercalate_cons_cons]
    simp [hp]

section Necessary

variable {o : Operation} (h : Parameter.Named o.parameters)
  (hd : (o.parameters.map Parameter.name).Nodup) (hcall : o.Callable)

include h hd hcall

theorem prepare_callWith (hk : o.KeepsParameters) (text : String) :
    ∃ bound own r, (∀ p ∈ o.parameters, valueOf bound p = .str text) ∧
      (∀ b, o.body = some b → bound.get? "body" = some (.dict [])) ∧
      o.optionsFor none bound own = .ok r.options ∧ o.Carries [] [] (valueOf bound) r := by
  have hb := bind_callWith h hd hcall (fun _ => .str text) (.dict [])
  have hvalue := fun p => valueOf_boundWith h hd hcall (fun _ => .str text) (.dict []) (p := p)
  have hkeys := keys_nodup_of_bind hb
  have hbody : ∀ b, o.body = some b →
      (o.boundWith (fun _ => .str text) (.dict [])).get? "body" = some (.dict []) :=
    fun b he => Entries.get?_of_mem hkeys (by simp [boundWith, positionalWith, bodySlots, he])
  have hquery : (o.boundWith (fun _ => .str text) (.dict [])).get? "query" = some .null :=
    Entries.get?_of_mem hkeys (by simp [boundWith])
  have hopts : (o.boundWith (fun _ => .str text) (.dict [])).get? "opts" = some .null :=
    Entries.get?_of_mem hkeys (by simp [boundWith])
  have hv : ∀ p ∈ o.parameters, (valueOf (o.boundWith (fun _ => .str text) (.dict [])) p).kind ≠
      .null := by
    intro p hp
    rw [hvalue p hp]
    exact Kind.noConfusion
  have hcarries := hk.carries none [] _ _ hb hv
  obtain ⟨own, sent, r, ho, hr, rfl⟩ := exists_prepared hb (by rw [hquery]; rfl) rfl
    (by rw [hopts]; rfl) (fun b he => .inr (by rw [hbody b he]; rfl)) none []
  rw [hr] at hcarries
  exact ⟨_, own, r, hvalue, hbody, ho, hcarries⟩

theorem not_cookieTwice (hk : o.KeepsParameters) : ¬ o.CookieTwice := by
  rintro ⟨⟨p, hp, hname⟩, hcookies⟩
  obtain ⟨bound, own, r, hvalue, -, -, hr⟩ := prepare_callWith h hd hcall hk ""
  have hheader := hr.header p hp (by simp)
  rw [hname, hr.cookie hcookies (by simp), hvalue p (List.mem_filter.1 hp).1] at hheader
  -- the cookies are no empty text
  cases hc : o.parametersAt .cookie with
  | nil => exact hcookies hc
  | cons q qs =>
    rw [hc, List.map_cons] at hheader
    refine joined_ne_empty ?_ _ (Value.str.inj (Option.some.inj hheader))
    simp

theorem not_typeTwice (hk : o.KeepsParameters) : ¬ o.TypeTwice := by
  rintro ⟨⟨p, hp, hname⟩, b, hb, hencoding⟩
  obtain ⟨bound, own, r, hvalue, hbody, ho, hr⟩ := prepare_callWith h hd hcall hk ""
  have hheader := hr.header p hp (by simp)
  rw [hname, hvalue p (List.mem_filter.1 hp).1] at hheader
  obtain ⟨options, -, ⟨hnull, -⟩ | ⟨b', hb', -, hc⟩⟩ := optionsFor_cases o none bound own
  · have := hnull b hb
    rw [hbody b hb] at this
    cases this
  · rw [hbody b hb] at hc
    cases hb.symm.trans hb'
    rw [ho] at hc
    unfold Body.encode at hc
    rcases hencoding with he | he
    · rw [he] at hc
      rw [CallOptions.headers_jsonBody hc.symm, Entries.get?_put, if_pos (by simp)] at hheader
      exact absurd (Value.str.inj (Option.some.inj hheader)) (by decide)
    · rw [he] at hc
      rw [CallOptions.headers_formBody hc.symm, Entries.get?_put, if_pos (by simp)] at hheader
      exact absurd (Value.str.inj (Option.some.inj hheader)) (by decide)

end Necessary

end Operation

def oneOperation (parameters : List (String × String × Bool)) : Entries Key Value :=
  [(.str "openapi", .str "3.0.0"),
    (.str "info", Value.object [("title", .str "T"), ("version", .str "1")]),
    (.str "paths", Value.object [("/things/\x7bid\x7d", Value.object [("get", Value.object [
      ("tags", .list [.str "things"]),
      ("operationId", .str "getThing"),
      ("parameters", .list (parameters.map fun p => Value.object [
        ("name", .str p.1), ("in", .str p.2.1), ("required", .bool p.2.2),
        ("schema", Value.object [("type", .str "string")])])),
      ("responses", Value.object [])])])])]

def fourLocations : Entries Key Value := oneOperation [("id", "path", true), ("q", "query", false),
  ("X-Trace", "header", false), ("sid", "cookie", false)]

def twoIds : Entries Key Value := oneOperation [("id", "path", true), ("id", "query", true)]

def idAt (location : Location) : Parameter where
  name := "id"
  argument := ((Naming.argumentNames ["id", "id"]).get? "id").getD ""
  location := location
  required := true
  style := none
  explode := false
  formatter := .form
  description := none
  codec := .string

end OpenApi
