import OpenApi.Proofs.Codec.Flat
/-! # Schemas that admit null twice

A nullable schema compiles to a `maybe`, and so does an enumeration with null among other literals.
Where the first is said of the second, one `maybe` stands in another one. Only such schemas have a
codec that is not flat. -/
namespace OpenApi.Schema

inductive AdmitsNull : Schema → Prop where
  | nullable {s : Schema} : AdmitsNull (.nullable s)
  | enumeration {literals : List Value} (hnull : ∃ v ∈ literals, v.kind = .null)
      (hgiven : ∃ v ∈ literals, v.kind ≠ .null) : AdmitsNull (.enumeration literals)
  | intersection {s : Schema} (h : AdmitsNull s) : AdmitsNull (.intersection [s])

/-- Somewhere in the schema, apart from the targets of its references, null is admitted by what is
nullable already. -/
inductive NullTwice : Schema → Prop where
  | here {s : Schema} (h : AdmitsNull s) : NullTwice (.nullable s)
  | nullable {s : Schema} (h : NullTwice s) : NullTwice (.nullable s)
  | optional {s : Schema} (h : NullTwice s) : NullTwice (.optional s)
  | union {members : List Schema} {s : Schema} (hs : s ∈ members) (h : NullTwice s) :
      NullTwice (.union members)
  | intersection {members : List Schema} {s : Schema} (hs : s ∈ members) (h : NullTwice s) :
      NullTwice (.intersection members)
  | array {s : Schema} (h : NullTwice s) : NullTwice (.array s)
  | field {fields : List (Key × Schema)} {additional : Option Schema} {f : Key × Schema}
      (hf : f ∈ fields) (h : NullTwice f.2) : NullTwice (.object fields additional)
  | additional {fields : List (Key × Schema)} {s : Schema} (h : NullTwice s) :
      NullTwice (.object fields (some s))

open Codec (flat)

theorem map_eq_self_iff {α : Type} {f : α → α} {l : List α} : l.map f = l ↔ ∀ a ∈ l, f a = a := by
  induction l with
  | nil => exact ⟨fun _ => nofun, fun _ => rfl⟩
  | cons a rest ih => rw [List.map_cons, List.cons.injEq, ih, List.forall_mem_cons]

variable {f : String → Except Fault Codec} {c : Codec}

theorem foldl_intersect_flat (cs : List Codec) (c : Codec) :
    (cs.foldl .intersect c).flat = cs.foldl .intersect c ↔ c.flat = c ∧ ∀ d ∈ cs, d.flat = d := by
  induction cs generalizing c with
  | nil => exact ⟨fun h => ⟨h, nofun⟩, fun h => h.1⟩
  | cons d rest ih =>
    rw [List.foldl_cons, ih, Codec.flat, Codec.intersect.injEq, List.forall_mem_cons, and_assoc]

theorem isMaybe_foldl_intersect (cs : List Codec) (c d : Codec) :
    (cs.foldl .intersect (c.intersect d)).isMaybe = false := by
  induction cs generalizing c d with
  | nil => rfl
  | cons e rest ih => exact ih _ e

theorem choice_flat (vs : List Value) : (choice vs).flat = choice vs ∧ (choice vs).isMaybe = false := by
  have hall : (Codec.oneOf (vs.map Codec.exactly)).flat = .oneOf (vs.map Codec.exactly) := by
    rw [flat, Codec.flatAll_eq, List.map_map]
    rfl
  rcases vs with _ | ⟨v, _ | ⟨w, rest⟩⟩
  · exact ⟨hall, rfl⟩
  · exact ⟨rfl, rfl⟩
  · exact ⟨hall, rfl⟩

theorem enumerationCodec_flat {literals : List Value} (hc : enumerationCodec literals = .ok c) :
    c.flat = c := by
  obtain ⟨hflat, hmaybe⟩ := choice_flat (givenLiterals literals)
  rcases enumerationCodec_cases hc with ⟨rfl, -⟩ | ⟨-, ⟨rfl, -⟩ | ⟨rfl, -⟩⟩
  · rfl
  · rw [Codec.flat_maybe, hflat, Codec.given_of_not_isMaybe hmaybe]
  · exact hflat

theorem length_givenLiterals {literals : List Value} :
    (givenLiterals literals).length = literals.length ↔ ¬ ∃ v ∈ literals, v.kind = .null := by
  rw [givenLiterals, List.length_filter_eq_length_iff]
  simp

theorem givenLiterals_eq_nil {literals : List Value} :
    givenLiterals literals = [] ↔ ¬ ∃ v ∈ literals, v.kind ≠ .null := by
  rw [givenLiterals, List.filter_eq_nil_iff]
  simp

theorem enumerationCodec_isMaybe {literals : List Value} (hc : enumerationCodec literals = .ok c) :
    c.isMaybe = true ↔ (∃ v ∈ literals, v.kind = .null) ∧ ∃ v ∈ literals, v.kind ≠ .null := by
  obtain ⟨-, hmaybe⟩ := choice_flat (givenLiterals literals)
  rcases enumerationCodec_cases hc with ⟨rfl, hnil⟩ | ⟨hne, ⟨rfl, hlen⟩ | ⟨rfl, hlen⟩⟩
  · rw [givenLiterals_eq_nil] at hnil
    exact ⟨nofun, fun h => absurd h.2 hnil⟩
  · rw [Ne, length_givenLiterals, not_not] at hlen
    rw [Ne, givenLiterals_eq_nil, not_not] at hne
    exact ⟨fun _ => ⟨hlen, hne⟩, fun _ => rfl⟩
  · rw [length_givenLiterals] at hlen
    rw [hmaybe]
    exact ⟨nofun, fun h => absurd h.1 hlen⟩

theorem isMaybe_objectCodec (fields : List (Key × Codec)) (additional : Option Codec) :
    (objectCodec fields additional).isMaybe = false := by
  cases additional with
  | none => rfl
  | some d => cases fields <;> rfl

theorem isMaybe_iff {s : Schema} (hm : ∀ r ∈ s.refs, ∀ c, f r = .ok c → c.isMaybe = false)
    (hc : s.compile f = .ok c) : c.isMaybe = true ↔ s.AdmitsNull := by
  induction s generalizing c with
  | any | string | number | boolean | null | date =>
    cases hc
    exact ⟨nofun, nofun⟩
  | malformed => cases hc
  | ref p =>
    rw [hm p (List.mem_singleton_self p) c hc]
    exact ⟨nofun, nofun⟩
  | nullable s _ =>
    obtain ⟨b, -, he⟩ := bind_eq_ok.mp hc
    cases he
    exact ⟨fun _ => .nullable, fun _ => rfl⟩
  | optional s _ | array s _ | union members _ =>
    obtain ⟨b, -, he⟩ := bind_eq_ok.mp hc
    cases he
    exact ⟨nofun, nofun⟩
  | enumeration literals =>
    rw [enumerationCodec_isMaybe (ofExcept_eq_ok.mp hc)]
    constructor
    · rintro ⟨hnull, hgiven⟩
      exact .enumeration hnull hgiven
    · rintro ⟨⟩
      exact ⟨‹_›, ‹_›⟩
  | object fields additional _ _ =>
    have hc' : c.isMaybe = false := by
      cases additional with
      | none =>
        obtain ⟨cs, -, he⟩ := bind_eq_ok.mp hc
        cases he
        rfl
      | some s =>
        obtain ⟨cs, -, hmore⟩ := bind_eq_ok.mp hc
        obtain ⟨b, -, he⟩ := bind_eq_ok.mp hmore
        cases he
        exact isMaybe_objectCodec cs (some b)
    rw [hc']
    exact ⟨nofun, nofun⟩
  | intersection members ih =>
    obtain ⟨cs, hcs, he⟩ := bind_eq_ok.mp hc
    have hcodec := ofExcept_eq_ok.mp he
    rw [compileAll_eq_ok] at hcs
    cases hcs with
    | nil => cases hcodec
    | @cons s b rest ds hb hrest =>
      cases hcodec
      cases hrest with
      | nil =>
        have hrefs := fun r hr => hm r (mem_all_refs List.mem_cons_self hr)
        rw [List.foldl_nil, ih s List.mem_cons_self hrefs hb]
        constructor
        · exact .intersection
        · rintro ⟨⟩
          assumption
      | cons _ _ =>
        rw [List.foldl_cons, isMaybe_foldl_intersect]
        exact ⟨nofun, nofun⟩

theorem members_flat_iff {members : List Schema} {cs : List Codec}
    (h : ∀ s ∈ members, ∀ c, s.compile f = .ok c → (c.flat = c ↔ ¬ s.NullTwice))
    (hcs : compile.compileAll f members = .ok cs) :
    (∀ c ∈ cs, c.flat = c) ↔ ∀ s ∈ members, ¬ s.NullTwice := by
  rw [compileAll_eq_ok] at hcs
  obtain ⟨hleft, hright⟩ := partners hcs
  constructor
  · intro hflat s hs
    obtain ⟨c, hc, hsc⟩ := hleft s hs
    exact (h s hs c hsc).mp (hflat c hc)
  · intro hs c hc
    obtain ⟨s, hmem, hsc⟩ := hright c hc
    exact (h s hmem c hsc).mpr (hs s hmem)

theorem fields_flat_iff {fields : List (Key × Schema)} {cs : List (Key × Codec)}
    (h : ∀ e ∈ fields, ∀ c, e.2.compile f = .ok c → (c.flat = c ↔ ¬ e.2.NullTwice))
    (hcs : compile.compileFields f fields = .ok cs) :
    (Codec.interface cs).flat = .interface cs ↔ ∀ e ∈ fields, ¬ e.2.NullTwice := by
  rw [compileFields_eq_ok] at hcs
  obtain ⟨hleft, hright⟩ := partners hcs
  rw [flat, Codec.flatFields_eq, Codec.interface.injEq, map_eq_self_iff]
  constructor
  · intro hflat e he
    obtain ⟨c, hc, -, hsc⟩ := hleft e he
    exact (h e he c.2 hsc).mp (congrArg Prod.snd (hflat c hc))
  · intro hs c hc
    obtain ⟨e, he, -, hsc⟩ := hright c hc
    exact Prod.ext rfl ((h e he c.2 hsc).mpr (hs e he))

theorem objectCodec_flat_iff (fields : List (Key × Codec)) (d : Codec) :
    (objectCodec fields (some d)).flat = objectCodec fields (some d) ↔
      (Codec.interface fields).flat = .interface fields ∧ d.flat = d := by
  cases fields with
  | nil => exact ⟨fun h => ⟨rfl, Codec.record.inj h⟩, fun h => congrArg Codec.record h.2⟩
  | cons e rest =>
    show (Codec.intersect _ (.record d.flat)) = .intersect _ (.record d) ↔ _
    rw [Codec.intersect.injEq, Codec.record.injEq]

/-- The codec of a schema is flat unless null is admitted twice. -/
theorem flat_iff {s : Schema}
    (hm : ∀ r ∈ s.refs, ∀ c, f r = .ok c → c.isMaybe = false ∧ c.flat = c)
    (hc : s.compile f = .ok c) : c.flat = c ↔ ¬ s.NullTwice := by
  induction s generalizing c with
  | any | string | number | boolean | null | date =>
    cases hc
    exact ⟨fun _ => nofun, fun _ => rfl⟩
  | malformed => cases hc
  | ref p => exact ⟨fun _ => nofun, fun _ => (hm p (List.mem_singleton_self p) c hc).2⟩
  | enumeration literals =>
    exact ⟨fun _ => nofun, fun _ => enumerationCodec_flat (ofExcept_eq_ok.mp hc)⟩
  | nullable s ih =>
    obtain ⟨b, hb, he⟩ := bind_eq_ok.mp hc
    cases he
    have hadmits : b.isMaybe = true ↔ s.AdmitsNull :=
      isMaybe_iff (fun r hr c h => (hm r hr c h).1) hb
    rw [Codec.flat_maybe, Codec.maybe.injEq, Codec.given_flat_eq_iff, ih hm hb,
      ← Bool.not_eq_true, hadmits]
    constructor
    · rintro ⟨hone, htwice⟩ (h | h)
      · exact hone h
      · exact htwice h
    · exact fun h => ⟨fun hs => h (.here hs), fun hs => h (.nullable hs)⟩
  | optional s ih =>
    obtain ⟨b, hb, he⟩ := bind_eq_ok.mp hc
    cases he
    rw [flat, Codec.optional.injEq, ih hm hb]
    exact ⟨fun h hs => by cases hs; exact h ‹_›, fun h hs => h (.optional hs)⟩
  | array s ih =>
    obtain ⟨b, hb, he⟩ := bind_eq_ok.mp hc
    cases he
    rw [flat, Codec.array.injEq, ih hm hb]
    exact ⟨fun h hs => by cases hs; exact h ‹_›, fun h hs => h (.array hs)⟩
  | union members ih =>
    obtain ⟨cs, hcs, he⟩ := bind_eq_ok.mp hc
    cases he
    have hall := fun s hs c => @ih s hs c fun r hr => hm r (mem_all_refs hs hr)
    rw [flat, Codec.flatAll_eq, Codec.oneOf.injEq, map_eq_self_iff, members_flat_iff hall hcs]
    constructor
    · rintro h ⟨⟩
      exact h _ ‹_› ‹_›
    · exact fun h s hs hn => h (.union hs hn)
  | intersection members ih =>
    obtain ⟨cs, hcs, he⟩ := bind_eq_ok.mp hc
    have hall := fun s hs c => @ih s hs c fun r hr => hm r (mem_all_refs hs hr)
    have hcodec : c.flat = c ↔ ∀ d ∈ cs, d.flat = d := by
      cases cs with
      | nil => cases he
      | cons d rest =>
        cases he
        rw [foldl_intersect_flat, List.forall_mem_cons]
    rw [hcodec, members_flat_iff hall hcs]
    constructor
    · rintro h ⟨⟩
      exact h _ ‹_› ‹_›
    · exact fun h s hs hn => h (.intersection hs hn)
  | object fields additional ihf iha =>
    cases additional with
    | none =>
      obtain ⟨cs, hcs, he⟩ := bind_eq_ok.mp hc
      cases he
      have hall := fun e he c => @ihf e he c fun r hr => hm r (mem_field_refs he hr)
      rw [objectCodec, fields_flat_iff hall hcs]
      constructor
      · rintro h ⟨⟩
        exact h _ ‹_› ‹_›
      · exact fun h e he hn => h (.field he hn)
    | some s =>
      obtain ⟨cs, hcs, hmore⟩ := bind_eq_ok.mp hc
      obtain ⟨b, hb, he⟩ := bind_eq_ok.mp hmore
      cases he
      have hall := fun e he c =>
        @ihf e he c fun r hr => hm r (List.mem_append_left _ (mem_field_refs he hr))
      have hb' := iha s rfl (fun r hr => hm r (List.mem_append_right _ hr)) hb
      rw [objectCodec_flat_iff, fields_flat_iff hall hcs, hb']
      constructor
      · rintro ⟨hf, ha⟩ ⟨⟩
        · exact hf _ ‹_› ‹_›
        · exact ha ‹_›
      · exact fun h => ⟨fun e he hn => h (.field he hn), fun hn => h (.additional hn)⟩

end OpenApi.Schema
