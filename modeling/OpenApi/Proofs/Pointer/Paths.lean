import OpenApi.Pointer
import OpenApi.Proofs.Decimal.Numeral
import OpenApi.Proofs.Query.Fields
/-! # Every node has a pointer

A path of keys and places leads from a document to each of its nodes. What is written for a path is cut at its
slashes, and each piece is read back as the step that it was written for: no escape is found in a name that was
not put there, since a tilde is escaped before and a percent sign after it. -/
namespace OpenApi

namespace Pointer

/-- A step from a node to a part of it. -/
inductive Step where
  | key (name : String)
  | index (i : Nat)

def Step.name : Step → String
  | key name => name
  | index i => toString i

inductive Leads : Value → List Step → Value → Prop where
  | here (v : Value) : Leads v [] v
  | key {es : Entries Key Value} {name : String} {part v : Value} {path : List Step}
      (entry : es.get? (.str name) = some part) (rest : Leads part path v) :
      Leads (.dict es) (.key name :: path) v
  | index {items : List Value} {i : Nat} {part v : Value} {path : List Step}
      (place : items[i]? = some part) (rest : Leads part path v) :
      Leads (.list items) (.index i :: path) v

def escapeChar (c : Char) : List Char :=
  if c = '~' then ['~', '0'] else if c = '/' then ['~', '1'] else [c]

/-- A name with its tildes and slashes escaped, and then percent encoded but for the safe characters. -/
def writeName (safe : Char → Bool) (name : String) : List Char :=
  (name.toList.flatMap escapeChar).flatMap (Text.percentChar safe)

def Step.write (safe : Char → Bool) : Step → List Char
  | key name => writeName safe name
  | index i => (toString i).toList

def ofPath (safe : Char → Bool) (path : List Step) : String :=
  "#/" ++ joined "/" (path.map fun s => String.ofList (s.write safe))

theorem unescape_cons {c : Char} (h : c ≠ '~') (rest : List Char) :
    unescape (c :: rest) = c :: unescape rest := by
  rw [unescape]
  all_goals
    rintro rest' rfl
    exact absurd rfl h

theorem unescape_append {cs : List Char} (h : '~' ∉ cs) (rest : List Char) :
    unescape (cs ++ rest) = cs ++ unescape rest := by
  induction cs with
  | nil => rfl
  | cons c cs ih =>
    obtain ⟨hc, hcs⟩ := not_or.mp (List.mem_cons.not.mp h)
    rw [List.cons_append, unescape_cons (Ne.symm hc), ih hcs, List.cons_append]

/-- The characters that every percent encoding leaves as they are. -/
def SparesUnreserved (safe : Char → Bool) : Prop := ∀ c, Text.isUnreserved c = true → safe c = true

section Written

variable {safe : Char → Bool} (hsafe : SparesUnreserved safe)

include hsafe

theorem percentChar_of_unreserved {c : Char} (h : Text.isUnreserved c = true) :
    Text.percentChar safe c = [c] := by
  rw [Text.percentChar, if_pos (hsafe c h)]

theorem flatMap_escape {c d : Char} (h : escapeChar c = ['~', d]) (hd : Text.isUnreserved d = true) :
    (escapeChar c).flatMap (Text.percentChar safe) = ['~', d] := by
  rw [h, List.flatMap_cons, List.flatMap_singleton, percentChar_of_unreserved hsafe (by decide),
    percentChar_of_unreserved hsafe hd]
  rfl

/-- Of the escapes only percent encoding is left, and it leaves slashes alone. -/
theorem unescape_writeName (cs : List Char) :
    unescape ((cs.flatMap escapeChar).flatMap (Text.percentChar safe)) =
      cs.flatMap (Text.percentChar fun c => safe c || c == '/') := by
  induction cs with
  | nil => rfl
  | cons c cs ih =>
    rw [List.flatMap_cons, List.flatMap_append, List.flatMap_cons, ← ih]
    by_cases htilde : c = '~'
    · subst htilde
      have hself : safe '~' = true := hsafe '~' (by decide)
      rw [flatMap_escape hsafe rfl (by decide), Text.percentChar, if_pos (by simp [hself])]
      rfl
    by_cases hslash : c = '/'
    · subst hslash
      rw [flatMap_escape hsafe rfl (by decide), Text.percentChar, if_pos (by simp)]
      rfl
    · have hwritten : (escapeChar c).flatMap (Text.percentChar safe) = Text.percentChar safe c := by
        rw [escapeChar, if_neg htilde, if_neg hslash, List.flatMap_singleton]
      have hsame : Text.percentChar (fun c => safe c || c == '/') c = Text.percentChar safe c := by
        simp [Text.percentChar, hslash]
      have hnone : '~' ∉ Text.percentChar safe c := by
        intro h
        rcases Text.mem_percentChar h with h | h | h
        · exact htilde h.symm
        all_goals exact absurd h (by decide)
      rw [hwritten, hsame, unescape_append hnone]

theorem segment_writeName (hpercent : safe '%' = false) (name : String) :
    segment (writeName safe name) = name := by
  rw [segment, writeName, unescape_writeName hsafe]
  exact Text.decodePercent_of_writes (Text.writes_percentChars (by simp [hpercent]) name.toList)

theorem write_eq_writeName (s : Step) : s.write safe = writeName safe s.name := by
  cases s with
  | key name => rfl
  | index i =>
    have hdigit : ∀ c ∈ (toString i).toList, (escapeChar c).flatMap (Text.percentChar safe) = [c] := by
      intro c hc
      rw [Nat.toString_eq_ofList_toDigits, String.toList_ofList] at hc
      have hc := Nat.isDigit_of_mem_toDigits (by decide) (by decide) hc
      have hne : ∀ d : Char, d.isDigit = false → c ≠ d := by
        rintro d hd rfl
        rw [hc] at hd
        cases hd
      rw [escapeChar, if_neg (hne '~' (by decide)), if_neg (hne '/' (by decide)), List.flatMap_singleton]
      exact percentChar_of_unreserved hsafe (by simp [Text.isUnreserved, Char.isAlphanum, hc])
    rw [Step.write, Step.name, writeName, List.flatMap_assoc, List.flatMap_congr hdigit,
      List.flatMap_singleton']

end Written

theorem slash_not_mem_writeName (safe : Char → Bool) (name : String) : '/' ∉ writeName safe name := by
  intro h
  obtain ⟨c, hc, hmem⟩ := List.mem_flatMap.mp h
  rcases Text.mem_percentChar hmem with rfl | h | h
  · obtain ⟨d, -, hd⟩ := List.mem_flatMap.mp hc
    unfold escapeChar at hd
    split at hd
    · exact absurd hd (by decide)
    split at hd
    · exact absurd hd (by decide)
    · next hslash => exact hslash (List.mem_singleton.mp hd).symm
  all_goals exact absurd h (by decide)

theorem segments_of_toList {ref : String} {path : List Char} (h : ref.toList = '#' :: '/' :: path) :
    segments ref = .ok ((Text.pieces (· == '/') path).map segment) := by
  rw [segments, h]
  rfl

theorem segments_ofPath {safe : Char → Bool} (hsafe : SparesUnreserved safe) (hpercent : safe '%' = false)
    {path : List Step} (hne : path ≠ []) : segments (ofPath safe path) = .ok (path.map Step.name) := by
  have htext : (ofPath safe path).toList =
      '#' :: '/' :: ['/'].intercalate (path.map (Step.write safe)) := by
    rw [ofPath, String.toList_append, joined, String.toList_intercalate, List.map_map]
    simp [Function.comp_def]
  have hparts : ∀ p ∈ path.map (Step.write safe), '/' ∉ p := by
    refine List.forall_mem_map.mpr fun s _ => ?_
    rw [write_eq_writeName hsafe]
    exact slash_not_mem_writeName safe s.name
  have hname : ∀ s ∈ path, segment (s.write safe) = s.name := by
    intro s _
    rw [write_eq_writeName hsafe, segment_writeName hsafe hpercent]
  rw [segments_of_toList htext, Text.pieces_intercalate (by simpa using hne) hparts, List.map_map]
  exact congrArg Except.ok (List.map_congr_left hname)

theorem position?_natCast {n i : Nat} (h : i < n) : position? n i = some i := by
  rw [position?, if_pos (Int.natCast_nonneg i), if_pos (by omega), Int.toNat_natCast]

theorem Leads.foldlM {document v : Value} {path : List Step} (h : Leads document path v)
    (hshort : ∀ i, Step.index i ∈ path → (toString i).length ≤ Decimal.maxIntDigits) (ref : String) :
    (path.map Step.name).foldlM (step ref) document = .ok v := by
  induction h with
  | here v => rfl
  | @key es name part v path entry _ ih =>
    have hstep : step ref (.dict es) name = .ok part := by rw [step, entry]
    rw [List.map_cons, List.foldlM_cons, Step.name, hstep]
    exact ih fun i hi => hshort i (List.mem_cons_of_mem _ hi)
  | @index items i part v path place _ ih =>
    obtain ⟨hi, -⟩ := List.getElem?_eq_some_iff.mp place
    have hstep : step ref (.list items) (toString i) = .ok part := by
      rw [step, Decimal.readInt?_toString (hshort i List.mem_cons_self), Option.bind_some,
        position?_natCast hi, Option.bind_some, place]
    rw [List.map_cons, List.foldlM_cons, Step.name, hstep]
    exact ih fun j hj => hshort j (List.mem_cons_of_mem _ hj)

/-- The pointer that is written for the path to a node resolves to this node, however many characters beside
those that are always safe the encoding leaves alone. (No list in a computer has a place whose numeral is
too long to be read.) -/
theorem resolve_ofPath {safe : Char → Bool} (hsafe : SparesUnreserved safe) (hpercent : safe '%' = false)
    {document v : Value} {path : List Step} (hne : path ≠ []) (h : Leads document path v)
    (hshort : ∀ i, Step.index i ∈ path → (toString i).length ≤ Decimal.maxIntDigits) :
    resolve document (ofPath safe path) = .ok v := by
  rw [resolve, segments_ofPath hsafe hpercent hne]
  exact h.foldlM hshort _

def escapedKeys : Value :=
  Value.object [("~01", .str "tilde"), ("%7E1", Value.object [("~1/%2F", .list [.null,
    Value.object [("", .int 7), ("é", .bool true)]])])]

theorem resolve_ofPath_escapedKeys :
    let path := [.key "%7E1", .key "~1/%2F", .index 1, .key ""]
    SparesUnreserved Text.isUnreserved ∧ Text.isUnreserved '%' = false ∧ path ≠ [] ∧
      Leads escapedKeys path (.int 7) ∧
      (∀ i, Step.index i ∈ path → (toString i).length ≤ Decimal.maxIntDigits) ∧
      ofPath Text.isUnreserved path = "#/%257E1/~01~1%252F/1/" ∧
      resolve escapedKeys "#/%257E1/~01~1%252F/1/" = .ok (.int 7) := by
  intro path
  have hsafe : SparesUnreserved Text.isUnreserved := fun _ h => h
  have hleads : Leads escapedKeys path (.int 7) :=
    .key rfl (.key rfl (.index rfl (.key rfl (.here _))))
  have hshort : ∀ i, Step.index i ∈ path → (toString i).length ≤ Decimal.maxIntDigits := by
    intro i hi
    obtain rfl : i = 1 := by simpa [path] using hi
    decide
  have htext : ofPath Text.isUnreserved path = "#/%257E1/~01~1%252F/1/" := by decide +kernel
  refine ⟨hsafe, by decide, by simp [path], hleads, hshort, htext, ?_⟩
  rw [← htext]
  exact resolve_ofPath hsafe (by decide) (by simp [path]) hleads hshort

end Pointer

end OpenApi
