import OpenApi.Proofs.Query.Fields
/-! # Reading separated values

The names of a query string are told apart by its marks, and the values of a name by a separator. Encoded
text holds neither of them, so every list is read back under its name, whatever its members hold. -/
namespace OpenApi.Query

def separatedPair (separator : Char) (field : List Char) : String × List String :=
  (Text.decodePercent (String.ofList (field.takeWhile (· != '='))),
    (Text.pieces (· == separator) ((field.dropWhile (· != '=')).drop 1)).map fun piece =>
      Text.decodePercent (String.ofList piece))

def readSeparated (separator : Char) (text : String) : List (String × List String) :=
  (Text.pieces (· == '&') text.toList).map (separatedPair separator)

def ofTexts (params : Entries String (List String)) : Entries Key Value :=
  params.map fun e => (.str e.1, .list (e.2.map .str))

def separatedValues (separator : Char) (values : List String) : String :=
  joined (String.singleton separator) (values.map Text.encodeComponent)

def separatedField (separator : Char) (e : String × List String) : String :=
  Text.encodeComponent e.1 ++ "=" ++ separatedValues separator e.2

theorem delimited_ofTexts (separator : Char) (params : Entries String (List String)) :
    delimited (String.singleton separator) (ofTexts params) =
      joined "&" (params.map (separatedField separator)) := by
  have hkept : ((ofTexts params).filter fun e => e.2.kind ≠ .null) = ofTexts params := by
    apply List.filter_eq_self.mpr
    intro e he
    obtain ⟨d, -, rfl⟩ := List.mem_map.mp he
    rfl
  have hfield : ∀ e : String × List String,
      encodeKey (.str e.1) ++ "=" ++
          joined (String.singleton separator) ((flatten (.list (e.2.map .str))).map encode) =
        separatedField separator e := by
    intro e
    rw [flatten, List.map_map]
    rfl
  rw [delimited, hkept, ofTexts, List.map_map]
  exact congrArg (joined "&") (List.map_congr_left fun e _ => hfield e)

theorem not_mem_separatedField {separator : Char} (hmark : separator ≠ '&')
    (e : String × List String) : '&' ∉ (separatedField separator e).toList := by
  have hencoded : ∀ s, '&' ∉ (Text.encodeComponent s).toList :=
    Text.not_mem_encodeComponent (by decide)
  have hvalues : '&' ∉ (separatedValues separator e.2).toList := by
    apply not_mem_joined_of
    · simpa using hmark.symm
    · intro p hp
      obtain ⟨s, -, rfl⟩ := List.mem_map.mp hp
      exact hencoded s
  simp [separatedField, hencoded, hvalues]

section Separator

variable {separator : Char} (h : Text.isEncoded separator = false)

include h

theorem pieces_separatedValues {values : List String} (hne : values ≠ []) :
    Text.pieces (· == separator) (separatedValues separator values).toList =
      values.map fun s => (Text.encodeComponent s).toList := by
  have hparts : ∀ p ∈ values.map fun s => (Text.encodeComponent s).toList, separator ∉ p := by
    intro p hp
    obtain ⟨s, -, rfl⟩ := List.mem_map.mp hp
    exact Text.not_mem_encodeComponent h s
  have hmark : (String.singleton separator).toList = [separator] := String.toList_singleton separator
  rw [separatedValues, joined, String.toList_intercalate, hmark, List.map_map]
  exact Text.pieces_intercalate (by simpa using hne) hparts

theorem separatedPair_field {e : String × List String} (hne : e.2 ≠ []) :
    separatedPair separator (separatedField separator e).toList = e := by
  have hmark : '=' ∉ (Text.encodeComponent e.1).toList :=
    Text.not_mem_encodeComponent (by decide) e.1
  obtain ⟨hname, hrest⟩ := cut_at_mark hmark (separatedValues separator e.2).toList
  have htext : (separatedField separator e).toList =
      (Text.encodeComponent e.1).toList ++ '=' :: (separatedValues separator e.2).toList := by
    simp [separatedField]
  rw [separatedPair, htext, hname, hrest]
  simp [pieces_separatedValues h hne, Text.decodePercent_encodeComponent, Function.comp_def]

/-- Lists of texts are read back if their separator occurs in no encoded text and is not the mark between
two names. -/
theorem readSeparated_delimited (hmark : separator ≠ '&') {params : Entries String (List String)}
    (hne : params ≠ []) (hvalues : ∀ e ∈ params, e.2 ≠ []) :
    readSeparated separator (delimited (String.singleton separator) (ofTexts params)) = params := by
  have hfields : ∀ f ∈ (params.map (separatedField separator)).map String.toList, '&' ∉ f := by
    intro f hf
    obtain ⟨field, hfield, rfl⟩ := List.mem_map.mp hf
    obtain ⟨e, -, rfl⟩ := List.mem_map.mp hfield
    exact not_mem_separatedField hmark e
  have hpairs : params.map (fun e => separatedPair separator (separatedField separator e).toList) =
      params.map id := List.map_congr_left fun e he => separatedPair_field h (hvalues e he)
  have hand : "&".toList = ['&'] := rfl
  rw [readSeparated, delimited_ofTexts, joined, String.toList_intercalate, hand,
    Text.pieces_intercalate (by simpa using hne) hfields, List.map_map, List.map_map]
  exact hpairs.trans (List.map_id params)

end Separator

def markedTexts : Entries String (List String) :=
  [("a,b", ["1,2", "x|y", ""]), ("", [""]), ("q&=", ["%2C", "é=&", "%"])]

end OpenApi.Query
