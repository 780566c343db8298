import OpenApi.Proofs.Entries
import OpenApi.Proofs.Schema.Related
import OpenApi.Proofs.Text.Percent
import OpenApi.Proofs.Text.Runs
import OpenApi.Query
import Mathlib.Data.List.Induction
/-! # Reading a query string

The fields of a query string are told apart by its marks, which encoded names and values never hold. So
every name and every value is read back, and the values of one name are gathered in order. -/
namespace OpenApi

namespace Text

theorem pieces_intercalate {mark : Char} {parts : List (List Char)} (hne : parts ≠ [])
    (h : ∀ p ∈ parts, mark ∉ p) : pieces (· == mark) ([mark].intercalate parts) = parts := by
  have hend : ∀ p : List Char, mark ∉ p → pieces (· == mark) p = [p] := by
    intro p hp
    induction p with
    | nil => rfl
    | cons c p ih =>
      obtain ⟨hc, hp⟩ := not_or.1 (List.mem_cons.not.1 hp)
      simp [pieces, ih hp, Ne.symm hc]
  have hcut : ∀ p rest : List Char, mark ∉ p →
      pieces (· == mark) (p ++ mark :: rest) = p :: pieces (· == mark) rest := by
    intro p rest hp
    induction p with
    | nil => simp [pieces]
    | cons c p ih =>
      obtain ⟨hc, hp⟩ := not_or.1 (List.mem_cons.not.1 hp)
      simp [pieces, ih hp, Ne.symm hc]
  induction parts with
  | nil => exact absurd rfl hne
  | cons p parts ih =>
    obtain ⟨hp, hparts⟩ := List.forall_mem_cons.1 h
    cases parts with
    | nil => simpa using hend p hp
    | cons q parts =>
      have hstep : [mark].intercalate (p :: q :: parts) =
          p ++ mark :: [mark].intercalate (q :: parts) := by
        simp [List.intercalate]
      rw [hstep, hcut p _ hp, ih (by simp) hparts]

end Text

namespace Query

open Text

structure Encodes (text s : String) : Prop where
  reads : decodeForm text = s
  encoded : ∀ c ∈ text.toList, isEncoded c = true

theorem encodes_component (s : String) : Encodes (encodeComponent s) s :=
  ⟨decodeForm_encodeComponent s, fun _ => isEncoded_of_mem_component⟩

theorem encodes_form (s : String) : Encodes (encodeForm s) s :=
  ⟨decodeForm_encodeForm s, fun _ => isEncoded_of_mem_form⟩

theorem Encodes.not_mem {text s : String} (h : Encodes text s) {c : Char}
    (hc : isEncoded c = false) : c ∉ text.toList := by
  intro hm
  rw [h.encoded c hm] at hc
  cases hc

def FieldOf (field : String) (p : String × String) : Prop :=
  ∃ name value, field = name ++ "=" ++ value ∧ Encodes name p.1 ∧ Encodes value p.2

theorem FieldOf.ne_empty {field : String} {p : String × String} (h : FieldOf field p) :
    field ≠ "" := by
  obtain ⟨name, value, rfl, -, -⟩ := h
  simp

theorem FieldOf.not_mem {field : String} {p : String × String} (h : FieldOf field p) {c : Char}
    (hc : isEncoded c = false) (he : c ≠ '=') : c ∉ field.toList := by
  obtain ⟨name, value, rfl, hname, hvalue⟩ := h
  simp only [String.toList_append, List.mem_append, not_or]
  exact ⟨⟨hname.not_mem hc, by simpa using he⟩, hvalue.not_mem hc⟩

theorem FieldOf.pairOf_eq {field : String} {p : String × String} (h : FieldOf field p) :
    pairOf field.toList = p := by
  obtain ⟨name, value, rfl, hname, hvalue⟩ := h
  have hmark : '=' ∉ name.toList := hname.not_mem (by decide)
  obtain ⟨hfront, hrest⟩ := cut_at_mark hmark value.toList
  have htext : (name ++ "=" ++ value).toList = name.toList ++ '=' :: value.toList := by simp
  rw [pairOf, htext, hfront, hrest]
  simp [hname.reads, hvalue.reads]

def formPairs (form : List Char) : List (String × String) :=
  ((pieces (· == '&') form).filter fun f => !f.isEmpty).map pairOf

theorem pieces_joined {fields : List String} (h : ∀ f ∈ fields, f ≠ "" ∧ '&' ∉ f.toList) :
    ((pieces (· == '&') (joined "&" fields).toList).filter fun f => !f.isEmpty) =
      fields.map String.toList := by
  by_cases hne : fields = []
  · subst hne
    rfl
  · have hmark : "&".toList = ['&'] := rfl
    have hparts : ∀ f ∈ fields.map String.toList, '&' ∉ f :=
      List.forall_mem_map.2 fun f hf => (h f hf).2
    have hfull : ∀ f ∈ fields.map String.toList, (!f.isEmpty) = true :=
      List.forall_mem_map.2 fun f hf => by simpa using (h f hf).1
    rw [joined, String.toList_intercalate, hmark, pieces_intercalate (by simpa using hne) hparts,
      List.filter_eq_self.2 hfull]

theorem not_mem_joined_of {separator : String} {c : Char} (hs : c ∉ separator.toList) {parts : List String}
    (h : ∀ p ∈ parts, c ∉ p.toList) : c ∉ (joined separator parts).toList := by
  induction parts with
  | nil => simp [joined]
  | cons p parts ih =>
    obtain ⟨hp, hparts⟩ := List.forall_mem_cons.mp h
    cases parts with
    | nil => simpa [joined] using hp
    | cons q parts =>
      rw [joined, String.intercalate_cons_cons, String.toList_append, String.toList_append,
        List.mem_append, List.mem_append, not_or, not_or]
      exact ⟨⟨hp, hs⟩, ih hparts⟩

section Joined

variable {fields : List String} {ps : List (String × String)} (h : List.Forall₂ FieldOf fields ps)

include h

theorem not_mem_joined {c : Char} (hc : isEncoded c = false) (he : c ≠ '=') (ha : c ≠ '&') :
    c ∉ (joined "&" fields).toList := by
  refine not_mem_joined_of (by simpa using ha) fun f hf => ?_
  obtain ⟨p, -, hp⟩ := (partners h).1 f hf
  exact hp.not_mem hc he

theorem formPairs_joined : formPairs (joined "&" fields).toList = ps := by
  have hfields : ∀ f ∈ fields, f ≠ "" ∧ '&' ∉ f.toList := by
    intro f hf
    obtain ⟨p, -, hp⟩ := (partners h).1 f hf
    exact ⟨hp.ne_empty, hp.not_mem (by decide) (by decide)⟩
  have hread : (fields.map String.toList).map pairOf = ps := by
    clear hfields
    induction h with
    | nil => rfl
    | cons hf _ ih => simp only [List.map_cons, hf.pairOf_eq, ih]
  rw [formPairs, pieces_joined hfields, hread]

end Joined

/-- The values of each name in order, the names in the order in which they first come. -/
def byName (ps : List (String × String)) : Entries String (List String) :=
  (ps.map Prod.fst).eraseDups.map fun k => (k, (ps.filter fun p => p.1 == k).map Prod.snd)

theorem grouped_concat (ps : List (String × String)) (p : String × String) :
    grouped (ps ++ [p]) = (grouped ps).put p.1 (((grouped ps).get? p.1).getD [] ++ [p.2]) := by
  rw [grouped, List.foldl_append]
  rfl

theorem grouped_eq (ps : List (String × String)) : grouped ps = byName ps := by
  induction ps using List.reverseRecOn with
  | nil => rfl
  | append_singleton ps p ih =>
    have hvalues : ∀ k, ((ps ++ [p]).filter fun q => q.1 == k).map Prod.snd =
        (ps.filter fun q => q.1 == k).map Prod.snd ++ if p.1 = k then [p.2] else [] := by
      intro k
      by_cases hk : p.1 = k <;> simp [List.filter_append, hk]
    have hgathered : ((byName ps).get? p.1).getD [] =
        (ps.filter fun q => q.1 == p.1).map Prod.snd := by
      rw [byName, Entries.get?_table]
      by_cases hm : p.1 ∈ ps.map Prod.fst
      · rw [if_pos hm]
        rfl
      · have hnone : (ps.filter fun q => q.1 == p.1) = [] := by
          refine List.filter_eq_nil_iff.2 fun q hq he => hm ?_
          exact List.mem_map.2 ⟨q, hq, by simpa using he⟩
        rw [if_neg hm, hnone]
        rfl
    have hother : ∀ k ∈ ps.map Prod.fst, k ≠ p.1 →
        ((ps ++ [p]).filter fun q => q.1 == k).map Prod.snd =
          (ps.filter fun q => q.1 == k).map Prod.snd := by
      intro k _ hk
      rw [hvalues, if_neg (Ne.symm hk), List.append_nil]
    have hone := hvalues p.1
    rw [if_pos rfl] at hone
    rw [grouped_concat, ih, hgathered, ← hone, byName, Entries.put_table hother, byName,
      List.map_append, List.map_singleton]

def behindMark (url : String) : List Char := (url.toList.dropWhile (· != '?')).drop 1

/-- The URL has a query string if there is anything to say, and it says these names and values. -/
structure Says (url : String) (ps : List (String × String)) : Prop where
  mark : '?' ∈ url.toList ↔ ps ≠ []
  pairs : formPairs (behindMark url) = ps
  read : read (String.ofList (behindMark url)) =
    .dict ((byName ps).map fun e => (.str e.1, gatheredValue e.2))

theorem read_joined {fields : List String} {ps : List (String × String)}
    (h : List.Forall₂ FieldOf fields ps) : read (joined "&" fields) =
      .dict ((byName ps).map fun e => (.str e.1, gatheredValue e.2)) := by
  have hmark : '?' ∉ (joined "&" fields).toList :=
    not_mem_joined h (by decide) (by decide) (by decide)
  have hall : (joined "&" fields).toList.dropWhile (· == '?') = (joined "&" fields).toList := by
    cases hc : (joined "&" fields).toList with
    | nil => rfl
    | cons c cs =>
      rw [hc] at hmark
      have hne : c ≠ '?' := fun he => hmark (he ▸ List.mem_cons_self)
      simp [hne]
  have hpairs : Query.pairs (joined "&" fields) = formPairs (joined "&" fields).toList := by
    rw [Query.pairs, hall, formPairs]
  rw [read, hpairs, formPairs_joined h, grouped_eq]

theorem says_join {base : String} {fields : List String} {ps : List (String × String)}
    (hbase : '?' ∉ base.toList) (h : List.Forall₂ FieldOf fields ps) :
    Says (base ++ join fields) ps := by
  have hfull : (fields.filter fun f => !f.isEmpty) = fields := by
    refine List.filter_eq_self.2 fun f hf => ?_
    obtain ⟨p, -, hp⟩ := (partners h).1 f hf
    simpa using hp.ne_empty
  have hbehind : (base ++ join fields).toList.dropWhile (· != '?') = (join fields).toList := by
    rw [String.toList_append, List.dropWhile_append_of_pos fun c hc => ?_]
    · unfold join
      split <;> simp
    · rw [bne_iff_ne]
      rintro rfl
      exact hbase hc
  have htext : behindMark (base ++ join fields) = (joined "&" fields).toList := by
    rw [behindMark, hbehind, join, hfull]
    cases h with
    | nil => rfl
    | cons _ _ => simp
  refine ⟨?_, ?_, ?_⟩
  · rw [String.toList_append, List.mem_append, join, hfull]
    cases h with
    | nil => simpa using hbase
    | cons _ _ => simp
  · rw [htext, formPairs_joined h]
  · rw [htext, String.ofList_toList, read_joined h]

def furtherField (e : Key × Value) : String := formKey e.1 ++ "=" ++ encodeForm e.2.wireText

theorem append_join {base : String} (hbase : '?' ∉ base.toList) {fields : List String}
    (hfields : ∀ f ∈ fields, f ≠ "") (values defaults : Entries Key Value) :
    append (base ++ join fields) values defaults =
      base ++ join (fields ++ (Entries.overlay defaults values).map furtherField) := by
  have hfull : ∀ es : Entries Key Value,
      ((fields ++ es.map furtherField).filter fun f => !f.isEmpty) =
        fields ++ es.map furtherField := by
    intro es
    refine List.filter_eq_self.2 fun f hf => ?_
    rcases List.mem_append.1 hf with hf | hf
    · simpa using hfields f hf
    · obtain ⟨e, -, rfl⟩ := List.mem_map.1 hf
      simp [furtherField]
  have hfirst := hfull []
  rw [List.map_nil, List.append_nil] at hfirst
  cases hes : Entries.overlay defaults values with
  | nil =>
    rw [append, hes, List.map_nil, List.append_nil]
  | cons e es =>
    have happend : append (base ++ join fields) values defaults = base ++ join fields ++
        (if (base ++ join fields).toList.contains '?' then "&" else "?") ++
          joined "&" ((e :: es).map furtherField) := by
      rw [append, hes]
      rfl
    rw [happend, join, join, hfull (e :: es), hfirst]
    cases fields with
    | nil =>
      rw [if_neg (by simpa using hbase)]
      simp [String.append_assoc]
    | cons f fields =>
      have hsplit : joined "&" (f :: fields ++ (e :: es).map furtherField) =
          joined "&" (f :: fields) ++ "&" ++ joined "&" ((e :: es).map furtherField) :=
        String.intercalate_append_of_ne_nil (by simp) (by simp)
      rw [if_pos (by simp)]
      simp only [List.cons_append] at hsplit ⊢
      rw [hsplit]
      simp [String.append_assoc]

end Query

end OpenApi
