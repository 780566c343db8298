import OpenApi.Proofs.Naming.Model
import OpenApi.Proofs.Text.Runs
/-! # How arguments are chosen

The argument of a name is the part behind its last dot in camel case, or the whole name in camel case
where that is taken, with a number behind it where that is taken as well. A name that is not shorter than
the others chooses last, so it leaves them their arguments. -/
namespace OpenApi

/-- What is not below any other stays behind them when they are sorted. -/
theorem mergeSort_concat {α : Type} {le : α → α → Bool}
    (htrans : ∀ a b c, le a b = true → le b c = true → le a c = true)
    (htotal : ∀ a b, (le a b || le b a) = true) {last : α} {as : List α}
    (h : ∀ a ∈ as, le a last = true) : (as ++ [last]).mergeSort le = as.mergeSort le ++ [last] := by
  induction as with
  | nil => simp
  | cons a as ih =>
    obtain ⟨ha, has⟩ := List.forall_mem_cons.mp h
    obtain ⟨front, back, hsorted, hrest, hfront⟩ := List.mergeSort_cons htrans htotal a as
    obtain ⟨front', back', hsorted', hrest', hfront'⟩ :=
      List.mergeSort_cons htrans htotal a (as ++ [last])
    have hback : ∀ {all front back : List α}, all.mergeSort le = front ++ a :: back →
        ∀ b ∈ back, le a b = true := by
      intro all front back hall b hb
      have hpairs := List.pairwise_mergeSort htrans htotal all
      rw [hall] at hpairs
      exact List.rel_of_pairwise_cons (List.pairwise_append.mp hpairs).2.1 hb
    have hbehind : ∀ b ∈ back ++ [last], le a b = true :=
      List.forall_mem_append.mpr ⟨hback hsorted, List.forall_mem_singleton.mpr ha⟩
    -- both sorted lists have `a` where the members that are below it end
    have hsame : front' ++ back' = front ++ (back ++ [last]) := by
      rw [← hrest', ih has, hrest, List.append_assoc]
    obtain ⟨rfl, rfl⟩ := run_unique (p := fun b => (!le a b) = true) hfront' hfront
      (fun b hb => by simpa using hback hsorted' b (List.mem_of_mem_head? hb))
      (fun b hb => by simpa using hbehind b (List.mem_of_mem_head? hb)) hsame
    rw [List.cons_append, hsorted', hsorted, List.append_assoc, List.cons_append]

namespace Text

theorem pieces_last (cut : Char → Bool) (cs : List Char) : ∃ init last, pieces cut cs = init ++ [last] ∧
    (init = [] ∧ cs = last ∨ init ≠ [] ∧ ∃ front c, cut c = true ∧ cs = front ++ c :: last) := by
  induction cs with
  | nil => exact ⟨[], [], rfl, .inl ⟨rfl, rfl⟩⟩
  | cons c rest ih =>
    obtain ⟨init, last, hpieces, hcases⟩ := ih
    by_cases hc : cut c = true
    · refine ⟨[] :: init, last, by simp [pieces, hc, hpieces], .inr ⟨by simp, ?_⟩⟩
      rcases hcases with ⟨-, rfl⟩ | ⟨-, front, d, hd, rfl⟩
      · exact ⟨[], c, hc, rfl⟩
      · exact ⟨c :: front, d, hd, rfl⟩
    · rcases hcases with ⟨rfl, rfl⟩ | ⟨hne, front, d, hd, rfl⟩
      · exact ⟨[], c :: rest, by simp [pieces, hc, hpieces], .inl ⟨rfl, rfl⟩⟩
      · obtain ⟨piece, others, rfl⟩ := List.exists_cons_of_ne_nil hne
        refine ⟨(c :: piece) :: others, last, by simp [pieces, hc, hpieces], .inr ⟨by simp, ?_⟩⟩
        exact ⟨c :: front, d, hd, rfl⟩

end Text

namespace Naming

def IsLastPart (name last : String) : Prop :=
  '.' ∉ last.toList ∧ (name = last ∨ ∃ scope, name = scope ++ "." ++ last)

theorem isLastPart_afterLast (name : String) :
    IsLastPart name (Text.afterLast (· == '.') name) := by
  obtain ⟨init, last, hpieces, hcases⟩ := Text.pieces_last (· == '.') name.toList
  have hlast : Text.afterLast (· == '.') name = String.ofList last := by
    rw [Text.afterLast, hpieces, List.getLastD_concat]
  have hmem : last ∈ Text.pieces (· == '.') name.toList := by simp [hpieces]
  rw [hlast]
  constructor
  · rw [String.toList_ofList]
    intro hdot
    have := Text.not_cut_of_mem_pieces hmem hdot
    cases this
  · rcases hcases with ⟨-, hall⟩ | ⟨-, front, c, hc, hall⟩
    · exact .inl (by rw [← hall, String.ofList_toList])
    · refine .inr ⟨String.ofList front, String.toList_inj.mp ?_⟩
      rw [hall, eq_of_beq hc]
      simp

/-- The arguments that a name can have where these are taken. -/
inductive Form (taken : List String) (name : String) : String → Prop where
  | short {last : String} (hl : IsLastPart name last) : Form taken name (camelCase last)
  | full {last : String} (hl : IsLastPart name last) (hs : camelCase last ∈ taken) :
      Form taken name (camelCase name)
  | numbered {last : String} (hl : IsLastPart name last) (hs : camelCase last ∈ taken)
      (hf : camelCase name ∈ taken) {k : Nat} (hk : 2 ≤ k)
      (hless : ∀ j, 2 ≤ j → j < k → camelCase name ++ toString j ∈ taken) :
      Form taken name (camelCase name ++ toString k)

theorem Form.mono {taken more : List String} (hm : taken ⊆ more) {name argument : String}
    (h : Form taken name argument) : Form more name argument := by
  cases h with
  | short hl => exact .short hl
  | full hl hs => exact .full hl (hm hs)
  | numbered hl hs hf hk hless =>
    exact .numbered hl (hm hs) (hm hf) hk fun j hj hlt => hm (hless j hj hlt)

theorem form_fresh (taken : List String) (name : String) :
    Form taken name (fresh taken (if taken.contains (shortForm name) then camelCase name
      else shortForm name)) := by
  have hl := isLastPart_afterLast name
  by_cases hs : shortForm name ∈ taken
  · rw [if_pos (List.contains_iff_mem.mpr hs)]
    rcases fresh_cases taken (camelCase name) with ⟨-, he⟩ | ⟨k, he, -, hf, hless⟩
    · rw [he]
      exact .full hl hs
    · rw [he]
      refine .numbered hl hs hf (Nat.le_add_left 2 k) fun j hj hlt => ?_
      have := hless (j - 2) (by omega)
      rwa [Nat.sub_add_cancel hj] at this
  · rw [if_neg (by simpa using hs)]
    rcases fresh_cases taken (shortForm name) with ⟨-, he⟩ | ⟨-, -, -, hf, -⟩
    · rw [he]
      exact .short hl
    · exact absurd hf hs

/-- Every argument has one of the forms, where only arguments of these names are taken. -/
def Formed (assigned : Entries String String) : Prop :=
  ∀ e ∈ assigned, Form assigned.values e.1 e.2

theorem Formed.assign {assigned : Entries String String} (h : Formed assigned) (name : String) :
    Formed (assign assigned name) := by
  unfold Naming.assign
  by_cases hn : assigned.has name = true
  · rwa [if_pos hn]
  · rw [if_neg hn]
    have hsub : assigned.values ⊆ Entries.values (assigned ++ [(name, fresh assigned.values
        (if assigned.values.contains (shortForm name) then camelCase name else shortForm name))]) := by
      rw [Entries.values, Entries.values, List.map_append]
      exact List.subset_append_left _ _
    intro e he
    rcases List.mem_append.mp he with he | he
    · exact (h e he).mono hsub
    · rw [List.mem_singleton.mp he]
      exact (form_fresh _ name).mono hsub

theorem formed_argumentNames (names : List String) : Formed (argumentNames names) := by
  have hrun : ∀ (ns : List String) {assigned : Entries String String}, Formed assigned →
      Formed (ns.foldl assign assigned) := by
    intro ns
    induction ns with
    | nil => exact id
    | cons n ns ih => exact fun h => ih (h.assign n)
  exact hrun _ (List.forall_mem_nil _)

theorem argumentNames_concat {names : List String} {longer : String}
    (h : ∀ n ∈ names, n.length ≤ longer.length) :
    argumentNames (names ++ [longer]) = assign (argumentNames names) longer := by
  have hsorted : (names ++ [longer]).mergeSort (fun a b => a.length ≤ b.length) =
      names.mergeSort (fun a b => a.length ≤ b.length) ++ [longer] := by
    apply mergeSort_concat
    · exact fun a b c => by simpa using Nat.le_trans
    · exact fun a b => by simpa using Nat.le_total _ _
    · exact fun n hn => decide_eq_true (h n hn)
  rw [argumentNames, hsorted, List.foldl_append]
  rfl

theorem get?_assign {assigned : Entries String String} {n : String} (h : n ∈ assigned.keys)
    (name : String) : (assign assigned name).get? n = assigned.get? n := by
  by_cases hn : name ∈ assigned.keys
  · rw [assign_of_has hn]
  · obtain ⟨argument, -, he⟩ := assign_of_new hn
    obtain ⟨a, ha⟩ := Option.ne_none_iff_exists'.mp fun hnone => Entries.get?_eq_none_iff.mp hnone h
    rw [he, Entries.get?_append, ha]
    rfl

/-- Every name has an argument of its own in one of the forms, and keeps it beside a further name that is
not shorter than any of them. -/
theorem argumentNames_chosen (names : List String) :
    (∀ n ∈ names, ∃ a, (argumentNames names).get? n = some a ∧
      Form (argumentNames names).values n a) ∧
    (∀ m n a, (argumentNames names).get? m = some a → (argumentNames names).get? n = some a → m = n) ∧
    ∀ longer, (∀ n ∈ names, n.length ≤ longer.length) →
      ∀ n ∈ names, (argumentNames (names ++ [longer])).get? n = (argumentNames names).get? n := by
  refine ⟨?_, fun m n a => name_eq_of_argument_eq, ?_⟩
  · intro n hn
    obtain ⟨a, ha⟩ := exists_argument hn
    obtain ⟨e, he, hne, rfl⟩ := Entries.mem_of_get? ha
    refine ⟨e.2, ha, ?_⟩
    rw [eq_of_beq hne]
    exact formed_argumentNames names e he
  · intro longer h n hn
    rw [argumentNames_concat h, get?_assign (mem_keys_argumentNames.mpr hn)]

def threeIds : List String := ["id", "ID", "user.id"]

theorem argumentNames_chosen_threeIds : (∀ n ∈ threeIds, n.length ≤ "owner.id".length) ∧
    argumentNames threeIds = [("id", "id"), ("ID", "id2"), ("user.id", "userId")] ∧
    (∀ n ∈ threeIds, ∃ a, (argumentNames threeIds).get? n = some a ∧
      Form (argumentNames threeIds).values n a) ∧
    ∀ n ∈ threeIds, (argumentNames (threeIds ++ ["owner.id"])).get? n =
      (argumentNames threeIds).get? n := by
  have hlength : ∀ n ∈ threeIds, n.length ≤ "owner.id".length := by decide
  have hsorted : threeIds.mergeSort (fun a b => a.length ≤ b.length) = threeIds :=
    List.mergeSort_of_pairwise (by decide)
  obtain ⟨hform, -, hkept⟩ := argumentNames_chosen threeIds
  refine ⟨hlength, ?_, hform, hkept "owner.id" hlength⟩
  rw [argumentNames, hsorted]
  decide +kernel

end Naming

end OpenApi
