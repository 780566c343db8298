/-! # Runs

A run of members of one kind ends at the first member of another kind, so there is one way only to take it
from the front of a list. -/
namespace OpenApi

variable {α : Type} {a b u v : List α}

theorem run_unique {p : α → Prop} (ha : ∀ c ∈ a, p c) (hb : ∀ c ∈ b, p c)
    (hu : ∀ c ∈ u.head?, ¬ p c) (hv : ∀ c ∈ v.head?, ¬ p c) (h : a ++ u = b ++ v) :
    a = b ∧ u = v := by
  induction a generalizing b with
  | nil =>
    cases b with
    | nil => exact ⟨rfl, h⟩
    | cons c b =>
      rw [List.nil_append] at h
      subst h
      exact absurd (hb c List.mem_cons_self) (hu c rfl)
  | cons c a ih =>
    cases b with
    | nil =>
      rw [List.nil_append] at h
      subst h
      exact absurd (ha c List.mem_cons_self) (hv c rfl)
    | cons d b =>
      rw [List.cons_append, List.cons_append] at h
      obtain ⟨rfl, hrest⟩ := List.cons.inj h
      obtain ⟨rfl, huv⟩ := ih (List.forall_mem_cons.mp ha).2 (List.forall_mem_cons.mp hb).2 hrest
      exact ⟨rfl, huv⟩

theorem front_unique {mark : α} (ha : mark ∉ a) (hb : mark ∉ b) (h : a ++ mark :: u = b ++ mark :: v) :
    a = b ∧ u = v := by
  have hrun : ∀ {cs : List α}, mark ∉ cs → ∀ c ∈ cs, c ≠ mark := by
    rintro cs hcs c hc rfl
    exact hcs hc
  have hstop : ∀ (cs : List α), ∀ c ∈ (mark :: cs).head?, ¬ c ≠ mark := by
    intro cs c hc hne
    exact hne (Option.some.inj hc).symm
  obtain ⟨hab, huv⟩ := run_unique (hrun ha) (hrun hb) (hstop u) (hstop v) h
  exact ⟨hab, (List.cons.inj huv).2⟩

theorem cut_at_mark [BEq α] [LawfulBEq α] {mark : α} (h : mark ∉ a) (u : List α) :
    (a ++ mark :: u).takeWhile (· != mark) = a ∧
      (a ++ mark :: u).dropWhile (· != mark) = mark :: u := by
  have hfront : ∀ c ∈ a, (c != mark) = true := by
    intro c hc
    rw [bne_iff_ne]
    rintro rfl
    exact h hc
  constructor
  · rw [List.takeWhile_append_of_pos hfront, List.takeWhile_cons_of_neg (by simp), List.append_nil]
  · rw [List.dropWhile_append_of_pos hfront, List.dropWhile_cons_of_neg (by simp)]

end OpenApi
