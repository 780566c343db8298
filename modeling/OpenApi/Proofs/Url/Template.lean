import OpenApi.Proofs.Text.Percent
import OpenApi.Url.Template
/-! # Templates of paths

A path is what stands before its first placeholder, the placeholder and what stands behind it. So the
literal texts of a template are taken from the path, and rendering adds nothing to them but encoded
values. -/
namespace OpenApi.Url

theorem untilClosing_eq {cs name after : List Char} (h : untilClosing cs = some (name, after)) :
    cs = name ++ closingBrace :: after := by
  induction cs generalizing name with
  | nil => cases h
  | cons c rest ih =>
    rw [untilClosing] at h
    by_cases hc : c = closingBrace
    · simp only [hc, beq_self_eq_true, if_true, Option.some.injEq, Prod.mk.injEq] at h
      rw [hc, ← h.1, h.2]
      rfl
    · rw [if_neg (by simpa using hc)] at h
      by_cases hn : c = '\n'
      · simp [hn] at h
      · rw [if_neg (by simpa using hn)] at h
        obtain ⟨⟨n, a⟩, hrest, he⟩ := Option.map_eq_some_iff.1 h
        cases he
        rw [ih hrest, List.cons_append]

theorem placeholderName_eq {cs name after : List Char}
    (h : placeholderName cs = some (name, after)) : cs = name ++ closingBrace :: after := by
  cases cs with
  | nil => cases h
  | cons c rest =>
    rw [placeholderName] at h
    by_cases hn : c = '\n'
    · simp [hn] at h
    · rw [if_neg (by simpa using hn)] at h
      obtain ⟨⟨n, a⟩, hrest, he⟩ := Option.map_eq_some_iff.1 h
      cases he
      rw [untilClosing_eq hrest, List.cons_append]

theorem firstPlaceholder_eq {cs : List Char} {p : Placeholder} (h : firstPlaceholder cs = some p) :
    cs = p.before ++ openingBrace :: p.name ++ closingBrace :: p.after := by
  induction cs generalizing p with
  | nil => cases h
  | cons c rest ih =>
    have hlater : (firstPlaceholder rest).map (fun p => { p with before := c :: p.before }) = some p →
        c :: rest = p.before ++ openingBrace :: p.name ++ closingBrace :: p.after := by
      intro hp
      obtain ⟨q, hq, rfl⟩ := Option.map_eq_some_iff.1 hp
      rw [ih hq]
      rfl
    rw [firstPlaceholder] at h
    by_cases hc : c = openingBrace
    · rw [if_pos (by simpa using hc)] at h
      cases hn : placeholderName rest with
      | none =>
        rw [hn] at h
        exact hlater h
      | some found =>
        rw [hn] at h
        cases h
        rw [hc, placeholderName_eq hn]
        rfl
    · rw [if_neg (by simpa using hc)] at h
      exact hlater h

theorem mem_of_literal {cs : List Char} {text : String} (h : .literal text ∈ segmentsOf cs) :
    text.toList ⊆ cs := by
  have hliteral : ∀ {ds : List Char}, .literal text ∈ literalSegment ds → text.toList ⊆ ds := by
    intro ds hm
    unfold literalSegment at hm
    split at hm
    · cases hm
    · cases List.mem_singleton.1 hm
      rw [String.toList_ofList]
      exact List.Subset.refl ds
  induction hn : cs.length using Nat.strongRecOn generalizing cs with
  | ind n ih =>
    rw [segmentsOf] at h
    split at h
    · exact hliteral h
    · next p hp =>
      have hcs := firstPlaceholder_eq hp
      rcases List.mem_append.1 h with hm | hm
      · intro c hc
        rw [hcs]
        simp [hliteral hm hc]
      · rcases List.mem_cons.1 hm with he | hm
        · cases he
        intro c hc
        rw [hcs]
        simp [ih _ (hn ▸ firstPlaceholder_length hp) hm rfl hc]

theorem not_mem_render {path : String} {c : Char} (hc : Text.isEncoded c = false)
    (hpath : c ∉ path.toList) (values : Entries String Value) :
    c ∉ ((Template.ofPath path).render values).toList := by
  intro h
  rw [Template.render, String.toList_join] at h
  obtain ⟨s, hs, hm⟩ := List.mem_flatMap.1 h
  obtain ⟨segment, hsegment, rfl⟩ := List.mem_map.1 hs
  cases segment with
  | literal text => exact hpath (mem_of_literal hsegment hm)
  | parameter name =>
    rw [Text.isEncoded_of_mem_component hm] at hc
    cases hc

end OpenApi.Url
