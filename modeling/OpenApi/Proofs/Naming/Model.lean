import OpenApi.Naming.Words
import OpenApi.Proofs.Naming.Argument
/-! # What stands in the name of a model

The name of a model holds only letters and digits of ASCII and underscores, whatever the title or
the reference that it is made of. -/
namespace OpenApi

theorem Text.not_cut_of_mem_pieces {cut : Char → Bool} {cs p : List Char} {c : Char}
    (hp : p ∈ pieces cut cs) (hc : c ∈ p) : cut c = false := by
  induction cs generalizing p with
  | nil =>
    rw [List.mem_singleton.mp hp] at hc
    cases hc
  | cons d rest ih =>
    rw [pieces] at hp
    by_cases hd : cut d = true
    · rw [if_pos hd] at hp
      rcases List.mem_cons.mp hp with rfl | hp
      · cases hc
      · exact ih hp hc
    · rw [if_neg hd] at hp
      cases hrest : pieces cut rest with
      | nil => exact absurd hrest (pieces_ne_nil cut rest)
      | cons q qs =>
        simp only [hrest] at hp ih
        rcases List.mem_cons.mp hp with rfl | hp
        · rcases List.mem_cons.mp hc with rfl | hc
          · exact Bool.eq_false_iff.mpr hd
          · exact ih List.mem_cons_self hc
        · exact ih (List.mem_cons_of_mem q hp) hc

namespace Naming

def Wordlike (cs : List Char) : Prop := ∀ c ∈ cs, isModelChar c = true

theorem upperChar_of_isModelChar {c : Char} (h : isModelChar c = true) :
    Wordlike (Text.upperChar c) := by
  have hascii : c.toNat < 0x80 ∧ isModelChar c.toUpper = true := by
    rcases Bool.or_eq_true_iff.mp h with hc | hc
    · have hup := (letterCase_of_isAlphanum hc).2
      exact ⟨Nat.lt_of_lt_of_le (Text.toNat_lt_of_isAlphanum hc) (by decide), by
        rw [isModelChar, hup, Bool.true_or]⟩
    · rw [beq_iff_eq.mp hc]
      decide
  intro d hd
  rw [Text.upperChar, if_pos hascii.1] at hd
  rw [List.mem_singleton.mp hd]
  exact hascii.2

theorem wordlike_upperFirst {cs : List Char} (h : Wordlike cs) :
    Wordlike (upperFirst (String.ofList cs)).toList := by
  rw [upperFirst, String.toList_ofList]
  cases cs with
  | nil => exact nofun
  | cons c rest =>
    obtain ⟨hc, hrest⟩ := List.forall_mem_cons.mp h
    rw [String.toList_ofList]
    exact List.forall_mem_append.mpr ⟨upperChar_of_isModelChar hc, hrest⟩

theorem wordlike_pascalCase (s : String) : Wordlike (pascalCase s).toList := by
  intro c hc
  simp only [pascalCase, String.toList_join] at hc
  obtain ⟨t, ht, hc⟩ := List.mem_flatMap.mp hc
  obtain ⟨p, hp, rfl⟩ := List.mem_map.mp ht
  refine wordlike_upperFirst (fun d hd => ?_) c hc
  simpa using Text.not_cut_of_mem_pieces (List.mem_filter.mp hp).1 hd

theorem wordlike_modelName {ref name : String} {schema : Value}
    (h : modelName ref schema = .ok name) : Wordlike name.toList := by
  dsimp only [modelName] at h
  split at h
  · cases h
    exact wordlike_pascalCase _
  · cases hs : Pointer.segments ref with
    | error e =>
      rw [hs] at h
      cases h
    | ok segments =>
      rw [hs] at h
      cases h
      exact wordlike_pascalCase _

end Naming

end OpenApi
