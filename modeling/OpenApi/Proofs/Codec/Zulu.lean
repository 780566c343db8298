import OpenApi.Proofs.Codec.Dates
import OpenApi.Proofs.Time.ZeroOffset
/-! # Times in the zone Z

A text that ends in `Z` is read with a zero offset in its place. So the time that is read is at no offset from
universal time, unless the text in front of the `Z` is a date and nothing else: then midnight is read, and no
offset. -/
namespace OpenApi

theorem zuluText_append {front : String} {z : Char} (hz : z = 'Z' ∨ z = 'z') :
    zuluText (front.push z) = String.ofList (front.toList ++ Time.zeroOffset) := by
  have hlast : (front.push z).toList = front.toList ++ [z] := String.toList_push z
  have hmark : (z == 'Z' || z == 'z') = true := by simpa using hz
  rw [zuluText, hlast, List.getLast?_concat]
  dsimp only
  rw [if_pos hmark, List.dropLast_concat, String.ofList_append]
  rfl

namespace Codec

/-- Whenever a text with a `Z` at its end is read as a date, the time that is read is at no offset from
universal time. -/
def ReadsUniversal (front : String) : Prop := ∀ z, z = 'Z' ∨ z = 'z' → ∀ v,
  date.decode (.str (front.push z)) = .ok v → ∃ t, v = .datetime t ∧ t.offset = some 0

/-- The `Z` behind a bare date is lost: midnight is read as without it. -/
theorem decode_bareDate {front : String} {d : Time.Date} (h : Time.IsBareDate front.toList d) {z : Char}
    (hz : z = 'Z' ∨ z = 'z') : date.decode (.str (front.push z)) = .ok (.datetime d.midnight) := by
  refine decodeDate_str.mpr ⟨d.midnight, ?_, rfl⟩
  rw [timeOf?, zuluText_append hz, h.read?_zeroOffset]

/-- A `Z` stands for an offset of zero exactly where the text in front of it is more than a date. -/
theorem readsUniversal_iff (front : String) :
    ReadsUniversal front ↔ ¬ ∃ d, Time.IsBareDate front.toList d := by
  constructor
  · rintro h ⟨d, hd⟩
    obtain ⟨t, ht, hoffset⟩ := h 'Z' (.inl rfl) _ (decode_bareDate hd (.inl rfl))
    cases ht
    cases hoffset
  · intro hbare z hz v hv
    obtain ⟨t, ht, rfl⟩ := decodeDate_str.mp hv
    rw [timeOf?, zuluText_append hz] at ht
    exact ⟨t, rfl, (Time.read?_zeroOffset ht).resolve_right hbare⟩

/-- The second of January is read without an offset. -/
theorem not_readsUniversal_date : ¬ ∀ front, ReadsUniversal front := by
  intro h
  have hread : timeOf? "2024-01-02Z" = some (Time.Date.midnight ⟨2024, 1, 2⟩) := by decide +kernel
  obtain ⟨t, ht, hoffset⟩ := h "2024-01-02" 'Z' (.inl rfl) _ (decodeDate_str.mpr ⟨_, hread, rfl⟩)
  cases ht
  cases hoffset

end Codec

end OpenApi
