import OpenApi.Proofs.Codec.Dates
import OpenApi.Proofs.Codec.Fails
/-! # Failures that can be told

Decoding breaks off where a text cannot be written: that of a literal that JSON does not have, of a name or
of an integer that is too long. Where all literals and names of a codec can be written, it tells every
failure to decode a value without such integers. -/
namespace OpenApi

namespace Value

variable {items : List Value} {es : Entries Key Value}

theorem isShort_list : (list items).isShort = true ↔ ∀ v ∈ items, v.isShort = true := by
  rw [isShort]
  induction items with
  | nil => simp [isShort.all]
  | cons v rest ih => rw [isShort.all, Bool.and_eq_true, ih, List.forall_mem_cons]

theorem isShort_dict :
    (dict es).isShort = true ↔ ∀ e ∈ es, e.1.isShort = true ∧ e.2.isShort = true := by
  rw [isShort]
  induction es with
  | nil => simp [isShort.allEntries]
  | cons e rest ih =>
    rw [isShort.allEntries, Bool.and_eq_true, Bool.and_eq_true, ih, List.forall_mem_cons]

theorem isShort_of_get? {k : Key} {v : Value} (h : (dict es).isShort = true)
    (hv : es.get? k = some v) : v.isShort = true := by
  obtain ⟨e, he, -, rfl⟩ := Entries.mem_of_get? hv
  exact (isShort_dict.1 h e he).2

end Value

/-- What is to be said can be written. -/
def Undecoded.IsTold (u : Undecoded) : Prop := ∃ text, u.writeText = .ok text

theorem isTold_root (message : String) : (Undecoded.failure ⟨[], message⟩).IsTold := ⟨_, rfl⟩

theorem Step.writeText_key {k : Key} (h : k.isShort = true) :
    ∃ text, (Step.key k).writeText = .ok text := by
  have hname : k.writeText = .ok k.text := if_pos h
  cases k with
  | bool b => exact ⟨_, rfl⟩
  | _ =>
    simp only [Step.writeText, hname]
    exact ⟨_, rfl⟩

theorem Undecoded.IsTold.below {u : Undecoded} {s : Step} (h : u.IsTold)
    (hs : ∃ text, s.writeText = .ok text) : (u.below s).IsTold := by
  obtain ⟨step, hstep⟩ := hs
  obtain ⟨text, htext⟩ := h
  obtain ⟨f, rfl⟩ := Undecoded.eq_failure_of_writeText htext
  obtain ⟨steps, hsteps, -⟩ := bind_eq_ok.1 htext
  have hpath : (s :: f.path).mapM Step.writeText = .ok (step :: steps) := by
    rw [List.mapM_cons, hstep, hsteps]
    rfl
  exact ⟨_, bind_eq_ok.2 ⟨_, hpath, rfl⟩⟩

namespace Codec

variable {c d : Codec} {raw : Value}

structure Writable (c : Codec) : Prop where
  literals : ∀ {v : Value}, Occurs (.exactly v) c → ∃ text, Json.write v = .ok text
  names : ∀ {fields : List (Key × Codec)}, Occurs (.interface fields) c →
    ∀ f ∈ fields, f.1.isShort = true

theorem Writable.part (h : c.Writable) (hd : ∀ b, Occurs b d → Occurs b c) : d.Writable :=
  ⟨fun hv => h.literals (hd _ hv), fun hf => h.names (hd _ hf)⟩

theorem mismatch_isTold {literal : Value} (hliteral : ∃ text, Json.write literal = .ok text)
    (hraw : raw.isShort = true) : (Undecoded.ofFailure (mismatch literal raw)).IsTold := by
  obtain ⟨text, htext⟩ := hliteral
  have hgot : raw.writeLiteral = .ok raw.literal := if_pos hraw
  rw [mismatch, htext, hgot]
  exact isTold_root _

/-- Whatever a writable codec has against a value can be told. -/
theorem Fails.isTold {u : Undecoded} (h : c.Fails raw u) (hc : c.Writable)
    (hraw : raw.isShort = true) : u.IsTold := by
  induction h with
  | sort | time | key | alternatives | undefined => exact isTold_root _
  | literal => exact mismatch_isTold (hc.literals .self) hraw
  | item hv _ ih =>
    have hshort := Value.isShort_list.1 hraw _ (List.mem_of_getElem? hv)
    exact (ih (hc.part fun _ => .array) hshort).below ⟨_, rfl⟩
  | optional _ ih => exact ih (hc.part fun _ => .optional) hraw
  | maybe _ ih => exact ih (hc.part fun _ => .maybe) hraw
  | missing hf => exact (isTold_root _).below (Step.writeText_key (hc.names .self _ hf))
  | field hf hv _ ih =>
    have htold := ih (hc.part fun _ => .interface hf) (Value.isShort_of_get? hraw hv)
    exact htold.below (Step.writeText_key (hc.names .self _ hf))
  | entry he _ ih =>
    obtain ⟨hkey, hvalue⟩ := Value.isShort_dict.1 hraw _ he
    exact (ih (hc.part fun _ => .record) hvalue).below (Step.writeText_key hkey)
  | unwritten hmem _ he ih =>
    obtain ⟨text, htext⟩ := ih (hc.part fun _ => .oneOf hmem) hraw
    cases he.symm.trans htext
  | left _ ih => exact ih (hc.part fun _ => .left) hraw
  | right _ ih => exact ih (hc.part fun _ => .right) hraw
  | model _ ih => exact ih (hc.part fun _ => .model) hraw

theorem Writable.not_breaksOff (hc : c.Writable) (hraw : raw.isShort = true) :
    ¬ c.BreaksOff raw := by
  rintro ⟨e, he⟩
  obtain ⟨text, htext⟩ := (fails_of_decode he).isTold hc hraw
  cases htext

end Codec

end OpenApi
