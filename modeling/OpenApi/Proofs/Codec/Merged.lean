import OpenApi.Proofs.Codec.Accepts
import OpenApi.Proofs.Entries
import OpenApi.Proofs.Key
/-! # Merged objects

Two interfaces read one object, each the fields that it declares, and each leaves the rest as it
is. What they read is merged, and the right one counts, also in what it has left as it was. So the
object comes out as the right one reads it, and nothing is kept of what only the left one has read. -/
namespace OpenApi.Codec

variable {a b fields : List (Key × Codec)} {raw done result : Entries Key Value}

/-- No field of an interface is found under the key. -/
def Undeclared (fields : List (Key × Codec)) (k : Key) : Prop := ∀ f ∈ fields, (k == f.1) = false

/-- Under its key, `result` holds what the field reads from `raw`, if there is anything. -/
def HoldsRead (raw result : Entries Key Value) (f : Key × Codec) : Prop :=
  ∀ v, raw.get? f.1 = some v → ∃ w, f.2.decode v = .ok w ∧ result.get? f.1 = some w

theorem keys_decodeFields (h : decode.decodeFields fields raw done = .ok result)
    (hkeys : done.keys = raw.keys) : result.keys = raw.keys := by
  induction fields generalizing done with
  | nil =>
    cases h
    exact hkeys
  | cons f rest ih =>
    rcases decodeFields_cons h with ⟨-, hrest⟩ | ⟨v, w, hv, -, hrest⟩
    · exact ih hrest hkeys
    · have hpresent : (done.get? f.1).isSome = true := by
        rw [Entries.isSome_get?_eq_any, hkeys, ← Entries.isSome_get?_eq_any, hv]
        rfl
      exact ih hrest ((Entries.keys_put_of_present hpresent w).trans hkeys)

theorem get?_decodeFields_of_undeclared (h : decode.decodeFields fields raw done = .ok result)
    {k : Key} (hk : Undeclared fields k) : result.get? k = done.get? k := by
  induction fields generalizing done with
  | nil =>
    cases h
    rfl
  | cons f rest ih =>
    obtain ⟨hf, hrest⟩ := List.forall_mem_cons.mp hk
    rcases decodeFields_cons h with ⟨-, h⟩ | ⟨v, w, -, -, h⟩
    · exact ih h hrest
    · rw [ih h hrest, Entries.get?_put, if_neg (Bool.eq_false_iff.mp hf)]

theorem holdsRead_decodeFields (h : decode.decodeFields fields raw done = .ok result)
    (hd : Entries.Distinct fields) : ∀ f ∈ fields, HoldsRead raw result f := by
  induction fields generalizing done with
  | nil => exact nofun
  | cons f rest ih =>
    obtain ⟨hnew, hdistinct⟩ := List.pairwise_cons.mp hd
    have hother : Undeclared rest f.1 := fun g hg => hnew g.1 (List.mem_map_of_mem hg)
    refine List.forall_mem_cons.mpr ?_
    rcases decodeFields_cons h with ⟨hnone, h⟩ | ⟨v, w, hv, hw, h⟩
    · refine ⟨fun u hu => ?_, ih h hdistinct⟩
      rw [hnone] at hu
      cases hu
    · refine ⟨fun u hu => ?_, ih h hdistinct⟩
      rw [hv] at hu
      cases hu
      refine ⟨w, hw, ?_⟩
      rw [get?_decodeFields_of_undeclared h hother, Entries.get?_put, if_pos BEq.rfl]

theorem decode_interface_dict (h : (interface fields).Accepts (.dict raw)) :
    ∃ result, decode.decodeFields fields raw raw = .ok result ∧
      (interface fields).decode (.dict raw) = .ok (.dict result) := by
  obtain ⟨v, hv⟩ := h
  rw [decode] at hv
  obtain ⟨result, hresult, -⟩ := bind_eq_ok.mp hv
  refine ⟨result, hresult, ?_⟩
  rw [decode]
  exact bind_eq_ok.mpr ⟨result, hresult, rfl⟩

theorem decode_intersect_interface (hraw : raw.Distinct) (ha : (interface a).Accepts (.dict raw))
    (hb : (interface b).Accepts (.dict raw)) :
    (intersect (interface a) (interface b)).decode (.dict raw) =
      (interface b).decode (.dict raw) := by
  obtain ⟨left, hleft, hl⟩ := decode_interface_dict ha
  obtain ⟨right, hright, hr⟩ := decode_interface_dict hb
  have hkeys : right.keys = raw.keys := keys_decodeFields hright rfl
  have hdistinct : right.Distinct := by
    rw [Entries.Distinct, hkeys]
    exact hraw
  -- both sides keep the keys of `raw`, so every entry of the left one is written over
  have hmerged : left.overlay right = right :=
    Entries.overlay_of_keys_eq hdistinct ((keys_decodeFields hleft rfl).trans hkeys.symm)
  rw [hr, decode, hl, hr]
  exact congrArg (fun es => Except.ok (Value.dict es)) hmerged

/-- Every field that is there holds what its own side reads, and all else is left as it is. -/
structure KeepsBoth (a b : List (Key × Codec)) (raw result : Entries Key Value) : Prop where
  left : ∀ f ∈ a, HoldsRead raw result f
  right : ∀ f ∈ b, HoldsRead raw result f
  other : ∀ k, Undeclared a k → Undeclared b k → result.get? k = raw.get? k
  keys : result.keys = raw.keys

/-- Of two interfaces that declare different fields, the merged object holds what both read exactly
if the left one changes none of the values that it reads. Of the right one it always does. -/
theorem keepsBoth_iff (hraw : raw.Distinct) (hdb : Entries.Distinct b)
    (hab : ∀ f ∈ a, Undeclared b f.1) (ha : (interface a).Accepts (.dict raw))
    (hb : (interface b).Accepts (.dict raw)) :
    ∃ result, (intersect (interface a) (interface b)).decode (.dict raw) = .ok (.dict result) ∧
      (KeepsBoth a b raw result ↔ ∀ f ∈ a, ∀ v, raw.get? f.1 = some v → f.2.decode v = .ok v) ∧
      KeepsBoth [] b raw result := by
  obtain ⟨right, hright, hr⟩ := decode_interface_dict hb
  have hkept : ∀ k, Undeclared b k → right.get? k = raw.get? k :=
    fun k hk => get?_decodeFields_of_undeclared hright hk
  have hholds : ∀ f ∈ b, HoldsRead raw right f := holdsRead_decodeFields hright hdb
  have hkeys : right.keys = raw.keys := keys_decodeFields hright rfl
  refine ⟨right, (decode_intersect_interface hraw ha hb).trans hr, ⟨fun h f hf v hv => ?_, fun h => ?_⟩,
    nofun, hholds, fun k _ => hkept k, hkeys⟩
  · obtain ⟨w, hw, hheld⟩ := h.left f hf v hv
    rw [hkept f.1 (hab f hf), hv] at hheld
    cases hheld
    exact hw
  · refine ⟨fun f hf v hv => ⟨v, h f hf v hv, ?_⟩, hholds, fun k _ => hkept k, hkeys⟩
    rw [hkept f.1 (hab f hf), hv]

def nameField : Key × Codec := ("name", .string)

def birthField : Key × Codec := ("born", .date)

def personEntries : Entries Key Value :=
  [("born", .str "2024-01-02"), ("name", .str "Ada"), ("note", .null)]

theorem accepts_name : (interface [nameField]).Accepts (.dict personEntries) :=
  ⟨.dict personEntries, rfl⟩

theorem accepts_birth : (interface [birthField]).Accepts (.dict personEntries) := by
  have hread : ((interface [birthField]).decode (.dict personEntries)).isOk = true := by
    decide +kernel
  cases h : (interface [birthField]).decode (.dict personEntries) with
  | ok v => exact ⟨v, h⟩
  | error f =>
    rw [h] at hread
    cases hread

theorem undeclared_of_ne {s t : String} {c : Codec} (h : s ≠ t) : Undeclared [((t : Key), c)] s := by
  intro f hf
  obtain rfl := List.mem_singleton.mp hf
  rw [Key.str_beq_str]
  exact beq_eq_false_iff_ne.mpr h

theorem keepsBoth_nameThenBirth : ∃ result,
    (intersect (interface [nameField]) (interface [birthField])).decode (.dict personEntries) =
      .ok (.dict result) ∧ KeepsBoth [nameField] [birthField] personEntries result := by
  obtain ⟨result, hresult, hkeeps, -⟩ := keepsBoth_iff (by decide +kernel) (by decide +kernel)
    (List.forall_mem_singleton.mpr (undeclared_of_ne (by decide))) accepts_name accepts_birth
  refine ⟨result, hresult, hkeeps.mpr (List.forall_mem_singleton.mpr fun v hv => ?_)⟩
  cases hv
  rfl

/-- The date on the left side is read, and then its text is put in its place again. -/
theorem not_keepsBoth_birthThenName :
    ¬ ∀ (a b : List (Key × Codec)) (raw : Entries Key Value), raw.Distinct → Entries.Distinct a →
      Entries.Distinct b → (∀ f ∈ a, Undeclared b f.1) → (interface a).Accepts (.dict raw) →
      (interface b).Accepts (.dict raw) →
      ∃ result, (intersect (interface a) (interface b)).decode (.dict raw) = .ok (.dict result) ∧
        KeepsBoth a b raw result := by
  intro h
  obtain ⟨result, hresult, hkeeps⟩ := h [birthField] [nameField] personEntries (by decide +kernel)
    (by decide +kernel) (by decide +kernel)
    (List.forall_mem_singleton.mpr (undeclared_of_ne (by decide))) accepts_birth accepts_name
  rw [decode_intersect_interface (by decide +kernel) accepts_birth accepts_name] at hresult
  cases hresult
  obtain ⟨w, hw, hheld⟩ := hkeeps.left birthField (List.mem_singleton_self _) _ rfl
  cases hheld
  have hread : (decodeDate (.str "2024-01-02")).toOption.map Value.kind = some .datetime := by
    decide +kernel
  have hw : decodeDate (.str "2024-01-02") = .ok (.str "2024-01-02") := hw
  rw [hw] at hread
  cases hread

end OpenApi.Codec
