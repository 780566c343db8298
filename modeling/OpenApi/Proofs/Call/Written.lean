import OpenApi.Proofs.Call.Arguments
import OpenApi.Proofs.Call.Prepared
/-! # Ways to write a call

A call says which values the arguments of an operation have. It may say it by position or by name, the
names in any order, and it may leave out what is null in any case. What is prepared depends on the values
alone. -/
namespace OpenApi

/-- The call says which values the arguments have. Settings that it gives as such are not among them. -/
structure Arguments.Writes (a : Arguments) (o : Operation) (value : String → Value)
    (settings : Option CallOptions) : Prop where
  arguments : o.signature.Writes value a.positional a.named
  given : a.settings = settings
  opts : settings.isSome = true → "opts" ∉ a.named.keys

namespace Operation

def boundTo (o : Operation) (value : String → Value) : Entries String Value :=
  o.signature.map fun slot => (slot.name, value slot.name)

section Written

variable {o : Operation} (hself : ∀ p ∈ o.parameters, p.slotName ≠ receiverName)
  {value : String → Value} {settings : Option CallOptions} {a : Arguments}

include hself

theorem bind_of_writes (h : a.Writes o value settings) : o.bind a = .ok (o.boundTo value) := by
  refine bind_eq_ok_iff.2 ⟨fun hr => ?_, ?_⟩
  · obtain ⟨slot, hslot, hname⟩ := List.mem_map.1 (h.arguments.mem_names hr)
    rcases mem_names_signature (List.mem_map_of_mem (List.mem_of_mem_drop hslot)) with
      ⟨p, hp, hk⟩ | hk
    · exact hself p hp (hk.trans hname)
    · rw [hname] at hk
      exact absurd hk (by decide)
  · have hpassed : (if a.settings.isSome then a.named.erase "opts" else a.named) = a.named := by
      split
      · next hs => exact Entries.erase_of_absent (h.opts (h.given ▸ hs))
      · rfl
    rw [hpassed]
    exact Signature.bind_of_writes (signature_nodup o) h.arguments

end Written

/-- Preparing a call reads what is bound and the settings, and nothing else of the call. -/
theorem prepare_congr {o : Operation} {a b : Arguments} (hb : o.bind a = o.bind b)
    (hs : a.settings = b.settings) (base : Option String) (query : Entries String Value) :
    o.prepare base query a = o.prepare base query b := by
  have hsettings : settingsOf a = settingsOf b := by
    funext bound
    rw [settingsOf, settingsOf, hs]
  rw [prepare, prepare, hb, hsettings]

/-- Calls that say the same values are prepared to the same request, whichever arguments they give by
position, in whichever order they name the others and whichever nulls they leave out. They are refused only
for what they say as further query values, settings or body. -/
theorem prepare_eq_of_writes {o : Operation} (hself : ∀ p ∈ o.parameters, p.slotName ≠ receiverName)
    {value : String → Value} {settings : Option CallOptions} {a b : Arguments}
    (ha : a.Writes o value settings) (hb : b.Writes o value settings) (base : Option String)
    (query : Entries String Value) :
    o.prepare base query a = o.prepare base query b ∧
      ((∃ r, o.prepare base query a = .ok r) ∨
        ∃ f, o.prepare base query a = .error f ∧ o.OtherFault a (o.boundTo value) f) := by
  have hbound := bind_of_writes hself ha
  constructor
  · refine prepare_congr ?_ (ha.given.trans hb.given.symm) base query
    rw [hbound, bind_of_writes hself hb]
  · rcases prepare_cases hbound base query with ⟨f, hf, hother⟩ | ⟨further, own, sent, -, -, -, hr⟩
    · exact .inr ⟨f, hf, hother⟩
    · exact .inl ⟨_, hr⟩

def textParameter (name : String) (location : Location) (required : Bool) : Parameter :=
  ⟨name, name, location, required, none, false, .form, none, .string⟩

def paintFence : Operation where
  name := "paintFence"
  tag := "fences"
  tags := ["fences"]
  verb := .put
  path := "/fences/\x7bid\x7d"
  template := .ofPath "/fences/\x7bid\x7d"
  required := [textParameter "id" .path true, textParameter "first" .query true]
  optional := [textParameter "second" .query false, textParameter "trace" .header false]
  body := some ⟨none, some "text/plain", false, .string⟩
  expected := .unknown
  error := .unknown
  returnsJson := true
  summary := none
  description := none
  deprecated := false

/-- What two calls say of a fence. The trace is null, so one of them leaves it out. -/
def fenceValue (k : String) : Value :=
  if k = "id" then .str "7" else if k = "first" then .str "red" else if k = "second" then .str "blue"
  else if k = "body" then .str "twice" else .null

def fenceByPosition : Arguments :=
  ⟨[.str "7", .str "red", .str "twice"], [("second", .str "blue"), ("trace", .null)], none⟩

def fenceByName : Arguments :=
  ⟨[.str "7"], [("body", .str "twice"), ("second", .str "blue"), ("first", .str "red")], none⟩

theorem signature_paintFence : paintFence.signature =
    [⟨"id", true, true⟩, ⟨"first", true, true⟩, ⟨"body", true, false⟩, ⟨"second", false, false⟩,
      ⟨"trace", false, false⟩, ⟨"query", false, false⟩, ⟨"opts", false, false⟩] := by
  decide +kernel

theorem prepare_eq_of_writes_fence : ∃ r, paintFence.prepare none [] fenceByPosition = .ok r ∧
    paintFence.prepare none [] fenceByName = .ok r := by
  have hself : ∀ p ∈ paintFence.parameters, p.slotName ≠ receiverName := by decide +kernel
  have hposition : fenceByPosition.Writes paintFence fenceValue none := by
    refine ⟨?_, rfl, fun h => absurd h (by decide)⟩
    rw [signature_paintFence]
    constructor <;> simp [fenceByPosition, fenceValue, Entries.keys]
  have hname : fenceByName.Writes paintFence fenceValue none := by
    refine ⟨?_, rfl, fun h => absurd h (by decide)⟩
    rw [signature_paintFence]
    constructor <;> simp [fenceByName, fenceValue, Entries.keys]
  obtain ⟨he, -⟩ := prepare_eq_of_writes hself hposition hname none []
  have hok : (paintFence.prepare none [] fenceByPosition).isOk = true := by decide +kernel
  cases hr : paintFence.prepare none [] fenceByPosition with
  | error f =>
    rw [hr] at hok
    cases hok
  | ok r => exact ⟨r, rfl, he ▸ hr⟩

end Operation

end OpenApi
