import OpenApi.Codec.Decode
import OpenApi.Json.Writer
import OpenApi.Proofs.Entries
import OpenApi.Proofs.Key
import OpenApi.Proofs.Schema.Related
import OpenApi.Proofs.Time.IsoText
/-! # Values on the wire

JSON has no times, so they are written as their wire text. A value that was read from JSON and comes back to
it this way differs from what it was in the spelling of its times only. -/
namespace OpenApi

namespace Value

/-- The value with its times as texts. -/
def onWire : Value → Value
  | datetime t => .str (datetime t).wireText
  | list items => .list (all items)
  | tuple items => .tuple (all items)
  | dict es => .dict (entries es)
  | v => v
where
  all : List Value → List Value
    | [] => []
    | v :: rest => onWire v :: all rest
  entries : List (Key × Value) → List (Key × Value)
    | [] => []
    | (k, v) :: rest => (k, onWire v) :: entries rest

theorem onWire_list (items : List Value) : (list items).onWire = .list (items.map onWire) := by
  have hall : onWire.all items = items.map onWire := by
    induction items with
    | nil => rfl
    | cons v rest ih => rw [onWire.all, ih, List.map_cons]
  rw [onWire, hall]

theorem onWire_dict (es : Entries Key Value) :
    (dict es).onWire = .dict (Entries.mapValues onWire es) := by
  have hall : onWire.entries es = Entries.mapValues onWire es := by
    induction es with
    | nil => rfl
    | cons e rest ih => rw [onWire.entries, ih, Entries.mapValues, Entries.mapValues, List.map_cons]
  rw [onWire, hall]

/-- The value is one that JSON has: its mappings have texts as keys, each of them once. -/
def isJson : Value → Bool
  | null | bool _ | int _ | float _ | str _ => true
  | list items => all items
  | dict es => decide (Entries.Distinct es) && allEntries es
  | _ => false
where
  all : List Value → Bool
    | [] => true
    | v :: rest => isJson v && all rest
  allEntries : List (Key × Value) → Bool
    | [] => true
    | (k, v) :: rest => k.toValue.str?.isSome && isJson v && allEntries rest

theorem isJson_list {items : List Value} :
    (list items).isJson = true ↔ ∀ v ∈ items, v.isJson = true := by
  rw [isJson]
  induction items with
  | nil => simp [isJson.all]
  | cons v rest ih => rw [isJson.all, Bool.and_eq_true, ih, List.forall_mem_cons]

theorem isJson_dict {es : Entries Key Value} : (dict es).isJson = true ↔
    Entries.Distinct es ∧ ∀ e ∈ es, e.1.toValue.str?.isSome = true ∧ e.2.isJson = true := by
  have hall : isJson.allEntries es = true ↔
      ∀ e ∈ es, e.1.toValue.str?.isSome = true ∧ e.2.isJson = true := by
    induction es with
    | nil => simp [isJson.allEntries]
    | cons e rest ih =>
      rw [isJson.allEntries, Bool.and_eq_true, Bool.and_eq_true, ih, List.forall_mem_cons]
  rw [isJson, Bool.and_eq_true, decide_eq_true_eq, hall]

theorem isJson_of_get? {es : Entries Key Value} (h : (dict es).isJson = true) {k : Key} {v : Value}
    (hk : es.get? k = some v) : v.isJson = true := by
  obtain ⟨e, he, -, hv⟩ := Entries.mem_of_get? hk
  rw [← hv]
  exact ((isJson_dict.1 h).2 e he).2

theorem onWire_of_isJson {v : Value} (h : v.isJson = true) : v.onWire = v := by
  induction v with
  | list items ih =>
    have hall := isJson_list.1 h
    rw [onWire_list, List.map_congr_left fun w hw => ih w hw (hall w hw), List.map_id']
  | dict es ih =>
    obtain ⟨-, hall⟩ := isJson_dict.1 h
    have hentry : ∀ e ∈ es, (e.1, e.2.onWire) = e := fun e he => Prod.ext rfl (ih e he (hall e he).2)
    rw [onWire_dict, Entries.mapValues, List.map_congr_left hentry, List.map_id']
  | datetime t => cases h
  | tuple items _ => cases h
  | null | bool _ | int _ | float _ | str _ | bytes _ | buffer _ | date _ | blob _ => rfl

end Value

namespace Json

/-- On the wire the value has the text that JSON has for `w`, if integers may be of any length. -/
def WrittenAs (v w : Value) : Prop := ∀ level, ∃ text,
  render .line (.unlimited fun v => .ok v.wireText) level v = .ok text ∧
    render .line (.unlimited fun v => .error (.noForm v.kind)) level w = .ok text

theorem writtenAs_list {items : List Value} (h : ∀ v ∈ items, WrittenAs v v.onWire) :
    WrittenAs (.list items) (.list (items.map Value.onWire)) := by
  have hall : ∀ level, ∃ texts,
      render.renderAll .line (.unlimited fun v => .ok v.wireText) level items = .ok texts ∧
        render.renderAll .line (.unlimited fun v => .error (.noForm v.kind)) level
          (items.map Value.onWire) = .ok texts := by
    intro level
    induction items with
    | nil => exact ⟨[], rfl, rfl⟩
    | cons v rest ih =>
      obtain ⟨hv, hrest⟩ := List.forall_mem_cons.1 h
      obtain ⟨text, hwire, hjson⟩ := hv level
      obtain ⟨texts, hwires, hjsons⟩ := ih hrest
      refine ⟨text :: texts, ?_, ?_⟩
      · rw [render.renderAll, hwire, hwires]
        rfl
      · rw [List.map_cons, render.renderAll, hjson, hjsons]
        rfl
  intro level
  obtain ⟨texts, hwires, hjsons⟩ := hall (level + 1)
  exact ⟨_, by rw [render, hwires]; rfl, by rw [render, hjsons]; rfl⟩

theorem writtenAs_dict {es : Entries Key Value}
    (h : ∀ e ∈ es, e.1.toValue.str?.isSome = true ∧ WrittenAs e.2 e.2.onWire) :
    WrittenAs (.dict es) (.dict (Entries.mapValues Value.onWire es)) := by
  have hall : ∀ level, ∃ texts,
      render.renderEntries .line (.unlimited fun v => .ok v.wireText) level es = .ok texts ∧
        render.renderEntries .line (.unlimited fun v => .error (.noForm v.kind)) level
          (Entries.mapValues Value.onWire es) = .ok texts := by
    intro level
    induction es with
    | nil => exact ⟨[], rfl, rfl⟩
    | cons e rest ih =>
      obtain ⟨⟨hk, hv⟩, hrest⟩ := List.forall_mem_cons.1 h
      obtain ⟨k, v⟩ := e
      obtain ⟨text, hwire, hjson⟩ := hv level
      obtain ⟨texts, hwires, hjsons⟩ := ih hrest
      cases k with
      | str s =>
        refine ⟨(quote Style.line.asciiOnly s ++ ": " ++ text) :: texts, ?_, ?_⟩
        · rw [render.renderEntries, hwire, hwires]
          rfl
        · rw [Entries.mapValues, List.map_cons, render.renderEntries, hjson, ← Entries.mapValues, hjsons]
          rfl
      | _ => cases hk
  intro level
  obtain ⟨texts, hwires, hjsons⟩ := hall (level + 1)
  exact ⟨_, by rw [render, hwires]; rfl, by rw [render, hjsons]; rfl⟩

theorem writtenAs_onWire {v : Value} (h : v.onWire.isJson = true) : WrittenAs v v.onWire := by
  induction v with
  | list items ih =>
    rw [Value.onWire_list] at h ⊢
    have hall := Value.isJson_list.1 h
    exact writtenAs_list fun v hv => ih v hv (hall _ (List.mem_map_of_mem hv))
  | dict es ih =>
    rw [Value.onWire_dict] at h ⊢
    obtain ⟨-, hall⟩ := Value.isJson_dict.1 h
    refine writtenAs_dict fun e he => ?_
    obtain ⟨hk, hv⟩ := hall _ (List.mem_map_of_mem he)
    exact ⟨hk, ih e he hv⟩
  | null | bool _ | int _ | float _ | str _ | datetime _ => exact fun _ => ⟨_, rfl, rfl⟩
  | tuple _ _ | bytes _ | buffer _ | date _ | blob _ => cases h

end Json

/-- The time that a codec of dates reads from a text. -/
def timeOf? (s : String) : Option Time.DateTime := Time.DateTime.read? (zuluText s)

/-- The values differ in the spelling of times only. -/
inductive Respelt : Value → Value → Prop
  | same (v : Value) : Respelt v v
  | text {s s' : String} {t : Time.DateTime} (first : timeOf? s = some t)
      (second : timeOf? s' = some t) : Respelt (.str s) (.str s')
  | list {items items' : List Value} (h : List.Forall₂ Respelt items items') :
      Respelt (.list items) (.list items')
  | dict {es es' : Entries Key Value} (keys : es.keys = es'.keys)
      (values : List.Forall₂ Respelt es.values es'.values) : Respelt (.dict es) (.dict es')

def RespeltEntries (es es' : Entries Key Value) : Prop :=
  List.Forall₂ (fun e e' => e.1 = e'.1 ∧ Respelt e.2 e'.2) es es'

theorem RespeltEntries.refl (es : Entries Key Value) : RespeltEntries es es :=
  List.forall₂_same.2 fun e _ => ⟨rfl, .same e.2⟩

theorem RespeltEntries.keys {es es' : Entries Key Value} (h : RespeltEntries es es') :
    Entries.keys es' = Entries.keys es := Entries.Pointwise.keys h

theorem RespeltEntries.respelt {es es' : Entries Key Value} (h : RespeltEntries es es') :
    Respelt (.dict es) (.dict es') := .dict h.keys.symm (Entries.Pointwise.values h)

theorem Respelt.dict_left {es : Entries Key Value} {v : Value} (h : Respelt (.dict es) v) :
    ∃ es', v = .dict es' ∧ RespeltEntries es es' := by
  cases h with
  | same _ => exact ⟨es, rfl, .refl es⟩
  | dict hk hv => exact ⟨_, rfl, Entries.Pointwise.of_values hk hv⟩

theorem Respelt.list_left {items : List Value} {v : Value} (h : Respelt (.list items) v) :
    ∃ items', v = .list items' ∧ List.Forall₂ Respelt items items' := by
  cases h with
  | same _ => exact ⟨items, rfl, List.forall₂_same.2 fun w _ => .same w⟩
  | list h => exact ⟨_, rfl, h⟩

theorem Respelt.kind {v w : Value} (h : Respelt v w) : w.kind = v.kind := by
  cases h <;> rfl

theorem Respelt.isJson {v w : Value} (h : Respelt v w) (hv : v.isJson = true) :
    w.isJson = true := by
  induction v generalizing w with
  | list items ih =>
    obtain ⟨items', rfl, hitems⟩ := h.list_left
    have hall := Value.isJson_list.1 hv
    refine Value.isJson_list.2 fun w hw => ?_
    obtain ⟨v, hmem, hvw⟩ := (partners hitems).2 w hw
    exact ih v hmem hvw (hall v hmem)
  | dict es ih =>
    obtain ⟨es', rfl, hes⟩ := h.dict_left
    obtain ⟨hd, hall⟩ := Value.isJson_dict.1 hv
    refine Value.isJson_dict.2 ⟨?_, fun e' he' => ?_⟩
    · rwa [Entries.Distinct, hes.keys]
    · obtain ⟨e, hmem, hk, hvw⟩ := (partners hes).2 e' he'
      exact ⟨hk ▸ (hall e hmem).1, ih e hmem hvw (hall e hmem).2⟩
  | str s => cases h <;> rfl
  | _ =>
    cases h
    exact hv

end OpenApi
