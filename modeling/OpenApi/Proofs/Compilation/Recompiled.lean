import OpenApi.Proofs.Compilation.Reachable
import OpenApi.Proofs.Schema.NullTwice
import OpenApi.Proofs.Schema.Recompiled
/-! # Compiling what was compiled

The codec of a schema may be written as a schema and compiled again with the same models. Nothing
new is asked of the catalogue then, and the codec comes back flat. -/
namespace OpenApi

open Catalogue (Coherent)

variable {document node : Value} {abandoned : List String} {c d : Compilation} {k : Catalogue}
  {codec : Codec}

/-- In the state `d`, the computation succeeds without a change whenever the other one does. -/
def Settles (d : Compilation) (α : Type) (x : Compile α) (y : Except Fault α) : Prop :=
  ∀ a, y = .ok a → x.run d = (.ok a, d)

theorem relates_settles (d : Compilation) : Schema.Relates Compile (Except Fault) (Settles d) where
  pure _ _ h := Except.ok.inj h ▸ rfl
  throw _ _ h := nomatch h
  bind {_ _ x y f g} hx hf b hb := by
    obtain ⟨a, ha, hg⟩ := bind_eq_ok.mp hb
    rw [Compile.run_bind, hx a ha]
    exact hf a b hg

theorem modelCodec_settles (h : Coherent document abandoned abandoned d.catalogue) (depth : Nat)
    (r : String) :
    Settles d Codec (modelCodec document (depth + 1) r) (d.catalogue.answer abandoned r) := by
  intro b hb
  obtain ⟨a, ha, hcase⟩ := Catalogue.answer_eq_ok hb
  obtain ⟨target, ht, hname, -⟩ := h.origin ha
  have hends : (modelCodec document (depth + 1) r).EndsIn (fun x e => x = b ∧ e = d)
      (fun _ => False) d := by
    unfold modelCodec
    rw [ht]
    refine Compile.endsIn_bind.mpr (Compile.endsIn_ok.mpr ?_)
    rw [hname]
    refine Compile.endsIn_bind.mpr (Compile.endsIn_ok.mpr ?_)
    refine Compile.endsIn_bind.mpr (Compile.endsIn_catalogue.mpr ?_)
    rw [ha]
    refine Compile.endsIn_bind.mpr (Compile.endsIn_catalogue.mpr ?_)
    refine (Compile.endsIn_pure _).mpr ⟨?_, rfl⟩
    rcases hcase with ⟨hr, rfl⟩ | ⟨hr, -, rfl⟩
    · exact if_neg fun hd => (h.isDefined_iff ha).mp hd hr
    · exact if_pos ((h.isDefined_iff ha).mpr hr)
  exact hends.run_eq

theorem plain_answer (h : Coherent document abandoned abandoned k) {r : String}
    (hr : k.answer abandoned r = .ok codec) : codec.Plain (k.answer abandoned) := by
  obtain ⟨a, ha, ⟨-, rfl⟩ | ⟨-, -, rfl⟩⟩ := Catalogue.answer_eq_ok hr
  · exact .unknown
  · obtain rfl := h.ref_eq ha
    exact .model hr

theorem answer_flat {r : String} (hr : k.answer abandoned r = .ok codec) :
    codec.isMaybe = false ∧ codec.flat = codec := by
  obtain ⟨a, -, ⟨-, rfl⟩ | ⟨-, -, rfl⟩⟩ := Catalogue.answer_eq_ok hr
  · exact ⟨rfl, rfl⟩
  · exact ⟨rfl, rfl⟩

/-- A codec that is compiled again comes back flat and leaves no trace. If it has a notation it is noted
as before unless its schema admits null twice. -/
theorem compileSchema_again (h : Reachable document c)
    (run : (compileSchema document node).run c = (.ok codec, d)) :
    (compileSchema document codec.schemaValue).run d = (.ok codec.flat, d) ∧
      ∀ text, codec.describe = .ok text →
        (codec.flat.describe = .ok text ↔ ¬ (Schema.ofValue node).NullTwice) := by
  obtain ⟨abandoned, hc⟩ := h.coherent
  obtain ⟨hd, -, hcodec⟩ := compileSchema_ok hc run
  have hplain := Schema.compile_closed (Codec.closed_plain (d.catalogue.answer abandoned))
    (Schema.regular_ofValue node) (fun _ _ _ => plain_answer hd) hcodec
  constructor
  · exact Schema.compile_related (relates_settles d) _ (fun r _ => modelCodec_settles hd _ r) _
      (Schema.recompiles hplain).compile
  · intro text htext
    rw [Codec.describe_flat_iff htext]
    exact Schema.flat_iff (fun _ _ _ => answer_flat) hcodec

def nameList : Value := .object [("items", .object [("$ref", .str "#/Name")])]

theorem compileSchema_again_nameList :
    ∃ codec d, (compileSchema (.object [("Name", .object [("type", .str "string")])]) nameList).run
        .start = (.ok codec, d) ∧
      (compileSchema (.object [("Name", .object [("type", .str "string")])])
        codec.schemaValue).run d = (.ok codec.flat, d) ∧
      ∀ text, codec.describe = .ok text →
        (codec.flat.describe = .ok text ↔ ¬ (Schema.ofValue nameList).NullTwice) := by
  obtain ⟨codec, d, run⟩ := Compile.exists_run
    (show ((compileSchema (.object [("Name", .object [("type", .str "string")])]) nameList).run
      .start).1.isOk from by decide +kernel)
  exact ⟨codec, d, run, compileSchema_again .start run⟩

/-- Null is among the literals, and the node is nullable besides. -/
def nullableEnumeration : Value :=
  .object [("enum", .list [.str "a", .null]), ("nullable", .bool true)]

theorem compileSchema_again_differs :
    ¬ ∀ document node c d codec, Reachable document c →
      (compileSchema document node).run c = (.ok codec, d) →
      ∃ again e, (compileSchema document codec.schemaValue).run d = (.ok again, e) ∧
        again.describe = codec.describe := by
  intro h
  have hrun : (compileSchema (.object []) nullableEnumeration).run .start =
      (.ok (.maybe (.maybe (.exactly (.str "a")))), .start) := rfl
  have hflat : (compileSchema (.object [])
      (Codec.maybe (.maybe (.exactly (.str "a")))).schemaValue).run .start =
      (.ok (.maybe (.exactly (.str "a"))), .start) := rfl
  obtain ⟨again, e, hagain, hsame⟩ := h _ _ _ _ _ .start hrun
  rw [hflat] at hagain
  cases hagain
  exact absurd hsame (by decide +kernel)

end OpenApi
