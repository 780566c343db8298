import OpenApi.Proofs.Codec.FlatMeaning
import OpenApi.Proofs.Compilation.Recompiled
/-! # Compiling what was compiled, and its meaning

The codec of a schema, written as a schema and compiled again with the same models, may come back
in another notation. What it decodes and what it is written as stay the same. -/
namespace OpenApi

open Catalogue (Coherent)

variable {document node : Value} {abandoned : List String} {c d : Compilation} {codec : Codec}

theorem compileSchema_schemaValue (hd : Coherent document abandoned abandoned d.catalogue)
    (hplain : codec.Plain (d.catalogue.answer abandoned)) :
    (compileSchema document codec.schemaValue).run d = (.ok codec.flat, d) := by
  have hflat := (Schema.recompiles hplain).compile
  apply Schema.compile_related (relates_settles d) _ (fun r _ => modelCodec_settles hd _ r)
  exact hflat

/-- Writing a codec as a schema loses nothing of its meaning: the schema compiles with the same
models, to a codec that decodes every value alike and is written as the same schema again. -/
theorem decode_schema_again (h : Reachable document c)
    (run : (compileSchema document node).run c = (.ok codec, d)) :
    ∃ again, (compileSchema document codec.schemaValue).run d = (.ok again, d) ∧
      (∀ raw, again.decode raw = codec.decode raw) ∧ again.schema = codec.schema := by
  obtain ⟨abandoned, hc⟩ := h.coherent
  obtain ⟨hd, -, hcodec⟩ := compileSchema_ok hc run
  have hplain : codec.Plain (d.catalogue.answer abandoned) :=
    Schema.compile_closed (Codec.closed_plain _) (Schema.regular_ofValue node)
      (fun _ _ _ => plain_answer hd) hcodec
  refine ⟨codec.flat, compileSchema_schemaValue hd hplain, fun raw => ?_, Codec.schema_flat codec⟩
  exact (congrFun (Codec.alike_flat codec).2 raw).symm

def petWithStatus : Value :=
  .object [("type", .str "object"), ("required", .list [.str "status"]),
    ("properties", .object [("status", .object [("$ref", .str "#/Status"),
      ("nullable", .bool true)]), ("born", .object [("type", .str "string"),
      ("format", .str "date-time")])]),
    ("additionalProperties", .object [("enum", .list [.str "a", .null]),
      ("nullable", .bool true)])]

theorem decode_schema_again_petWithStatus :
    ∃ codec d, (compileSchema (.object [("Status", nullableEnumeration)]) petWithStatus).run
        .start = (.ok codec, d) ∧
      ∃ again, (compileSchema (.object [("Status", nullableEnumeration)])
          codec.schemaValue).run d = (.ok again, d) ∧
        (∀ raw, again.decode raw = codec.decode raw) ∧ again.schema = codec.schema := by
  obtain ⟨codec, d, run⟩ := Compile.exists_run
    (show ((compileSchema (.object [("Status", nullableEnumeration)]) petWithStatus).run
      .start).1.isOk from by decide +kernel)
  exact ⟨codec, d, run, decode_schema_again .start run⟩

end OpenApi
