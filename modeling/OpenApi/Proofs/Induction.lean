import OpenApi.Schema
/-! # Induction over nested data

Keys, values, schemas and codecs hold lists of their own kind. Each gets one induction principle
whose hypotheses speak of the members of such a list. -/
namespace OpenApi

@[elab_as_elim, induction_eliminator]
theorem Key.induction {motive : Key → Prop} (null : motive .null)
    (bool : ∀ b, motive (.bool b)) (int : ∀ n, motive (.int n)) (float : ∀ x, motive (.float x))
    (str : ∀ s, motive (.str s)) (bytes : ∀ data, motive (.bytes data))
    (date : ∀ d, motive (.date d)) (datetime : ∀ t, motive (.datetime t))
    (tuple : ∀ items, (∀ k ∈ items, motive k) → motive (.tuple items)) (k : Key) : motive k :=
  @Key.rec motive (fun items => ∀ k ∈ items, motive k) null bool int float str bytes date datetime
    tuple (fun _ h => absurd h List.not_mem_nil)
    (fun _ _ hk hrest => List.forall_mem_cons.mpr ⟨hk, hrest⟩) k

@[elab_as_elim, induction_eliminator]
theorem Value.induction {motive : Value → Prop} (null : motive .null)
    (bool : ∀ b, motive (.bool b)) (int : ∀ n, motive (.int n)) (float : ∀ x, motive (.float x))
    (str : ∀ s, motive (.str s))
    (list : ∀ items, (∀ v ∈ items, motive v) → motive (.list items))
    (tuple : ∀ items, (∀ v ∈ items, motive v) → motive (.tuple items))
    (dict : ∀ es, (∀ e ∈ es, motive e.2) → motive (.dict es))
    (bytes : ∀ data, motive (.bytes data)) (buffer : ∀ data, motive (.buffer data))
    (date : ∀ d, motive (.date d)) (datetime : ∀ t, motive (.datetime t))
    (blob : ∀ b, motive (.blob b)) (v : Value) : motive v :=
  @Value.rec motive (fun items => ∀ v ∈ items, motive v)
    (fun es => ∀ e ∈ es, motive e.2) (fun e => motive e.2)
    null bool int float str list tuple dict bytes buffer date datetime blob
    (fun _ h => absurd h List.not_mem_nil)
    (fun _ _ hv hrest => List.forall_mem_cons.mpr ⟨hv, hrest⟩)
    (fun _ h => absurd h List.not_mem_nil)
    (fun _ _ he hrest => List.forall_mem_cons.mpr ⟨he, hrest⟩)
    (fun _ _ hv => hv) v

@[elab_as_elim, induction_eliminator]
theorem Schema.induction {motive : Schema → Prop} (any : motive .any)
    (malformed : motive .malformed) (ref : ∀ pointer, motive (.ref pointer))
    (nullable : ∀ s, motive s → motive (.nullable s))
    (optional : ∀ s, motive s → motive (.optional s))
    (union : ∀ members, (∀ s ∈ members, motive s) → motive (.union members))
    (intersection : ∀ members, (∀ s ∈ members, motive s) → motive (.intersection members))
    (array : ∀ item, motive item → motive (.array item))
    (object : ∀ fields additional, (∀ f ∈ fields, motive f.2) →
      (∀ s, additional = some s → motive s) → motive (.object fields additional))
    (enumeration : ∀ literals, motive (.enumeration literals)) (string : motive .string)
    (number : motive .number) (boolean : motive .boolean) (null : motive .null)
    (date : motive .date) (s : Schema) : motive s :=
  @Schema.rec motive (fun members => ∀ s ∈ members, motive s)
    (fun fields => ∀ f ∈ fields, motive f.2) (fun additional => ∀ s, additional = some s → motive s)
    (fun f => motive f.2)
    any malformed ref nullable optional union intersection array object enumeration string number
    boolean null date
    (fun _ h => absurd h List.not_mem_nil)
    (fun _ _ hs hrest => List.forall_mem_cons.mpr ⟨hs, hrest⟩)
    (fun _ h => absurd h List.not_mem_nil)
    (fun _ _ hf hrest => List.forall_mem_cons.mpr ⟨hf, hrest⟩)
    (fun _ h => nomatch h) (fun _ hs _ h => Option.some.inj h ▸ hs) (fun _ _ hs => hs) s

@[elab_as_elim, induction_eliminator]
theorem Codec.induction {motive : Codec → Prop} (unknown : motive .unknown)
    (string : motive .string) (number : motive .number) (boolean : motive .boolean)
    (null : motive .null) (date : motive .date) (exactly : ∀ literal, motive (.exactly literal))
    (array : ∀ item, motive item → motive (.array item))
    (optional : ∀ inner, motive inner → motive (.optional inner))
    (maybe : ∀ inner, motive inner → motive (.maybe inner))
    (interface : ∀ fields, (∀ f ∈ fields, motive f.2) → motive (.interface fields))
    (record : ∀ item, motive item → motive (.record item))
    (oneOf : ∀ members, (∀ c ∈ members, motive c) → motive (.oneOf members))
    (intersect : ∀ left right, motive left → motive right → motive (.intersect left right))
    (model : ∀ name ref target, (∀ t, target = some t → motive t) →
      motive (.model name ref target)) (c : Codec) : motive c :=
  @Codec.rec motive (fun fields => ∀ f ∈ fields, motive f.2)
    (fun members => ∀ c ∈ members, motive c) (fun target => ∀ t, target = some t → motive t)
    (fun f => motive f.2)
    unknown string number boolean null date exactly array optional maybe interface record oneOf
    intersect model
    (fun _ h => absurd h List.not_mem_nil)
    (fun _ _ hf hrest => List.forall_mem_cons.mpr ⟨hf, hrest⟩)
    (fun _ h => absurd h List.not_mem_nil)
    (fun _ _ hc hrest => List.forall_mem_cons.mpr ⟨hc, hrest⟩)
    (fun _ h => nomatch h) (fun _ ht _ h => Option.some.inj h ▸ ht) (fun _ _ hc => hc) c

end OpenApi
