import OpenApi.Client
import OpenApi.Proofs.Call.Sound
import OpenApi.Proofs.Naming.Operation
/-! # Spaces of a client

A client has every operation of an interface once, in the space of its tag. It is refused only if a
space has a reserved name or two operations have one place. -/
namespace OpenApi

namespace Operation

/-- The name of its space and its own. -/
def place (o : Operation) : String × String := (Naming.spaceName o.tag, o.name)

theorem Declared.compile_name (document : Value) (d : Declared) (name : String) :
    (d.compile document name).Gives fun o => o.name = name := by
  unfold Declared.compile
  refine Compile.gives_bind fun objects => Compile.gives_bind fun ps => ?_
  refine Compile.gives_bind fun responses => Compile.gives_bind fun codecs => ?_
  refine Compile.gives_bind fun path => Compile.gives_bind fun body => ?_
  refine Compile.gives_bind fun returnsJson => Compile.gives_bind fun tags => ?_
  refine Compile.gives_bind fun tag => Compile.gives_bind fun summary => ?_
  exact Compile.gives_bind fun description => Compile.gives_pure rfl

end Operation

namespace Client

def operationsAt (os : List Operation) (k : String) : List Operation :=
  os.filter fun o => Naming.spaceName o.tag == k

def spaceOf (os : List Operation) (k : String) : Space :=
  ⟨k, (operationsAt os k).map fun o => (o.name, o)⟩

def spacesOf (os : List Operation) : Entries String Space :=
  (os.map fun o => Naming.spaceName o.tag).eraseDups.map fun k => (k, spaceOf os k)

/-- No operation is in a reserved space, and each has a place of its own. -/
structure Fits (os : List Operation) : Prop where
  allowed : ∀ o ∈ os, isReserved (Naming.spaceName o.tag) = false
  apart : (os.map Operation.place).Nodup

variable {os : List Operation} {o : Operation} {k : String}

theorem fits_concat : Fits (os ++ [o]) ↔
    Fits os ∧ isReserved (Naming.spaceName o.tag) = false ∧ o.place ∉ os.map Operation.place := by
  constructor
  · rintro ⟨hallowed, hapart⟩
    rw [List.forall_mem_append] at hallowed
    rw [List.map_append, List.nodup_append] at hapart
    refine ⟨⟨hallowed.1, hapart.1⟩, hallowed.2 o List.mem_cons_self, fun hm => ?_⟩
    exact hapart.2.2 _ hm _ List.mem_cons_self rfl
  · rintro ⟨⟨hallowed, hapart⟩, hnew, hplace⟩
    refine ⟨List.forall_mem_append.2 ⟨hallowed, by simpa using hnew⟩, ?_⟩
    rw [List.map_append, List.nodup_append]
    refine ⟨hapart, by simp, fun a ha b hb hab => hplace ?_⟩
    rwa [← List.mem_singleton.1 hb, ← hab]

theorem Fits.of_append {before after : List Operation} (h : Fits (before ++ after)) : Fits before :=
  ⟨fun o ho => h.allowed o (List.mem_append_left _ ho),
    (List.nodup_append.1 (List.map_append ▸ h.apart)).1⟩

theorem mem_operationsAt : o ∈ operationsAt os k ↔ o ∈ os ∧ Naming.spaceName o.tag = k := by
  rw [operationsAt, List.mem_filter, beq_iff_eq]

theorem operationsAt_concat : operationsAt (os ++ [o]) k =
    operationsAt os k ++ if Naming.spaceName o.tag = k then [o] else [] := by
  simp [operationsAt, List.filter_cons]

theorem get?_spacesOf (os : List Operation) (k : String) : (spacesOf os).get? k =
    if k ∈ os.map (fun o => Naming.spaceName o.tag) then some (spaceOf os k) else none :=
  Entries.get?_table _ (spaceOf os) k

theorem spaceOf_of_new (h : k ∉ os.map fun o => Naming.spaceName o.tag) :
    spaceOf os k = ⟨k, []⟩ := by
  have hnone : operationsAt os k = [] :=
    List.filter_eq_nil_iff.2 fun o ho he => h (List.mem_map.2 ⟨o, ho, eq_of_beq he⟩)
  rw [spaceOf, hnone]
  rfl

theorem keys_spaceOf (os : List Operation) (k : String) :
    (spaceOf os k).operations.keys = (operationsAt os k).map Operation.name := by
  simp [spaceOf, Entries.keys, Function.comp_def]

theorem mem_keys_spaceOf {name : String} :
    name ∈ (spaceOf os k).operations.keys ↔ (k, name) ∈ os.map Operation.place := by
  rw [keys_spaceOf, List.mem_map, List.mem_map]
  constructor
  · rintro ⟨o, ho, rfl⟩
    obtain ⟨hmem, rfl⟩ := mem_operationsAt.1 ho
    exact ⟨o, hmem, rfl⟩
  · rintro ⟨o, ho, he⟩
    obtain ⟨rfl, rfl⟩ := Prod.mk.inj he
    exact ⟨o, mem_operationsAt.2 ⟨ho, rfl⟩, rfl⟩

theorem add_spaceOf (h : o.place ∉ os.map Operation.place) :
    (spaceOf os (Naming.spaceName o.tag)).add o =
      .ok (spaceOf (os ++ [o]) (Naming.spaceName o.tag)) := by
  have hnew : ¬ (spaceOf os (Naming.spaceName o.tag)).operations.has o.name = true := by
    rw [Entries.has_iff, mem_keys_spaceOf]
    exact h
  rw [Space.add, if_neg hnew, spaceOf, spaceOf, operationsAt_concat, if_pos rfl, List.map_append]
  rfl

theorem add_spaceOf_of_taken (h : o.place ∈ os.map Operation.place) :
    (spaceOf os (Naming.spaceName o.tag)).add o =
      .error (.boundTwice o.name (Naming.spaceName o.tag)) :=
  if_pos (Entries.has_iff.2 (mem_keys_spaceOf.2 h))

theorem put_spacesOf (os : List Operation) (o : Operation) :
    (spacesOf os).put (Naming.spaceName o.tag) (spaceOf (os ++ [o]) (Naming.spaceName o.tag)) =
      spacesOf (os ++ [o]) := by
  rw [spacesOf, spacesOf, List.map_append]
  refine Entries.put_table fun l _ hl => ?_
  rw [spaceOf, spaceOf, operationsAt_concat, if_neg (Ne.symm hl), List.append_nil]

section Adding

variable (hsound : o.signature.isSound = true)

include hsound

/-- Whether a space is made or is there already, it is the space of what was added before. -/
theorem addOperation_eq_add (h : isReserved (Naming.spaceName o.tag) = false) :
    addOperation (spacesOf os) o = (spaceOf os (Naming.spaceName o.tag)).add o >>= fun space =>
      .ok ((spacesOf os).put (Naming.spaceName o.tag) space) := by
  unfold addOperation
  dsimp only
  rw [get?_spacesOf, hsound]
  by_cases hk : Naming.spaceName o.tag ∈ os.map fun p => Naming.spaceName p.tag
  · rw [if_pos hk]
    rfl
  · rw [if_neg hk, spaceOf_of_new hk, h]
    rfl

theorem addOperation_of_fits (h : Fits (os ++ [o])) :
    addOperation (spacesOf os) o = .ok (spacesOf (os ++ [o])) := by
  obtain ⟨-, hallowed, hplace⟩ := fits_concat.1 h
  rw [addOperation_eq_add hsound hallowed, add_spaceOf hplace, ← put_spacesOf]
  rfl

theorem addOperation_of_not_fits (h : Fits os) (hn : ¬ Fits (os ++ [o])) :
    ∃ f, addOperation (spacesOf os) o = .error f := by
  by_cases hr : isReserved (Naming.spaceName o.tag) = true
  · -- its space is not there yet, since no other operation has a reserved one
    have hnew : Naming.spaceName o.tag ∉ os.map fun p => Naming.spaceName p.tag := by
      intro hm
      obtain ⟨p, hp, he⟩ := List.mem_map.1 hm
      rw [← he, h.allowed p hp] at hr
      cases hr
    unfold addOperation
    dsimp only
    rw [get?_spacesOf, if_neg hnew, hr]
    exact ⟨_, rfl⟩
  · have hallowed := Bool.eq_false_iff.2 hr
    have hplace : o.place ∈ os.map Operation.place := by
      by_contra hplace
      exact hn (fits_concat.2 ⟨h, hallowed, hplace⟩)
    rw [addOperation_eq_add hsound hallowed, add_spaceOf_of_taken hplace]
    exact ⟨_, rfl⟩

end Adding

theorem foldlM_of_fits (before : List Operation) (hsound : ∀ o ∈ os, o.signature.isSound = true)
    (h : Fits (before ++ os)) :
    os.foldlM addOperation (spacesOf before) = .ok (spacesOf (before ++ os)) := by
  induction os generalizing before with
  | nil =>
    rw [List.append_nil]
    rfl
  | cons o os ih =>
    obtain ⟨ho, hos⟩ := List.forall_mem_cons.1 hsound
    rw [List.append_cons] at h ⊢
    rw [List.foldlM_cons, addOperation_of_fits ho h.of_append]
    exact ih _ hos h

theorem foldlM_of_not_fits (before : List Operation) (hsound : ∀ o ∈ os, o.signature.isSound = true)
    (h : Fits before) (hn : ¬ Fits (before ++ os)) :
    ∃ f, os.foldlM addOperation (spacesOf before) = .error f := by
  induction os generalizing before with
  | nil => exact absurd (by rwa [List.append_nil]) hn
  | cons o os ih =>
    obtain ⟨ho, hos⟩ := List.forall_mem_cons.1 hsound
    rw [List.append_cons] at hn
    rw [List.foldlM_cons]
    by_cases hfits : Fits (before ++ [o])
    · rw [addOperation_of_fits ho hfits]
      exact ih _ hos hfits hn
    · obtain ⟨f, hf⟩ := addOperation_of_not_fits ho h hfits
      rw [hf]
      exact ⟨f, rfl⟩

theorem ofApi_of_fits {api : Api} (hsound : ∀ o ∈ api.operations, o.signature.isSound = true)
    (h : Fits api.operations) (isAsync : Bool) :
    ofApi api isAsync = .ok ⟨api, isAsync, spacesOf api.operations⟩ := by
  have hfold : api.operations.foldlM addOperation [] = .ok (spacesOf api.operations) :=
    foldlM_of_fits [] hsound h
  rw [ofApi, hfold]
  rfl

theorem ofApi_of_not_fits {api : Api} (hsound : ∀ o ∈ api.operations, o.signature.isSound = true)
    (h : ¬ Fits api.operations) (isAsync : Bool) : ∃ f, ofApi api isAsync = .error f := by
  have hstart : Fits [] := ⟨by simp, by simp⟩
  obtain ⟨f, hf⟩ := foldlM_of_not_fits [] hsound hstart h
  have hfold : api.operations.foldlM addOperation [] = .error f := hf
  rw [ofApi, hfold]
  exact ⟨f, rfl⟩

theorem perm_flatMap_filter {α κ : Type} [BEq κ] [LawfulBEq κ] (key : α → κ) {ks : List κ}
    (hks : ks.Nodup) {as : List α} (h : ∀ a ∈ as, key a ∈ ks) :
    (ks.flatMap fun k => as.filter fun a => key a == k).Perm as := by
  induction ks generalizing as with
  | nil =>
    rw [List.eq_nil_iff_forall_not_mem.2 fun a ha => List.not_mem_nil (h a ha)]
    exact .nil
  | cons k ks ih =>
    obtain ⟨hk, hks⟩ := List.nodup_cons.1 hks
    have hrest : ∀ a ∈ as.filter (fun a => !(key a == k)), key a ∈ ks := by
      intro a ha
      obtain ⟨ha, hne⟩ := List.mem_filter.1 ha
      exact (List.mem_cons.1 (h a ha)).resolve_left (by simpa using hne)
    have hlater : (ks.flatMap fun l => as.filter fun a => key a == l) =
        ks.flatMap fun l => (as.filter fun a => !(key a == k)).filter fun a => key a == l := by
      refine List.flatMap_congr fun l hl => ?_
      rw [List.filter_filter]
      refine List.filter_congr fun a _ => ?_
      have hlk : l ≠ k := fun he => hk (he ▸ hl)
      by_cases ha : key a = l <;> simp [ha, hlk]
    rw [List.flatMap_cons, hlater]
    exact ((ih hks hrest).append_left _).trans (List.filter_append_perm _ as)

/-- Each operation is there once and is found in its place, and a space lists its operations in order. No
name of a space or of an operation is one that clients or spaces have for themselves. -/
structure Binds (c : Client) (os : List Operation) : Prop where
  once : (c.spaces.flatMap fun s => s.2.operations.values).Perm os
  found : ∀ space name o, c.operation space name = .ok o ↔ o ∈ os ∧ o.place = (space, name)
  listed : ∀ s ∈ c.spaces, s.2.name = s.1 ∧
    s.2.operations = (os.filter fun o => Naming.spaceName o.tag == s.1).map fun o => (o.name, o)
  spaces : ∀ s ∈ c.spaces, isReserved s.1 = false
  names : ∀ o ∈ os, o.name.toList.head? ≠ some '_'

theorem nodup_keys_spaceOf (h : Fits os) (k : String) : (spaceOf os k).operations.keys.Nodup := by
  have hplaces : ((operationsAt os k).map Operation.place).Nodup :=
    h.apart.sublist (List.filter_sublist.map _)
  have hsame : (operationsAt os k).map Operation.place =
      ((operationsAt os k).map Operation.name).map fun name => (k, name) := by
    rw [List.map_map]
    refine List.map_congr_left fun o ho => ?_
    rw [Operation.place, (mem_operationsAt.1 ho).2]
    rfl
  rw [keys_spaceOf]
  exact List.Nodup.of_map _ (hsame ▸ hplaces)

theorem get?_spaceOf (h : Fits os) {name : String} :
    (spaceOf os k).operations.get? name = some o ↔ o ∈ os ∧ o.place = (k, name) := by
  constructor
  · intro hget
    obtain ⟨e, he, hname, rfl⟩ := Entries.mem_of_get? hget
    obtain ⟨o, ho, rfl⟩ := List.mem_map.1 he
    obtain ⟨ho, hk⟩ := mem_operationsAt.1 ho
    exact ⟨ho, Prod.ext hk (eq_of_beq hname).symm⟩
  · rintro ⟨ho, hplace⟩
    obtain ⟨hk, rfl⟩ := Prod.mk.inj hplace
    refine Entries.get?_of_mem (nodup_keys_spaceOf h k) ?_
    exact List.mem_map.2 ⟨o, mem_operationsAt.2 ⟨ho, hk⟩, rfl⟩

theorem operation_eq_ok_iff {c : Client} {space name : String} : c.operation space name = .ok o ↔
    ∃ s, c.spaces.get? space = some s ∧ s.operations.get? name = some o := by
  rw [operation, bind_eq_ok]
  refine exists_congr fun s => and_congr ?_ ?_
  · rw [find]
    cases c.spaces.get? space <;> simp
  · rw [Space.find]
    cases s.operations.get? name <;> simp

theorem binds_spacesOf (h : Fits os) (hnames : ∀ o ∈ os, Naming.Alphanumeric o.name.toList)
    (api : Api) (isAsync : Bool) : Binds ⟨api, isAsync, spacesOf os⟩ os where
  once := by
    have hflat : ((spacesOf os).flatMap fun s => s.2.operations.values) =
        (os.map fun o => Naming.spaceName o.tag).eraseDups.flatMap (operationsAt os) := by
      simp [spacesOf, spaceOf, List.flatMap_map, Entries.values, Function.comp_def]
    show ((spacesOf os).flatMap fun s => s.2.operations.values).Perm os
    rw [hflat]
    exact perm_flatMap_filter _ (Entries.nodup_eraseDups _) fun o ho =>
      List.mem_eraseDups.2 (List.mem_map_of_mem ho)
  found := by
    intro space name o
    rw [operation_eq_ok_iff, ← get?_spaceOf h]
    change (∃ s, (spacesOf os).get? space = some s ∧ _) ↔ _
    constructor
    · rintro ⟨s, hs, ho⟩
      rw [get?_spacesOf, Option.ite_none_right_eq_some] at hs
      obtain ⟨-, hs⟩ := hs
      cases hs
      exact ho
    · intro ho
      obtain ⟨hmem, hplace⟩ := (get?_spaceOf h).1 ho
      have hspace : space ∈ os.map fun p => Naming.spaceName p.tag :=
        List.mem_map.2 ⟨o, hmem, congrArg Prod.fst hplace⟩
      exact ⟨spaceOf os space, by rw [get?_spacesOf, if_pos hspace], ho⟩
  listed := by
    intro s hs
    obtain ⟨k, -, rfl⟩ := List.mem_map.1 hs
    exact ⟨rfl, rfl⟩
  spaces := by
    intro s hs
    obtain ⟨k, hk, rfl⟩ := List.mem_map.1 hs
    obtain ⟨o, ho, rfl⟩ := List.mem_map.1 (List.mem_eraseDups.1 hk)
    exact h.allowed o ho
  names := by
    intro o ho hhead
    have hletter := hnames o ho '_' (List.mem_of_head? hhead)
    revert hletter
    decide

end Client

theorem Api.compile_plain (document : Entries Key Value) (options : Options) (defaults : Value) :
    (Api.compile document options defaults).Gives fun api => ∀ o ∈ api.operations,
      o.signature.isSound = true ∧ Naming.Alphanumeric o.name.toList := by
  refine Api.compile_gives_named (fun d name hd hname => ?_) options defaults
  refine ((d.compile_named _ name).and (d.compile_name _ name)).mono ?_
  rintro o ⟨hnamed, rfl⟩
  exact ⟨Operation.isSound_signature hnamed, (Operation.Declared.isWord_name hd.verb hname).letters⟩

/-- A client is made of every compiled interface, unless a space has a reserved name or two operations
have one place, and it has all operations in their places. -/
theorem Client.ofApi_binds {document : Entries Key Value} {options : Options} {defaults : Value}
    {c d : Compilation} {api : Api}
    (h : (Api.compile document options defaults).run c = (.ok api, d)) (isAsync : Bool) :
    ((∃ f, Client.ofApi api isAsync = .error f) ↔
      (∃ o ∈ api.operations, Client.isReserved (Naming.spaceName o.tag) = true) ∨
        ¬ (api.operations.map fun o => (Naming.spaceName o.tag, o.name)).Nodup) ∧
      ∀ client, Client.ofApi api isAsync = .ok client → client.Binds api.operations := by
  have hall := (Api.compile_plain document options defaults).of_run h
  have hsound := fun o ho => (hall o ho).1
  have hfits : Client.Fits api.operations ↔
      ¬ ((∃ o ∈ api.operations, Client.isReserved (Naming.spaceName o.tag) = true) ∨
        ¬ (api.operations.map fun o => (Naming.spaceName o.tag, o.name)).Nodup) := by
    rw [not_or, not_not]
    constructor
    · rintro ⟨hallowed, hapart⟩
      refine ⟨?_, hapart⟩
      rintro ⟨o, ho, hr⟩
      rw [hallowed o ho] at hr
      cases hr
    · rintro ⟨hallowed, hapart⟩
      exact ⟨fun o ho => Bool.eq_false_iff.2 fun hr => hallowed ⟨o, ho, hr⟩, hapart⟩
  by_cases hf : Client.Fits api.operations
  · rw [Client.ofApi_of_fits hsound hf]
    refine ⟨iff_of_false nofun (hfits.1 hf), fun client hc => ?_⟩
    cases hc
    exact Client.binds_spacesOf hf (fun o ho => (hall o ho).2) api isAsync
  · obtain ⟨f, he⟩ := Client.ofApi_of_not_fits hsound hf isAsync
    rw [he]
    exact ⟨iff_of_true ⟨f, rfl⟩ (by_contra fun hn => hf (hfits.2 hn)), nofun⟩

def petStores : Entries Key Value :=
  let operation (tag id : String) : Value := Value.object [
    ("tags", .list [.str tag]), ("operationId", .str id), ("responses", Value.object [])]
  [(.str "openapi", .str "3.0.0"),
    (.str "info", Value.object [("title", .str "T"), ("version", .str "1")]),
    (.str "paths", Value.object [
      ("/pets", Value.object [("get", operation "pet store" "listPets")]),
      ("/shops", Value.object [("get", operation "shops" "listShops")]),
      ("/orders", Value.object [("post", operation "petStore" "addOrder")])])]

theorem Client.ofApi_binds_petStores : ∃ api d client,
    (Api.compile petStores .default .null).run .start = (.ok api, d) ∧
      Client.ofApi api false = .ok client ∧ client.spaces.keys = ["petStore", "shops"] ∧
      client.Binds api.operations := by
  obtain ⟨api, d, hr, hall⟩ := Compile.exists_run_of_any (c := .start)
    (x := Api.compile petStores .default .null)
    (p := fun api => (Client.ofApi api false).toOption.any fun (client : Client) =>
      decide (client.spaces.keys = ["petStore", "shops"])) (by decide +kernel)
  obtain ⟨-, hbinds⟩ := Client.ofApi_binds hr false
  cases hc : Client.ofApi api false with
  | error f =>
    rw [hc] at hall
    cases hall
  | ok client =>
    rw [hc] at hall
    exact ⟨api, d, client, hr, hc, of_decide_eq_true hall, hbinds client hc⟩

end OpenApi
