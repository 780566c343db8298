import OpenApi.Proofs.Codec.Accepts
import OpenApi.Proofs.Value.Equal
/-! # Codecs of one literal

A literal is told apart by its sort and by equality. Equality goes into lists and mappings and the sort does
not. So below the surface of a literal a truth value, an integer and a float that count the same are accepted
for each other. A literal is the only value that its codec accepts exactly if it is a scalar or holds no scalar
that has such a twin. -/
namespace OpenApi.Codec

open Value

variable {v raw : Value}

theorem accepts_exactly (hraw : raw.isJson = true) (hv : v.IsLiteral) :
    (exactly v).Accepts raw ↔ raw.kind = v.kind ∧ raw.Equal v := by
  rw [← same_iff hraw hv, Accepts, decode]
  by_cases h : raw.kind = v.kind ∧ raw.same v = true
  · rw [if_pos (by simpa using h)]
    exact iff_of_true ⟨raw, rfl⟩ h
  · rw [if_neg (by simpa using h)]
    exact Decoded.failed_iff rfl h

/-- Of the values that JSON has, the codec of a literal accepts that literal and no other. -/
def AcceptsItselfOnly (v : Value) : Prop :=
  ∀ raw : Value, raw.isJson = true → ((exactly v).Accepts raw ↔ raw.Identical v)

/-- A literal is alone exactly if it is a scalar or holds no scalar with a twin. -/
theorem acceptsItselfOnly_iff (hv : v.IsLiteral) :
    AcceptsItselfOnly v ↔ v.isContainer = false ∨ ∀ w ∈ v.leaves, ¬ w.HasTwin := by
  constructor
  · intro h
    cases hflat : v.isContainer with
    | false => exact .inl rfl
    | true =>
      refine .inr fun w hw htwin => ?_
      obtain ⟨u, hu⟩ := exists_lookalike hv.isJson hw htwin
      have haccepts : (exactly v).Accepts u :=
        (accepts_exactly hu.isJson hv).mpr ⟨Alike.kind_eq hu.equal hflat, hu.equal⟩
      exact hu.differs ((h u hu.isJson).mp haccepts)
  · intro h raw hraw
    rw [accepts_exactly hraw hv]
    refine ⟨fun ⟨hkind, hequal⟩ => ?_, fun hsame => ⟨hsame.kind_eq, hsame.equal⟩⟩
    rcases h with hflat | hno
    · obtain ⟨hscalar, hequal⟩ := Alike.of_scalar hequal hflat
      exact .scalar hscalar hflat (hequal.same hkind)
    · exact Alike.imp hequal fun w hw _ hscalar => hscalar.same_of_no_twin (hno w hw)

theorem acceptsItselfOnly_iff_names :
    let pet : Value := .object [("kind", .str "pet"), ("names", .list [.str "Rex", .null])]
    pet.IsLiteral ∧ AcceptsItselfOnly pet := by
  intro pet
  have hleaves : pet.leaves = [.str "pet", .str "Rex", .null] := rfl
  have hpet : pet.IsLiteral := by
    refine ⟨by decide, fun x hx => ?_⟩
    rw [hleaves] at hx
    simp at hx
  have hno : ∀ w ∈ pet.leaves, ¬ w.HasTwin := by
    rw [hleaves]
    simp [HasTwin]
  exact ⟨hpet, (acceptsItselfOnly_iff hpet).mpr (.inr hno)⟩

/-- A list of `true` passes for a list of one. -/
theorem not_acceptsItselfOnly_one : ¬ ∀ v : Value, v.IsLiteral → AcceptsItselfOnly v := by
  intro h
  have hone : (Value.list [.int 1]).IsLiteral := by
    refine ⟨rfl, fun x hx => ?_⟩
    cases List.mem_singleton.mp hx
  have haccepts : (exactly (.list [.int 1])).Accepts (.list [.bool true]) := ⟨_, rfl⟩
  obtain ⟨items, hitems, hall⟩ := Alike.list_right ((h _ hone _ rfl).mp haccepts)
  cases hitems
  obtain ⟨-, hsame⟩ := (List.forall₂_cons.mp hall).1.of_scalar rfl
  cases hsame

end OpenApi.Codec
