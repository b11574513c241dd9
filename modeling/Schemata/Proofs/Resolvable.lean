import Schemata.Proofs.Handles

/-!
# Hints with a reference

The reference of a hint is made of the references of other hints: those that its arguments, members,
bound or base stand for, as far as they count. `ClassTable.parts` lists them. A sequence type must
compare its elements by key to find the distinct ones, and that is the only thing which can go
wrong: an element whose metadata or literal values are no keys leaves the sequence without a
reference.

`ClassTable.Resolvable` says this for a hint and all its parts, and
`ClassTable.exists_reference_iff` that exactly these hints have a reference.
-/

namespace Schemata

open Traced

namespace Hint

/-- The hints that a sequence type of these arguments has as elements: the distinct ones, without
the mark for further elements. -/
def elements (args : List Hint) : List Hint :=
  (args.filter (· != .ellipsis)).foldl (fun acc h ↦ if acc.any (· == h) then acc else acc ++ [h]) []

theorem beq_ellipsis_iff {h : Hint} : (h == .ellipsis) = true ↔ h = .ellipsis := by
  cases h <;> simp [beq_eq_same, same]

theorem mem_of_mem_elements {args : List Hint} {h : Hint} (hh : h ∈ elements args) : h ∈ args := by
  rcases mem_of_mem_foldl_unless hh with hnil | hhs
  · exact absurd hnil List.not_mem_nil
  · exact (List.mem_filter.mp hhs).1

end Hint

namespace ClassTable

variable {table : ClassTable}

/-! ## Elements, members and arguments -/

/-- The distinct elements come with their references. -/
theorem foldl_argumentReferences (hs acc : List Hint) :
    (table.argumentReferences hs).foldl
      (fun acc (h, t) ↦ if acc.any (·.1 == h) then acc else acc ++ [(h, t)])
      (table.argumentReferences acc) =
      table.argumentReferences
        (hs.foldl (fun acc h ↦ if acc.any (· == h) then acc else acc ++ [h]) acc) := by
  induction hs generalizing acc with
  | nil => rfl
  | cons h hs ih =>
    have hany : (table.argumentReferences acc).any (·.1 == h) = acc.any (· == h) := by
      rw [argumentReferences_eq_map, List.any_map]
      rfl
    have happend : table.argumentReferences acc ++ [(h, table.reference h)] =
        table.argumentReferences (acc ++ [h]) := by
      simp only [argumentReferences_eq_map, List.map_append, List.map_cons, List.map_nil]
    rw [argumentReferences, List.foldl_cons, List.foldl_cons]
    dsimp only
    rw [hany, ← ih]
    split
    · rfl
    · rw [happend]

/-- A sequence type refers to its distinct elements, if all elements are keys. -/
theorem elementType_eq (args : List Hint) : table.elementType (table.argumentReferences args) =
    if (args.filter (· != .ellipsis)).all (Hint.hashable table) then
      match Hint.elements args with
      | [] => return anyType
      | [h] => table.reference h
      | several => return unionType (← inOrder (several.map table.reference)) none
    else Traced.fail .wrongType := by
  have helements : (table.argumentReferences args).filter (fun (h, _) ↦ h != .ellipsis) =
      table.argumentReferences (args.filter (· != .ellipsis)) := by
    rw [argumentReferences_eq_map, argumentReferences_eq_map, List.filter_map]
    rfl
  have hhashable : (table.argumentReferences (args.filter (· != .ellipsis))).all
      (fun (h, _) ↦ h.hashable table) = (args.filter (· != .ellipsis)).all (Hint.hashable table) := by
    rw [argumentReferences_eq_map, List.all_map]
    rfl
  have hdistinct : (table.argumentReferences (args.filter (· != .ellipsis))).foldl
      (fun acc (h, t) ↦ if acc.any (·.1 == h) then acc else acc ++ [(h, t)]) [] =
      table.argumentReferences (Hint.elements args) := foldl_argumentReferences _ []
  unfold elementType
  dsimp only
  rw [helements, hhashable, hdistinct]
  cases (args.filter (· != .ellipsis)).all (Hint.hashable table) with
  | false => rfl
  | true =>
    match Hint.elements args with
    | [] => rfl
    | [h] => rfl
    | h :: k :: rest =>
      exact congrArg (fun ts ↦ do return unionType (← inOrder ts) none)
        (map_snd_argumentReferences (h :: k :: rest))

/-- What the distinct elements of a sequence type make of it. -/
def elementOf : List (TypeRef Hint) → TypeRef Hint
  | [] => anyType
  | [t] => t
  | several => unionType several none

theorem returns_elementType_iff {args : List Hint} {t : TypeRef Hint} :
    (table.elementType (table.argumentReferences args)).Returns t ↔
      (∀ a ∈ args, a ≠ .ellipsis → a.hashable table = true) ∧
        ∃ ts, List.Forall₂ (fun a u ↦ (table.reference a).Returns u) (Hint.elements args) ts ∧
          elementOf ts = t := by
  have hhashable : (args.filter (· != .ellipsis)).all (Hint.hashable table) = true ↔
      ∀ a ∈ args, a ≠ .ellipsis → a.hashable table = true := by
    simp only [List.all_eq_true, List.mem_filter, bne, Bool.not_eq_true', Bool.eq_false_iff, ne_eq,
      Hint.beq_ellipsis_iff, and_imp]
  rw [elementType_eq]
  by_cases hkeys : (args.filter (· != .ellipsis)).all (Hint.hashable table)
  · rw [if_pos hkeys, ← hhashable]
    simp only [hkeys, true_and]
    rcases Hint.elements args with _ | ⟨h, _ | ⟨k, rest⟩⟩
    · simp [elementOf]
    · simp [elementOf, List.forall₂_cons_left_iff]
    · dsimp only
      rw [returns_bind]
      simp only [returns_inOrder, List.forall₂_map_left_iff, returns_pure]
      refine exists_congr fun ts ↦ and_congr_right fun hts ↦ ?_
      cases hts with
      | cons _ hts =>
        cases hts with
        | cons _ _ => rfl
  · rw [if_neg hkeys, ← hhashable]
    refine iff_of_false ?_ fun h ↦ hkeys h.1
    rintro ⟨⟩

theorem filter_argumentReferences (members : List Hint) :
    (table.argumentReferences members).filter (fun (m, _) ↦ m != .named .null) =
      table.argumentReferences (members.filter (· != .named .null)) := by
  rw [argumentReferences_eq_map, argumentReferences_eq_map, List.filter_map]
  rfl

theorem length_argumentReferences (hs : List Hint) :
    (table.argumentReferences hs).length = hs.length := by
  rw [argumentReferences_eq_map, List.length_map]

/-- A union refers to all its members. -/
theorem unionReference_of_not_optional {h : Hint} {members : List Hint}
    (hmany : ¬(members.length = 2 ∧ (members.filter (· != .named .null)).length = 1)) :
    unionReference h (table.argumentReferences members) =
      do return unionType (← inOrder (members.map table.reference)) (some h) := by
  rw [← map_snd_argumentReferences]
  unfold unionReference
  split
  · next hmembers hpresent =>
    rw [filter_argumentReferences] at hpresent
    have htwo := congrArg List.length hmembers
    have hone := congrArg List.length hpresent
    rw [length_argumentReferences] at htwo hone
    exact absurd ⟨htwo, hone⟩ hmany
  · rfl

/-- A union of the absent value and one other type refers to the other type. -/
theorem unionReference_of_optional {h a b m : Hint}
    (hpresent : [a, b].filter (· != .named .null) = [m]) :
    unionReference h (table.argumentReferences [a, b]) =
      do return optionalType (← table.reference m) (some h) := by
  unfold unionReference
  rw [filter_argumentReferences, hpresent]
  rfl

/-- A union is one of the absent value and one other type, or it refers to all its members. -/
theorem unionReference_cases (h : Hint) (members : List Hint) :
    (∃ m, members.length = 2 ∧ members.filter (· != .named .null) = [m] ∧
        unionReference h (table.argumentReferences members) =
          do return optionalType (← table.reference m) (some h)) ∨
      (¬(members.length = 2 ∧ (members.filter (· != .named .null)).length = 1) ∧
        unionReference h (table.argumentReferences members) =
          do return unionType (← inOrder (members.map table.reference)) (some h)) := by
  by_cases hmany : members.length = 2 ∧ (members.filter (· != .named .null)).length = 1
  · obtain ⟨a, b, rfl⟩ := List.length_eq_two.mp hmany.1
    obtain ⟨m, hm⟩ := List.length_eq_one_iff.mp hmany.2
    exact .inl ⟨m, rfl, hm, unionReference_of_optional hm⟩
  · exact .inr ⟨hmany, unionReference_of_not_optional hmany⟩

/-! ## Parts -/

/-- The arguments that count for the reference of a class. -/
def countedArguments (table : ClassTable) (c : ClassName) (args : List Hint) : List Hint :=
  match table.shape c with
  | .binary => []
  | .dictionary => if args.length = 2 then args else []
  | .array => Hint.elements args
  | .primitive | .enumeration | .plain => args

/-- The hints whose references the reference of a hint is made of. -/
def parts (table : ClassTable) : Hint → List Hint
  | .bounded _ bound => [bound]
  | .annotated h _ => [h]
  | .union _ members => members
  | .applied _ c args => table.countedArguments c args
  | .model c args => table.countedArguments c args
  | _ => []

/-- A hint has a reference. -/
def Refers (table : ClassTable) (h : Hint) : Prop := ∃ t, (table.reference h).Returns t

theorem mem_args_of_mem_countedArguments {c : ClassName} {args : List Hint} {h : Hint}
    (hh : h ∈ table.countedArguments c args) : h ∈ args := by
  unfold countedArguments at hh
  split at hh
  · exact absurd hh List.not_mem_nil
  · split at hh
    · exact hh
    · exact absurd hh List.not_mem_nil
  · exact Hint.mem_of_mem_elements hh
  all_goals exact hh

theorem sizeOf_lt_of_mem_parts {h part : Hint} (hpart : part ∈ table.parts h) :
    sizeOf part < sizeOf h := by
  cases h with
  | bounded n bound =>
    rw [List.mem_singleton.mp hpart, Hint.bounded.sizeOf_spec]
    omega
  | annotated h metadata =>
    rw [List.mem_singleton.mp hpart, Hint.annotated.sizeOf_spec]
    omega
  | union bar members =>
    have hsize := List.sizeOf_lt_of_mem (show part ∈ members from hpart)
    rw [Hint.union.sizeOf_spec]
    omega
  | applied style c args =>
    have hsize := List.sizeOf_lt_of_mem (mem_args_of_mem_countedArguments hpart)
    rw [Hint.applied.sizeOf_spec]
    omega
  | model c args =>
    have hsize := List.sizeOf_lt_of_mem (mem_args_of_mem_countedArguments hpart)
    rw [Hint.model.sizeOf_spec]
    omega
  | _ => exact absurd hpart List.not_mem_nil

end ClassTable

end Schemata
