import Schemata.Classes.Members
import Schemata.Proofs.Likeness

/-!
# Handles

The reference of a hint carries a hint again: what is left of it once metadata, type parameters and
literal values are gone. `ClassTable.handle` names that hint, and a reference is returned with it
exactly as it is for the hint itself. A handle stands for a class or is a union, and the names of
the reference say which: those of the class, or one of the two words for unions.

So where full names tell classes apart, references to the same type have handles of one class or are
both unions. What a host knows of a class by its handle alone, whether it is a record and which
metadata it carries, is then the same for both.
-/

namespace Schemata

namespace Hint

/-- The class that a hint stands for, applied to arguments or not. -/
def head? : Hint → Option ClassName
  | named c => some c
  | bare c => some c
  | applied _ c _ => some c
  | model c _ => some c
  | _ => none

/-- Full names tell the classes of two hints apart, from each other and from unions. -/
structure ToldApart (h k : Hint) : Prop where
  /-- Classes of one full name are one class. -/
  classes : ∀ c ∈ h.head?, ∀ d ∈ k.head?, c.fullName = d.fullName → c = d
  /-- The class of the first hint is not named like a union. -/
  left : ∀ c ∈ h.head?, c.fullName ≠ "typing.Union" ∧ c.fullName ≠ "typing.Optional"
  /-- The class of the second hint is not named like a union. -/
  right : ∀ c ∈ k.head?, c.fullName ≠ "typing.Union" ∧ c.fullName ≠ "typing.Optional"

theorem beq_eq_same (h k : Hint) : (h == k) = h.same k := rfl

theorem classBehind_of_head {k : Hint} {c : ClassName} (h : k.head? = some c) :
    k.classBehind = some (.named c) ∨ ∃ args, k = .model c args := by
  cases k with
  | named d => obtain rfl := Option.some.inj h; exact .inl rfl
  | bare d => obtain rfl := Option.some.inj h; exact .inl rfl
  | applied style d args => obtain rfl := Option.some.inj h; exact .inl rfl
  | model d args => obtain rfl := Option.some.inj h; exact .inr ⟨args, rfl⟩
  | _ => exact nomatch h

end Hint

namespace ClassTable

variable (table : ClassTable)

/-! ## The handle of a hint -/

/-- The hint that the reference of a hint carries. -/
def handle : Hint → Hint
  | .null => .named .null
  | .named c => .named c
  | .bare c => .bare c
  | .applied style c args => .applied style c args
  | .model c args => .model c args
  | .union bar members => .union bar members
  | .bounded _ bound => handle bound
  | .annotated h _ => handle h
  | .literal (d :: _) => .named (d.cls table)
  | _ => .named .any

variable {table}

theorem argumentReferences_eq_map (hs : List Hint) :
    table.argumentReferences hs = hs.map fun h ↦ (h, table.reference h) := by
  induction hs with
  | nil => rfl
  | cons h hs ih => rw [argumentReferences, List.map_cons, ih]

theorem map_snd_argumentReferences (hs : List Hint) :
    (table.argumentReferences hs).map (·.2) = hs.map table.reference := by
  rw [argumentReferences_eq_map, List.map_map]
  rfl

/-- A handle stands for a class, or it is a union. -/
theorem handle_cases : ∀ h : Hint,
    (∃ c, (table.handle h).head? = some c) ∨ ∃ bar members, table.handle h = .union bar members
  | .null => .inl ⟨_, rfl⟩
  | .named _ => .inl ⟨_, rfl⟩
  | .bare _ => .inl ⟨_, rfl⟩
  | .applied _ _ _ => .inl ⟨_, rfl⟩
  | .model _ _ => .inl ⟨_, rfl⟩
  | .union _ _ => .inr ⟨_, _, rfl⟩
  | .bounded _ bound => by rw [handle]; exact handle_cases bound
  | .annotated h _ => by rw [handle]; exact handle_cases h
  | .literal [] => .inl ⟨_, rfl⟩
  | .literal (_ :: _) => .inl ⟨_, rfl⟩
  | .ellipsis => .inl ⟨_, rfl⟩
  | .text _ => .inl ⟨_, rfl⟩
  | .forward _ => .inl ⟨_, rfl⟩
  | .parameter _ => .inl ⟨_, rfl⟩
  | .classVar _ => .inl ⟨_, rfl⟩
  | .anyClassVar => .inl ⟨_, rfl⟩
  | .initVar _ => .inl ⟨_, rfl⟩
  | .special _ _ => .inl ⟨_, rfl⟩

theorem outcome_reference_handle : ∀ h : Hint,
    (table.reference (table.handle h)).outcome = (table.reference h).outcome
  | .null => rfl
  | .named _ => rfl
  | .bare _ => rfl
  | .applied _ _ _ => rfl
  | .model _ _ => rfl
  | .union _ _ => rfl
  | .bounded _ bound => by rw [handle, outcome_reference_handle bound, reference]
  | .annotated h _ => by rw [handle, outcome_reference_handle h, reference]
  | .literal [] => rfl
  | .literal (_ :: _) => by rw [handle, reference, reference]
  | .ellipsis => rfl
  | .text _ => rfl
  | .forward _ => rfl
  | .parameter _ => rfl
  | .classVar _ => rfl
  | .anyClassVar => rfl
  | .initVar _ => rfl
  | .special _ _ => rfl

theorem returns_reference_handle {h : Hint} {t : TypeRef Hint} :
    (table.reference (table.handle h)).Returns t ↔ (table.reference h).Returns t := by
  rw [Traced.Returns, Traced.Returns, outcome_reference_handle]

/-! ## References of classes and of unions -/

section Returned

variable {h k : Hint} {c : ClassName} {t : TypeRef Hint}

theorem names_of_shapedReference {args : List (Hint × Traced (TypeRef Hint))}
    (e : (table.shapedReference h c args).Returns t) :
    t.fullName = c.fullName ∧ t.simpleName = c.simpleName ∧ t.source = some h := by
  unfold shapedReference at e
  split at e
  · obtain rfl := Traced.returns_pure.mp e
    exact ⟨rfl, rfl, rfl⟩
  · split at e
    · obtain ⟨_, _, e⟩ := Traced.returns_bind.mp e
      obtain ⟨_, _, e⟩ := Traced.returns_bind.mp e
      obtain rfl := Traced.returns_pure.mp e
      exact ⟨rfl, rfl, rfl⟩
    · obtain rfl := Traced.returns_pure.mp e
      exact ⟨rfl, rfl, rfl⟩
  all_goals
    obtain ⟨_, _, e⟩ := Traced.returns_bind.mp e
    obtain rfl := Traced.returns_pure.mp e
    exact ⟨rfl, rfl, rfl⟩

theorem names_of_classReference (e : (table.classReference c).Returns t) :
    t.fullName = c.fullName ∧ t.simpleName = c.simpleName ∧ t.source = some (.named c) := by
  unfold classReference at e
  split at e
  · rename_i hc
    obtain rfl := Traced.returns_pure.mp e
    subst hc
    exact ⟨rfl, rfl, rfl⟩
  · split at e
    · rename_i hc
      obtain rfl := Traced.returns_pure.mp e
      subst hc
      exact ⟨rfl, rfl, rfl⟩
    · exact names_of_shapedReference e

theorem names_of_head (hk : k.head? = some c) (e : (table.reference k).Returns t) :
    t.fullName = c.fullName ∧ t.simpleName = c.simpleName ∧ t.source = some k := by
  cases k with
  | named d => obtain rfl := Option.some.inj hk; exact names_of_classReference e
  | bare d => obtain rfl := Option.some.inj hk; exact names_of_shapedReference e
  | applied style d args => obtain rfl := Option.some.inj hk; exact names_of_shapedReference e
  | model d args => obtain rfl := Option.some.inj hk; exact names_of_shapedReference e
  | _ => exact nomatch hk

/-- The reference of a union has one of the two words for unions as its name and carries the
hint. -/
theorem names_of_union {bar : Bool} {members : List Hint}
    (e : (table.reference (.union bar members)).Returns t) :
    (t.fullName = "typing.Union" ∨ t.fullName = "typing.Optional") ∧
      t.source = some (.union bar members) := by
  unfold reference unionReference at e
  split at e
  · obtain ⟨_, _, e⟩ := Traced.returns_bind.mp e
    obtain rfl := Traced.returns_pure.mp e
    exact ⟨.inr rfl, rfl⟩
  · obtain ⟨_, _, e⟩ := Traced.returns_bind.mp e
    obtain rfl := Traced.returns_pure.mp e
    exact ⟨.inl rfl, rfl⟩

/-- The reference of a hint carries its handle. -/
theorem source_of_reference (e : (table.reference h).Returns t) :
    t.source = some (table.handle h) := by
  have e := returns_reference_handle.mpr e
  obtain ⟨c, hc⟩ | ⟨bar, members, hu⟩ := table.handle_cases h
  · exact (names_of_head hc e).2.2
  · rw [hu] at e ⊢
    exact (names_of_union e).2

/-- A declared class refers to its arguments, one by one. -/
theorem forall₂_generics {d : DeclaredClass} {args : List Hint} (hd : table.find? c = some d)
    (hk : (∃ style, k = .applied style c args) ∨ k = .model c args)
    (e : (table.reference k).Returns t) :
    List.Forall₂ (fun a g ↦ (table.reference a).Returns g) args t.generics := by
  have e : (table.shapedReference k c (table.argumentReferences args)).Returns t := by
    obtain ⟨style, rfl⟩ | rfl := hk <;> rwa [reference] at e
  have hshape : table.shape c = .enumeration ∨ table.shape c = .plain := by
    rw [shape, hd]
    dsimp only
    split
    · exact .inl rfl
    · exact .inr rfl
  have hgenerics :
      (inOrder ((table.argumentReferences args).map (·.2))).Returns t.generics := by
    unfold shapedReference at e
    obtain hshape | hshape := hshape
    · rw [hshape] at e
      obtain ⟨generics, hg, e⟩ := Traced.returns_bind.mp e
      obtain rfl := Traced.returns_pure.mp e
      exact hg
    · rw [hshape] at e
      obtain ⟨generics, hg, e⟩ := Traced.returns_bind.mp e
      obtain rfl := Traced.returns_pure.mp e
      exact hg
  rw [map_snd_argumentReferences, Traced.returns_inOrder, List.forall₂_map_left_iff] at hgenerics
  exact hgenerics

end Returned

/-! ## References to the same type -/

section Same

variable {h₁ h₂ : Hint} {t₁ t₂ : TypeRef Hint}

/-- References to the same type are of one class, or they are both unions. -/
theorem heads_of_same (e₁ : (table.reference h₁).Returns t₁)
    (e₂ : (table.reference h₂).Returns t₂)
    (names : Hint.ToldApart (table.handle h₁) (table.handle h₂)) (same : t₁ == t₂) :
    (∃ c, (table.handle h₁).head? = some c ∧ (table.handle h₂).head? = some c) ∨
      ((∃ bar members, table.handle h₁ = .union bar members) ∧
        ∃ bar members, table.handle h₂ = .union bar members) := by
  have e₁ := returns_reference_handle.mpr e₁
  have e₂ := returns_reference_handle.mpr e₂
  have hfull : t₁.fullName = t₂.fullName :=
    TypeRef.fullName_eq_of_identity (TypeRef.beq_iff_identity.mp same)
  obtain ⟨c, hc⟩ | hu := table.handle_cases h₁
  · have hcf := (names_of_head hc e₁).1
    obtain ⟨d, hd⟩ | ⟨bar, members, hu⟩ := table.handle_cases h₂
    · have hdf := (names_of_head hd e₂).1
      obtain rfl := names.classes c hc d hd (by rw [← hcf, ← hdf, hfull])
      exact .inl ⟨c, hc, hd⟩
    · rw [hu] at e₂
      have hword := (names_of_union e₂).1
      rw [← hfull, hcf] at hword
      exact absurd hword (not_or.mpr (names.left c hc))
  · obtain ⟨d, hd⟩ | hu' := table.handle_cases h₂
    · have hdf := (names_of_head hd e₂).1
      obtain ⟨bar, members, hu⟩ := hu
      rw [hu] at e₁
      have hword := (names_of_union e₁).1
      rw [hfull, hdf] at hword
      exact absurd hword (not_or.mpr (names.right d hd))
    · exact .inr ⟨hu, hu'⟩

end Same

/-! ## A model and its class -/

section Models

variable {c : ClassName} {args : List Hint}

theorem declaredAncestry_model :
    table.declaredAncestry (.model c args) = table.declaredAncestry (.named c) := rfl

theorem extends_model {ancestor : ClassName} :
    table.extends? (.model c args) ancestor = table.extends? (.named c) ancestor := by
  have hne : (Hint.named ancestor == Hint.model c args) = false := by
    simp [Hint.beq_eq_same, Hint.same]
  rw [extends?, extends?, ancestry, ancestry, List.contains_cons, hne, Bool.false_or]

theorem isEnum_model : table.isEnum (.model c args) = table.isEnum (.named c) := extends_model

theorem isModel_model : table.isModel (.model c args) = table.isModel (.named c) := extends_model

theorem isRecord_model : table.isRecord (.model c args) = table.isRecord (.named c) := by
  rw [isRecord, isRecord, layout?, layout?, isNamedTuple, isNamedTuple, places?, places?,
    declaredAncestry_model, isModel_model]

end Models

/-! ## What the class behind a reference decides -/

/-- No declared class takes the name of a library class. -/
def OwnNames (table : ClassTable) : Prop := ∀ l ∈ LibraryClass.all, table.find? l.name = none

theorem OwnNames.find?_barUnion (own : table.OwnNames) : table.find? .barUnion = none :=
  own (LibraryClass.all[16]) (List.getElem_mem _)

theorem OwnNames.find?_root (own : table.OwnNames) : table.find? .root = none :=
  own (LibraryClass.all[1]) (List.getElem_mem _)

theorem isRecord_barUnion (own : table.OwnNames) : table.isRecord (.named .barUnion) = false := by
  have hancestry : table.ancestry (.named .barUnion) = [.named .barUnion, .named .root] := by
    rw [ancestry, ancestryOf, own.find?_barUnion]
    rfl
  have hdeclared : table.declaredAncestry (.named .barUnion) = [] := by
    rw [declaredAncestry, hancestry]
    simp [own.find?_barUnion, own.find?_root]
  have hmodel : table.isModel (.named .barUnion) = false := by
    rw [isModel, extends?, hancestry]
    simp [Hint.beq_eq_same, Hint.same]
    decide
  rw [isRecord, layout?, isNamedTuple, places?, hdeclared, hmodel]
  rfl

section Answers

variable {h₁ h₂ : Hint} {t₁ t₂ : TypeRef Hint}

theorem classOf_of_reference {h : Hint} {t : TypeRef Hint} (e : (table.reference h).Returns t) :
    table.classOf t = (table.handle h).classBehind := by
  rw [classOf, source_of_reference e]

/-- References to the same type are records together. -/
theorem isRecord_of_same (own : table.OwnNames) (e₁ : (table.reference h₁).Returns t₁)
    (e₂ : (table.reference h₂).Returns t₂)
    (names : Hint.ToldApart (table.handle h₁) (table.handle h₂)) (same : t₁ == t₂) :
    ((table.classOf t₁).map table.isRecord).getD false =
      ((table.classOf t₂).map table.isRecord).getD false := by
  have hclass {k : Hint} {c : ClassName} (hk : k.head? = some c) :
      (k.classBehind.map table.isRecord).getD false = table.isRecord (.named c) := by
    obtain hb | ⟨args, rfl⟩ := Hint.classBehind_of_head hk
    · rw [hb]
      rfl
    · exact isRecord_model
  have hunion (bar : Bool) (members : List Hint) :
      ((Hint.union bar members).classBehind.map table.isRecord).getD false = false := by
    cases bar with
    | false => rfl
    | true => exact isRecord_barUnion own
  rw [classOf_of_reference e₁, classOf_of_reference e₂]
  obtain ⟨c, hc₁, hc₂⟩ | ⟨⟨bar, members, hu₁⟩, ⟨bar', members', hu₂⟩⟩ :=
    heads_of_same e₁ e₂ names same
  · rw [hclass hc₁, hclass hc₂]
  · rw [hu₁, hu₂, hunion, hunion]

/-- The metadata of a class comes with every reference to it. -/
theorem tags_of_head {h : Hint} {t : TypeRef Hint} {c : ClassName}
    (e : (table.reference h).Returns t) (hc : (table.handle h).head? = some c)
    (hunion : c.fullName ≠ "typing.Union" ∧ c.fullName ≠ "typing.Optional") :
    table.tags t = Datum.toTags table (table.attachedTo (.named c)) := by
  have hfull := (names_of_head hc (returns_reference_handle.mpr e)).1
  have hnotUnion : (t.fullName == "typing.Union") = false := by
    rw [hfull]
    exact beq_false_of_ne hunion.1
  have hnotOptional : (t.fullName == "typing.Optional") = false := by
    rw [hfull]
    exact beq_false_of_ne hunion.2
  rw [tags, hnotUnion, hnotOptional, classOf_of_reference e]
  obtain hb | ⟨args, hk⟩ := Hint.classBehind_of_head hc
  · rw [hb]
    rfl
  · rw [hk]
    rfl

/-- A union says what it is made of, and nothing else. -/
theorem tags_of_union (own : table.OwnNames) {h : Hint} {t : TypeRef Hint} {bar : Bool}
    {members : List Hint} (e : (table.reference h).Returns t)
    (hu : table.handle h = .union bar members) :
    table.tags t =
      if t.generics.isEmpty then pure []
      else if t.fullName == "typing.Union" then pure [anyOf t.generics]
      else pure [anyOf (t.generics ++ [nullType])] := by
  have hword := returns_reference_handle.mpr e
  rw [hu] at hword
  have hclass : table.classOf t = none ∨ table.classOf t = some (.named .barUnion) := by
    rw [classOf_of_reference e, hu]
    cases bar with
    | false => exact .inl rfl
    | true => exact .inr rfl
  have hattached : table.attachedTo (.named .barUnion) = [] := by
    rw [attachedTo, declaredBehind?, own.find?_barUnion]
    rfl
  rw [tags]
  cases hg : t.generics.isEmpty with
  | true =>
    rw [Bool.not_true, Bool.and_false, Bool.and_false]
    obtain hclass | hclass := hclass
    · rw [hclass]
      rfl
    · rw [hclass]
      dsimp only
      rw [hattached]
      rfl
  | false =>
    obtain hfull | hfull := (names_of_union hword).1
    · rw [hfull]
      rfl
    · rw [hfull]
      rfl

theorem anyOf_identity {ts us : List (TypeRef Hint)}
    (h : ts.map TypeRef.identity = us.map TypeRef.identity) :
    (anyOf ts).identity = (anyOf us).identity := by
  simp only [anyOf, Tag.ofEntries, Tag.setEntry, List.foldl, Tag.identity, Tag.entryIdentities,
    TagValue.identity, TagValue.identities_types h]

/-- References to the same type have tags that look the same. -/
theorem tags_of_same (own : table.OwnNames) (e₁ : (table.reference h₁).Returns t₁)
    (e₂ : (table.reference h₂).Returns t₂)
    (names : Hint.ToldApart (table.handle h₁) (table.handle h₂)) (same : t₁ == t₂) :
    Traced.SameUpTo (List.map Tag.identity) (table.tags t₁) (table.tags t₂) := by
  have hsame := TypeRef.beq_iff_identity.mp same
  have hgenerics := TypeRef.generics_eq_of_identity hsame
  obtain ⟨c, hc₁, hc₂⟩ | ⟨⟨bar, members, hu₁⟩, ⟨bar', members', hu₂⟩⟩ :=
    heads_of_same e₁ e₂ names same
  · rw [tags_of_head e₁ hc₁ (names.left c hc₁), tags_of_head e₂ hc₂ (names.right c hc₂)]
    exact .refl _
  · have hempty : t₁.generics.isEmpty = t₂.generics.isEmpty := by
      rw [← List.isEmpty_map, hgenerics, List.isEmpty_map]
    rw [tags_of_union own e₁ hu₁, tags_of_union own e₂ hu₂, hempty,
      TypeRef.fullName_eq_of_identity hsame]
    split
    · exact .refl _
    · split
      · refine .pure ?_
        rw [List.map_singleton, List.map_singleton, anyOf_identity hgenerics]
      · refine .pure ?_
        rw [List.map_singleton, List.map_singleton, anyOf_identity]
        rw [List.map_append, List.map_append, hgenerics]

end Answers

end ClassTable

end Schemata
