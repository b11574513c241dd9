import Schemata.Proofs.Resolvable

/-!
# Interchangeable arguments

A reference does not tell everything about the hint it was made for. What a hint shows besides, to
whatever it is put into, are its `Hint.traits`: its metadata, whether it can be a key, whether it is
the absent value and in which form it is written, and whether it is the mark for further elements.
Two hints are `Alike` when they refer to the same type and show the same traits.

Putting one of two alike hints in the place of the other keeps a hint alike, with one exception.
Unions and sequence types drop repetitions, and repetitions are recognised by the hints themselves,
not by what they refer to. `ClassTable.KeepsParts` says of a hint that no repetition arises when its
type parameters are replaced, by one choice of arguments or by another. Under that condition
`ClassTable.alike_substitute` carries likeness from the arguments to the whole.
-/

namespace Schemata

theorem Datum.deepHashableAll_append {table : ClassTable} (xs ys : List Datum) :
    Datum.deepHashableAll table (xs ++ ys) =
      (Datum.deepHashableAll table xs && Datum.deepHashableAll table ys) := by
  induction xs with
  | nil => rfl
  | cons x xs ih =>
    rw [List.cons_append, Datum.deepHashableAll, Datum.deepHashableAll, ih, Bool.and_assoc]

namespace Hint

/-! ## Traits -/

/-- What a hint shows, besides its reference, to whatever it is put into. -/
structure Traits where
  /-- Its metadata. -/
  metadata : List Datum
  /-- Whether it can be compared by key. -/
  hashable : Bool
  /-- Whether it is the absent value. -/
  absent : Bool
  /-- Whether it is the mark for any number of further elements. -/
  ellipsis : Bool
  /-- Whether it is written as the absent value and not as the class of it. -/
  isNull : Bool

variable (table : ClassTable)

/-- The traits of a hint. -/
def traits (h : Hint) : Traits where
  metadata := h.metadata
  hashable := h.hashable table
  absent := h.asArgument == named .null
  ellipsis := h == ellipsis
  isNull := match h with
    | null => true
    | _ => false

variable {table}

theorem isNull_traits {h : Hint} : (h.traits table).isNull = true ↔ h = null := by
  cases h <;> simp [traits]

@[simp] theorem asArgument_asArgument (h : Hint) : h.asArgument.asArgument = h.asArgument := by
  cases h <;> rfl

theorem traits_asArgument (h : Hint) :
    h.asArgument.traits table = { h.traits table with isNull := false } := by
  cases h <;> simp [traits, asArgument, metadata, hashable, beq_eq_same, same]

theorem substituteAll_eq_map (b : Bindings) (hs : List Hint) :
    substituteAll b hs = hs.map (substitute b) := by
  induction hs with
  | nil => rw [substituteAll, List.map_nil]
  | cons h hs ih => rw [substituteAll, List.map_cons, ih]

theorem traits_annotate (h : Hint) (metadata : List Datum) : (h.annotate metadata).traits table =
    { metadata := (h.traits table).metadata ++ metadata
      hashable := (h.traits table).hashable && Datum.deepHashableAll table metadata
      absent := false
      ellipsis := false
      isNull := false } := by
  cases h <;> simp [traits, annotate, asArgument, Hint.metadata, hashable, beq_eq_same, same,
    Datum.deepHashableAll_append, Bool.and_assoc]

/-! ## Repetitions -/

/-- No hint of a list repeats another one. -/
def Apart (hs : List Hint) : Prop := hs.Pairwise fun h k ↦ (h == k) = false ∧ (k == h) = false

/-- Hints of which a union drops and dissolves none. -/
structure Separate (hs : List Hint) : Prop where
  /-- None of them is a union. -/
  flat : ∀ h ∈ hs, h.isUnion = false
  /-- None of them is a repetition. -/
  apart : Apart (hs.map asArgument)

theorem distinct_of_apart {hs : List Hint} (apart : Apart hs) : distinct hs = hs := by
  simp only [distinct, List.contains_eq_any_beq]
  exact foldl_unless_of_pairwise (fun h k ↦ k == h) [] hs (apart.imp And.right)

theorem elements_of_apart {hs : List Hint} (apart : Apart (hs.filter (· != .ellipsis))) :
    elements hs = hs.filter (· != .ellipsis) :=
  foldl_unless_of_pairwise (· == ·) [] _ (apart.imp And.left)

theorem alternatives_of_flat {h : Hint} (flat : h.isUnion = false) :
    h.alternatives = [h.asArgument] := by
  cases h <;> first | rfl | exact nomatch flat

theorem flatMap_alternatives {hs : List Hint} (flat : ∀ h ∈ hs, h.isUnion = false) :
    hs.flatMap alternatives = hs.map asArgument := by
  induction hs with
  | nil => rfl
  | cons h hs ih =>
    obtain ⟨hflat, hsflat⟩ := List.forall_mem_cons.mp flat
    rw [List.flatMap_cons, alternatives_of_flat hflat, ih hsflat]
    rfl

/-- A union of hints that stay as they are; one hint alone is no union. -/
def joined (bar : Bool) : List Hint → Hint
  | [h] => h
  | hs => union bar hs

theorem unionOf_of_separate {hs : List Hint} (h : Separate hs) :
    unionOf hs = joined false (hs.map asArgument) := by
  rw [unionOf, flatMap_alternatives h.flat, distinct_of_apart h.apart]
  rfl

theorem either_of_apart {a h : Hint} {hs : List Hint} (ha : a.alternatives = hs) (hne : hs ≠ [])
    (flat : h.isUnion = false) (apart : Apart (hs ++ [h.asArgument])) :
    ∃ bar, a.either h = union bar (hs ++ [h.asArgument]) := by
  have hall : distinct (a.alternatives ++ h.alternatives) = hs ++ [h.asArgument] := by
    rw [ha, alternatives_of_flat flat, distinct_of_apart apart]
  obtain ⟨k, ks, rfl⟩ := List.exists_cons_of_ne_nil hne
  have hmany : ∃ k' ks', k :: ks ++ [h.asArgument] = k :: k' :: ks' := by
    cases ks with
    | nil => exact ⟨_, _, rfl⟩
    | cons k' ks => exact ⟨_, _, rfl⟩
  obtain ⟨k', ks', hmany⟩ := hmany
  rw [hmany] at hall ⊢
  rw [either]
  split
  · rw [hall]
    exact ⟨true, rfl⟩
  · rw [unionOf, List.flatMap_cons, List.flatMap_singleton, hall]
    exact ⟨false, rfl⟩

theorem foldl_either {hs rest : List Hint} (bar : Bool) (hne : hs ≠ [])
    (flat : ∀ h ∈ rest, h.isUnion = false) (apart : Apart (hs ++ rest.map asArgument)) :
    ∃ bar', rest.foldl either (union bar hs) = union bar' (hs ++ rest.map asArgument) := by
  induction rest generalizing hs bar with
  | nil => exact ⟨bar, by simp⟩
  | cons h rest ih =>
    obtain ⟨hflat, hrest⟩ := List.forall_mem_cons.mp flat
    rw [List.map_cons, List.append_cons] at apart ⊢
    obtain ⟨bar', heither⟩ := either_of_apart (a := union bar hs) rfl hne hflat
      (List.pairwise_append.mp apart).1
    rw [List.foldl_cons, heither]
    exact ih bar' (by simp) hrest apart

theorem eitherAll_of_separate {hs : List Hint} (h : Separate hs) (hmany : hs.length ≠ 1) :
    ∃ bar, eitherAll hs = joined bar (hs.map asArgument) := by
  match hs with
  | [] => exact ⟨true, rfl⟩
  | [_] => exact absurd rfl hmany
  | a :: b :: rest =>
    obtain ⟨haflat, hflat⟩ := List.forall_mem_cons.mp h.flat
    obtain ⟨hbflat, hrest⟩ := List.forall_mem_cons.mp hflat
    have apart : Apart ([a.asArgument] ++ [b.asArgument] ++ rest.map asArgument) := h.apart
    obtain ⟨bar, heither⟩ := either_of_apart (alternatives_of_flat haflat) (by simp) hbflat
      (List.pairwise_append.mp apart).1
    obtain ⟨bar', hfold⟩ := foldl_either bar (by simp) hrest apart
    refine ⟨bar', ?_⟩
    rw [eitherAll, List.foldl_cons, heither, hfold]
    rfl

end Hint

namespace ClassTable

variable {table : ClassTable}

/-! ## Hints that are alike -/

/-- Two hints refer to the same type and show the same traits. -/
structure Alike (table : ClassTable) (h k : Hint) : Prop where
  /-- The references are to the same type, or both fail. -/
  reference : Traced.SameUpTo TypeRef.identity (table.reference h) (table.reference k)
  /-- The traits are equal. -/
  traits : h.traits table = k.traits table

namespace Alike

variable {h k : Hint} {hs ks : List Hint}

@[refl] theorem refl (h : Hint) : table.Alike h h := ⟨.refl _, rfl⟩

theorem of_eq (e : h = k) : table.Alike h k := e ▸ refl h

theorem asArgument (a : table.Alike h k) : table.Alike h.asArgument k.asArgument := by
  have hkept (h : Hint) : (table.reference h.asArgument).outcome = (table.reference h).outcome := by
    cases h <;> rfl
  refine ⟨?_, by rw [Hint.traits_asArgument, Hint.traits_asArgument, a.traits]⟩
  exact (Traced.SameUpTo.of_outcome_eq (hkept h)).trans
    (a.reference.trans (.of_outcome_eq (hkept k).symm))

theorem keptArguments (style : Application) (a : List.Forall₂ table.Alike hs ks) :
    List.Forall₂ table.Alike (Hint.keptArguments style hs) (Hint.keptArguments style ks) := by
  have hmap : List.Forall₂ table.Alike (hs.map Hint.asArgument) (ks.map Hint.asArgument) := by
    rw [List.forall₂_map_left_iff, List.forall₂_map_right_iff]
    exact a.imp fun _ _ ↦ asArgument
  match style with
  | .native => exact a
  | .alias => exact hmap
  | .generic => exact hmap

theorem annotate (a : table.Alike h k) (metadata : List Datum) :
    table.Alike (h.annotate metadata) (k.annotate metadata) := by
  have hbase (h : Hint) :
      (table.reference (h.annotate metadata)).outcome = (table.reference h).outcome := by
    cases h <;> rfl
  refine ⟨?_, by rw [Hint.traits_annotate, Hint.traits_annotate, a.traits]⟩
  exact (Traced.SameUpTo.of_outcome_eq (hbase h)).trans
    (a.reference.trans (.of_outcome_eq (hbase k).symm))

theorem references (a : List.Forall₂ table.Alike hs ks) :
    List.Forall₂ (Traced.SameUpTo TypeRef.identity) (hs.map table.reference)
      (ks.map table.reference) := by
  rw [List.forall₂_map_left_iff, List.forall₂_map_right_iff]
  exact a.imp fun _ _ ↦ Alike.reference

theorem hashable (a : table.Alike h k) : h.hashable table = k.hashable table :=
  congrArg Hint.Traits.hashable a.traits

theorem hashableAll (a : List.Forall₂ table.Alike hs ks) :
    Hint.hashableAll table hs = Hint.hashableAll table ks := by
  induction a with
  | nil => rfl
  | cons hk _ ih => rw [Hint.hashableAll, Hint.hashableAll, ih, hk.hashable]

theorem absent (a : table.Alike h k) :
    (h.asArgument == .named .null) = (k.asArgument == .named .null) :=
  congrArg Hint.Traits.absent a.traits

theorem elements (a : List.Forall₂ table.Alike hs ks) :
    List.Forall₂ table.Alike (hs.filter (· != .ellipsis)) (ks.filter (· != .ellipsis)) := by
  induction a with
  | nil => exact .nil
  | @cons h k hs ks hk _ ih =>
    have hmark : (h != .ellipsis) = (k != .ellipsis) :=
      congrArg (!·) (congrArg Hint.Traits.ellipsis hk.traits)
    rw [List.filter_cons, List.filter_cons, hmark]
    split
    · exact .cons hk ih
    · exact ih

end Alike

/-! ## Putting alike hints together -/

theorem identity_unionType {ts us : List (TypeRef Hint)} {s s' : Option Hint}
    (h : ts.map TypeRef.identity = us.map TypeRef.identity) :
    (unionType ts s).identity = (unionType us s').identity :=
  TypeRef.identity_congr rfl rfl h

theorem identity_optionalType {t u : TypeRef Hint} {s s' : Option Hint}
    (h : t.identity = u.identity) :
    (optionalType t s).identity = (optionalType u s').identity :=
  TypeRef.identity_congr rfl rfl (congrArg ([·]) h)

/-- A union of several types refers to the types it is made of. -/
theorem sameUpTo_unionType {hs ks : List Hint} (a : List.Forall₂ table.Alike hs ks)
    (s s' : Option Hint) :
    Traced.SameUpTo TypeRef.identity
      (do return unionType (← inOrder ((table.argumentReferences hs).map (·.2))) s)
      (do return unionType (← inOrder ((table.argumentReferences ks).map (·.2))) s') := by
  rw [map_snd_argumentReferences, map_snd_argumentReferences]
  exact (Traced.SameUpTo.inOrder (Alike.references a)).bind fun _ _ _ _ h ↦
    .pure (identity_unionType h)

/-- A union finds the absent value among alike hints in the same place. -/
theorem sameUpTo_unionReference {h k : Hint} {hs ks : List Hint}
    (a : List.Forall₂ table.Alike hs ks)
    (hhs : ∀ h ∈ hs, h.asArgument = h) (hks : ∀ k ∈ ks, k.asArgument = k) :
    Traced.SameUpTo TypeRef.identity (unionReference h (table.argumentReferences hs))
      (unionReference k (table.argumentReferences ks)) := by
  cases a with
  | nil => exact sameUpTo_unionType .nil _ _
  | @cons h₁ k₁ hs ks a₁ a =>
    cases a with
    | nil => exact sameUpTo_unionType (.cons a₁ .nil) _ _
    | @cons h₂ k₂ hs ks a₂ a =>
      cases a with
      | cons a₃ a => exact sameUpTo_unionType (.cons a₁ (.cons a₂ (.cons a₃ a))) _ _
      | nil =>
        have habsent {h k : Hint} (hk : table.Alike h k) (hh : h.asArgument = h)
            (hk' : k.asArgument = k) : (h != .named .null) = (k != .named .null) := by
          have := hk.absent
          rw [hh, hk'] at this
          exact congrArg (!·) this
        have habsent₁ := habsent a₁ (hhs h₁ (by simp)) (hks k₁ (by simp))
        have habsent₂ := habsent a₂ (hhs h₂ (by simp)) (hks k₂ (by simp))
        have hboth := sameUpTo_unionType (.cons a₁ (.cons a₂ .nil)) (some h) (some k)
        unfold unionReference
        simp only [argumentReferences, List.filter_cons, List.filter_nil, habsent₁, habsent₂]
        cases k₁ != .named .null <;> cases k₂ != .named .null
        · exact hboth
        · exact a₂.reference.bind fun _ _ _ _ h ↦ .pure (identity_optionalType h)
        · exact a₁.reference.bind fun _ _ _ _ h ↦ .pure (identity_optionalType h)
        · exact hboth

theorem alike_union {bar bar' : Bool} {hs ks : List Hint} (a : List.Forall₂ table.Alike hs ks)
    (hhs : ∀ h ∈ hs, h.asArgument = h) (hks : ∀ k ∈ ks, k.asArgument = k) :
    table.Alike (.union bar hs) (.union bar' ks) := by
  refine ⟨?_, ?_⟩
  · rw [reference, reference]
    exact sameUpTo_unionReference a hhs hks
  · simp [Hint.traits, Hint.metadata, Hint.hashable, Hint.asArgument, Hint.beq_eq_same, Hint.same,
      Alike.hashableAll a]

theorem alike_joined {bar bar' : Bool} {hs ks : List Hint} (a : List.Forall₂ table.Alike hs ks) :
    table.Alike (Hint.joined bar (hs.map Hint.asArgument))
      (Hint.joined bar' (ks.map Hint.asArgument)) := by
  have hargument (hs : List Hint) : ∀ h ∈ hs.map Hint.asArgument, h.asArgument = h := by
    intro h hh
    obtain ⟨k, -, rfl⟩ := List.mem_map.mp hh
    exact k.asArgument_asArgument
  have hunion : table.Alike (.union bar (hs.map Hint.asArgument))
      (.union bar' (ks.map Hint.asArgument)) :=
    alike_union (Alike.keptArguments .alias a) (hargument hs) (hargument ks)
  cases a with
  | nil => exact hunion
  | cons a₁ a =>
    cases a with
    | nil => exact a₁.asArgument
    | cons a₂ a => exact hunion

/-! ### Classes applied to arguments -/

theorem hashableAll_eq_all (hs : List Hint) :
    Hint.hashableAll table hs = hs.all (Hint.hashable table) := by
  induction hs with
  | nil => rfl
  | cons h hs ih => rw [Hint.hashableAll, List.all_cons, ih]

/-- Sequence types of alike arguments refer to alike elements, where neither repeats one. -/
theorem sameUpTo_elementType {hs ks : List Hint} (a : List.Forall₂ table.Alike hs ks)
    (hhs : Hint.Apart (hs.filter (· != .ellipsis)))
    (hks : Hint.Apart (ks.filter (· != .ellipsis))) :
    Traced.SameUpTo TypeRef.identity (table.elementType (table.argumentReferences hs))
      (table.elementType (table.argumentReferences ks)) := by
  have a := Alike.elements a
  rw [elementType_eq, elementType_eq, Hint.elements_of_apart hhs, Hint.elements_of_apart hks,
    ← hashableAll_eq_all, ← hashableAll_eq_all, Alike.hashableAll a]
  generalize hs.filter (· != .ellipsis) = es at a
  generalize ks.filter (· != .ellipsis) = fs at a
  split
  · cases a with
    | nil => exact .refl _
    | cons a₁ a =>
      cases a with
      | nil => exact a₁.reference
      | cons a₂ a =>
        exact (Traced.SameUpTo.inOrder (Alike.references (.cons a₁ (.cons a₂ a)))).bind
          fun _ _ _ _ h ↦ .pure (identity_unionType h)
  · exact .refl _

/-- A class applied to alike arguments refers to the same type; a sequence type must not repeat an
argument. -/
theorem sameUpTo_shapedReference {h k : Hint} {c : ClassName} {hs ks : List Hint}
    (a : List.Forall₂ table.Alike hs ks)
    (apart : table.shape c = .array →
      Hint.Apart (hs.filter (· != .ellipsis)) ∧ Hint.Apart (ks.filter (· != .ellipsis))) :
    Traced.SameUpTo TypeRef.identity (table.shapedReference h c (table.argumentReferences hs))
      (table.shapedReference k c (table.argumentReferences ks)) := by
  have hmake {kind : TypeKind} {gs gs' : List (TypeRef Hint)}
      (hg : gs.map TypeRef.identity = gs'.map TypeRef.identity) :
      (TypeRef.mk c.fullName c.simpleName kind gs (some h)).identity =
        (TypeRef.mk c.fullName c.simpleName kind gs' (some k)).identity :=
    TypeRef.identity_congr rfl rfl hg
  have harguments := Traced.SameUpTo.inOrder (Alike.references a)
  unfold shapedReference
  simp only [map_snd_argumentReferences]
  cases hshape : table.shape c with
  | binary => exact .pure (hmake rfl)
  | dictionary =>
    cases a with
    | nil => exact .pure (hmake rfl)
    | cons a₁ a =>
      cases a with
      | nil => exact .pure (hmake rfl)
      | cons a₂ a =>
        cases a with
        | nil =>
          exact a₁.reference.bind fun _ _ _ _ h₁ ↦ a₂.reference.bind fun _ _ _ _ h₂ ↦
            .pure (hmake (by simp only [List.map_cons, List.map_nil, h₁, h₂]))
        | cons a₃ a => exact .pure (hmake rfl)
  | array =>
    obtain ⟨hhs, hks⟩ := apart hshape
    exact (sameUpTo_elementType a hhs hks).bind fun _ _ _ _ h ↦ .pure (hmake (congrArg ([·]) h))
  | primitive => exact harguments.bind fun _ _ _ _ h ↦ .pure (hmake h)
  | enumeration => exact harguments.bind fun _ _ _ _ h ↦ .pure (hmake h)
  | plain => exact harguments.bind fun _ _ _ _ h ↦ .pure (hmake h)

/-- A class applied to alike arguments is alike, whatever the style of application. -/
theorem alike_applied {style : Application} {c : ClassName} {hs ks : List Hint}
    (a : List.Forall₂ table.Alike hs ks)
    (apart : table.shape c = .array →
      Hint.Apart (hs.filter (· != .ellipsis)) ∧ Hint.Apart (ks.filter (· != .ellipsis))) :
    table.Alike (.applied style c hs) (.applied style c ks) := by
  refine ⟨?_, ?_⟩
  · rw [reference, reference]
    exact sameUpTo_shapedReference a apart
  · simp [Hint.traits, Hint.metadata, Hint.hashable, Hint.asArgument, Hint.beq_eq_same, Hint.same,
      Alike.hashableAll a]

/-! ## Replacing type parameters -/

/-- What stands for a name in the one choice is alike to what stands for it in the other. -/
def AlikeBindings (table : ClassTable) (b₁ b₂ : Hint.Bindings) : Prop :=
  ∀ name, Option.Rel table.Alike (b₁.get? name) (b₂.get? name)

theorem AlikeBindings.refl (b : Hint.Bindings) : table.AlikeBindings b b := by
  intro name
  cases b.get? name with
  | none => exact .none
  | some h => exact .some (.refl h)

theorem get?_bindingsOf_cons (p a : Hint) (ps as : List Hint) (name : String) :
    (Hint.bindingsOf (p :: ps) (a :: as)).get? name =
      if p.parameterName? = some name then some a else (Hint.bindingsOf ps as).get? name := by
  simp only [Hint.bindingsOf, Hint.Bindings.get?, List.zip_cons_cons, List.filterMap_cons]
  cases p.parameterName? with
  | none => rfl
  | some n =>
    rw [Option.map_some, List.find?_cons]
    by_cases hn : n = name
    · simp [hn]
    · simp only [beq_false_of_ne hn, Option.some.injEq, if_neg hn]

theorem alikeBindings_bindingsOf {as bs : List Hint} (a : List.Forall₂ table.Alike as bs)
    (parameters : List Hint) :
    table.AlikeBindings (Hint.bindingsOf parameters as) (Hint.bindingsOf parameters bs) := by
  induction a generalizing parameters with
  | nil => exact .refl _
  | @cons x y as bs hxy _ ih =>
    cases parameters with
    | nil => exact .refl []
    | cons p ps =>
      intro name
      rw [get?_bindingsOf_cons, get?_bindingsOf_cons]
      split
      · exact .some hxy
      · exact ih ps name

/-- Putting one of two choices into a hint drops no part of it as a repetition, or both choices give
the same hint. -/
inductive KeepsParts (table : ClassTable) (b₁ b₂ : Hint.Bindings) : Hint → Prop
  /-- Both choices give the same hint. -/
  | fixed {h : Hint} (same : h.substitute b₁ = h.substitute b₂) : KeepsParts table b₁ b₂ h
  /-- A type parameter is replaced as a whole. -/
  | parameter {name : String} : KeepsParts table b₁ b₂ (.parameter name)
  /-- A type parameter with a bound is replaced as a whole. -/
  | bounded {name : String} {bound : Hint} : KeepsParts table b₁ b₂ (.bounded name bound)
  /-- A class keeps its arguments; a sequence type must not find one of them twice. -/
  | applied {style : Application} {c : ClassName} {args : List Hint}
      (parts : ∀ a ∈ args, KeepsParts table b₁ b₂ a)
      (apart : table.shape c = .array → ∀ b ∈ [b₁, b₂], Hint.Apart
        ((Hint.keptArguments style (Hint.substituteAll b args)).filter (· != .ellipsis))) :
      KeepsParts table b₁ b₂ (.applied style c args)
  /-- A union keeps members that are no unions and that it does not find twice. -/
  | union {bar : Bool} {members : List Hint}
      (parts : ∀ m ∈ members, KeepsParts table b₁ b₂ m)
      (separate : ∀ b ∈ [b₁, b₂], Hint.Separate (Hint.substituteAll b members)) :
      KeepsParts table b₁ b₂ (.union bar members)
  /-- Metadata stay beside the hint. -/
  | annotated {h : Hint} {metadata : List Datum} (inner : KeepsParts table b₁ b₂ h) :
      KeepsParts table b₁ b₂ (.annotated h metadata)

section Substitute

variable {b₁ b₂ : Hint.Bindings}

theorem alike_substituteAll {hs : List Hint}
    (a : ∀ h ∈ hs, table.Alike (h.substitute b₁) (h.substitute b₂)) :
    List.Forall₂ table.Alike (Hint.substituteAll b₁ hs) (Hint.substituteAll b₂ hs) := by
  rw [Hint.substituteAll_eq_map, Hint.substituteAll_eq_map, List.forall₂_map_left_iff,
    List.forall₂_map_right_iff, List.forall₂_same]
  exact a

theorem alike_getD (hb : table.AlikeBindings b₁ b₂) (name : String) (h : Hint) :
    table.Alike ((b₁.get? name).getD h) ((b₂.get? name).getD h) := by
  obtain ⟨o₁, h₁⟩ : ∃ o, b₁.get? name = o := ⟨_, rfl⟩
  obtain ⟨o₂, h₂⟩ : ∃ o, b₂.get? name = o := ⟨_, rfl⟩
  have hname := hb name
  rw [h₁, h₂] at hname ⊢
  cases hname with
  | none => exact .refl h
  | some a => exact a

/-- Unions that keep their members are alike when the members are. -/
theorem alike_substitute_union {bar : Bool} {members : List Hint}
    (parts : ∀ m ∈ members, table.Alike (m.substitute b₁) (m.substitute b₂))
    (separate : ∀ b ∈ [b₁, b₂], Hint.Separate (Hint.substituteAll b members)) :
    table.Alike ((Hint.union bar members).substitute b₁)
      ((Hint.union bar members).substitute b₂) := by
  have a := alike_substituteAll parts
  have s₁ := separate b₁ (by simp)
  have s₂ := separate b₂ (by simp)
  cases bar with
  | false =>
    rw [Hint.substitute, Hint.substitute, Hint.unionOf_of_separate s₁, Hint.unionOf_of_separate s₂]
    exact alike_joined a
  | true =>
    rw [Hint.substitute, Hint.substitute]
    by_cases hmany : members.length = 1
    · -- between no bars a single hint keeps its form
      obtain ⟨m, rfl⟩ := List.length_eq_one_iff.mp hmany
      exact parts m List.mem_cons_self
    · have hlength (b : Hint.Bindings) : (Hint.substituteAll b members).length ≠ 1 := by
        rwa [Hint.substituteAll_eq_map, List.length_map]
      obtain ⟨bar₁, h₁⟩ := Hint.eitherAll_of_separate s₁ (hlength b₁)
      obtain ⟨bar₂, h₂⟩ := Hint.eitherAll_of_separate s₂ (hlength b₂)
      rw [h₁, h₂]
      exact alike_joined a

/-- **Alike arguments make alike hints** wherever they are put, as long as no part is dropped as a
repetition. -/
theorem alike_substitute (hb : table.AlikeBindings b₁ b₂) {h : Hint}
    (keeps : table.KeepsParts b₁ b₂ h) : table.Alike (h.substitute b₁) (h.substitute b₂) := by
  induction keeps with
  | fixed same => exact .of_eq same
  | @parameter name =>
    rw [Hint.substitute, Hint.substitute]
    exact alike_getD hb name _
  | @bounded name bound =>
    rw [Hint.substitute, Hint.substitute]
    exact alike_getD hb name _
  | applied _ apart ih =>
    rw [Hint.substitute, Hint.substitute]
    exact alike_applied (Alike.keptArguments _ (alike_substituteAll ih)) fun hshape ↦
      ⟨apart hshape b₁ (by simp), apart hshape b₂ (by simp)⟩
  | union _ separate ih => exact alike_substitute_union ih separate
  | annotated _ ih =>
    rw [Hint.substitute, Hint.substitute]
    exact ih.annotate _

end Substitute

end ClassTable

end Schemata
