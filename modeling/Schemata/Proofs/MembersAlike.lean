import Schemata.Proofs.Interchange

/-!
# Members that look the same

The members of a class are the hints that the class declares, with the arguments of a handle in the
place of its type parameters. `ClassTable.Declares` lists those hints, and `ClassTable.filling` is
what a handle puts into them.

A class is walked through the same way for every handle of it, so the walk is compared member by
member. One member looks the same when its hint is alike after either replacement; the members of a
class of the ancestry, of the whole ancestry, of a record and of a model follow from that.
-/

namespace Schemata

/-! ## Hints that a class declares for its members -/

/-- The hint that an annotated name states for its values. -/
def Hint.ofMember (h : Hint) : Hint := if h.base.isClassVar then h.base.withoutClassVar else h

/-- The arguments that a hint puts in the place of the type parameters of its class. -/
def Hint.fillers : Hint → List Hint
  | applied .generic _ args => args
  | model _ args => args
  | _ => []

namespace ClassTable

/-- A hint states the type of a member of a class. -/
inductive Declares (table : ClassTable) (c : ClassName) : Hint → Prop
  /-- The hint of a field of a model. -/
  | field {name : String} {h : Hint} (hh : (name, h) ∈ table.modelFields c) : Declares table c h
  /-- The hint of a field of another record. -/
  | place {hints : List (String × Hint)} {name : String} {h : Hint}
      (hrecord : table.isRecord (.named c)) (hhints : (table.hintsOf (.named c)).Returns hints)
      (hh : Keyed.get? hints name = some h) : Declares table c h
  /-- The hint of an annotated name. -/
  | annotated {hints : List (String × Hint)} {name : String} {h : Hint}
      (hrecord : table.isRecord (.named c) = false)
      (hhints : (table.hintsOf (.named c)).Returns hints)
      (hh : Keyed.get? hints name = some h) : Declares table c h.ofMember
  /-- The hint of what an accessor gives. -/
  | result {owner : ClassName} {d : DeclaredClass} {name shown : String} {a : Accessor} {h : Hint}
      (hrecord : table.isRecord (.named c) = false)
      (howner : Hint.named owner ∈ table.ancestry (.named c)) (hd : table.find? owner = some d)
      (ha : (name, a) ∈ declaredAccessors d) (hh : (table.resultOf shown a).Returns (some h)) :
      Declares table c h

variable {table : ClassTable} {b₁ b₂ : Hint.Bindings}

/-! ## One member -/

section Member

variable {name : String} {kind : MemberKind} {hint : Option Hint} {b : Hint.Bindings}
  {isStatic : Bool} {attached : List Datum}

/-- Without a hint, or with the absent value for one, a member has no type. -/
theorem member_of_untyped (h : ∀ k, hint = some k → k = .null) :
    table.member name kind hint b isStatic attached = do
      let tags ← Datum.toTags table attached
      let visibility := visibilityOf name
      return { name, kind, declaredType := none, visibility, isStatic, tags } := by
  cases hint with
  | none => rfl
  | some k =>
    obtain rfl := h k rfl
    rfl

/-- A member has the type and the metadata of its hint, type parameters replaced. -/
theorem member_of_typed {h : Hint} (hh : h ≠ .null) :
    table.member name kind (some h) b isStatic attached = do
      let t ← table.reference (h.substitute b)
      let tags ← Datum.toTags table ((h.substitute b).metadata ++ attached)
      let visibility := visibilityOf name
      return { name, kind, declaredType := some t, visibility, isStatic, tags } := by
  unfold member
  split
  · rename_i hn
    exact nomatch hn
  · rename_i hn
    exact absurd (Option.some.inj hn) hh
  · rename_i hs
    obtain rfl := Option.some.inj hs
    rfl

end Member

/-- An annotated name is a field with the hint that states its values. -/
theorem annotatedMember_eq {className stored : String} {hint : Option Hint} {b : Hint.Bindings} :
    table.annotatedMember className stored hint b =
      table.member (declaredName className stored) .field (hint.map Hint.ofMember) b
        (hint.any (·.base.isClassVar)) [] := by
  cases hint with
  | none => rfl
  | some h =>
    rw [annotatedMember, Option.map_some, Option.any_some, Hint.ofMember]
    by_cases hshared : h.base.isClassVar
    · rw [if_pos hshared, if_pos hshared, hshared]
    · rw [if_neg hshared, if_neg hshared, Bool.eq_false_iff.mpr hshared]

/-- Members whose hints are alike, type parameters replaced, look the same. -/
theorem sameUpTo_member_of_alike {name : String} {kind : MemberKind} {h k : Hint} {isStatic : Bool}
    {attached : List Datum} (hnull : h = .null ↔ k = .null)
    (a : table.Alike (h.substitute b₁) (k.substitute b₂)) :
    Traced.SameUpTo Member.identity (table.member name kind (some h) b₁ isStatic attached)
      (table.member name kind (some k) b₂ isStatic attached) := by
  by_cases hh : h = .null
  · obtain rfl := hh
    obtain rfl := hnull.mp rfl
    exact .refl _
  · have hk : k ≠ .null := fun hk ↦ hh (hnull.mpr hk)
    have hmetadata : (h.substitute b₁).metadata = (k.substitute b₂).metadata :=
      congrArg Hint.Traits.metadata a.traits
    rw [member_of_typed hh, member_of_typed hk, hmetadata]
    refine a.reference.bind fun t u _ _ htu ↦ .bind_right fun tags _ ↦ .pure ?_
    simp only [Member.identity, Option.map_some, htu]

/-- A member whose hint is alike after either replacement looks the same. -/
theorem sameUpTo_member {name : String} {kind : MemberKind} {hint : Option Hint} {isStatic : Bool}
    {attached : List Datum}
    (a : ∀ h, hint = some h → table.Alike (h.substitute b₁) (h.substitute b₂)) :
    Traced.SameUpTo Member.identity (table.member name kind hint b₁ isStatic attached)
      (table.member name kind hint b₂ isStatic attached) := by
  cases hint with
  | none => exact .refl _
  | some h => exact sameUpTo_member_of_alike .rfl (a h rfl)

theorem sameUpTo_annotatedMember {className stored : String} {hint : Option Hint}
    (a : ∀ h, hint = some h → table.Alike (h.ofMember.substitute b₁) (h.ofMember.substitute b₂)) :
    Traced.SameUpTo Member.identity (table.annotatedMember className stored hint b₁)
      (table.annotatedMember className stored hint b₂) := by
  rw [annotatedMember_eq, annotatedMember_eq]
  refine sameUpTo_member fun k hk ↦ ?_
  obtain ⟨h, hh, rfl⟩ := Option.map_eq_some_iff.mp hk
  exact a h hh

theorem sameUpTo_accessorMember {shown name : String} {acc : Accessor}
    (a : ∀ h, (table.resultOf shown acc).Returns (some h) →
      table.Alike (h.substitute b₁) (h.substitute b₂)) :
    Traced.SameUpTo (Option.map Member.identity) (table.accessorMember shown name acc b₁)
      (table.accessorMember shown name acc b₂) := by
  have hmember {kind : MemberKind} {isStatic : Bool} {attached : List Datum} :
      Traced.SameUpTo (Option.map Member.identity)
        (do
          let hint ← table.resultOf shown acc
          return some (← table.member name kind hint b₁ isStatic attached))
        (do
          let hint ← table.resultOf shown acc
          return some (← table.member name kind hint b₂ isStatic attached)) := by
    refine .bind_right fun hint hhint ↦ ?_
    refine (sameUpTo_member fun h hh ↦ a h (hh ▸ hhint)).bind fun m n _ _ hmn ↦ .pure ?_
    rw [Option.map_some, Option.map_some, hmn]
  unfold accessorMember
  cases acc.kind with
  | property => exact hmember
  | shared => exact hmember
  | method =>
    dsimp only
    split
    · exact hmember
    · exact .refl _

/-! ## The members of a class -/

/-- The members found so far with their identities. -/
def Found.identity (found : Found) : List (String × Member Unit) :=
  found.map fun (name, m) ↦ (name, m.identity)

theorem Found.identity_put (found : Found) (name : String) (m : Member Hint) :
    Found.identity (Keyed.put found name m) = Keyed.put found.identity name m.identity := by
  induction found with
  | nil => rfl
  | cons entry found ih =>
    obtain ⟨k, n⟩ := entry
    have hcons : Found.identity ((k, n) :: found) = (k, n.identity) :: Found.identity found := rfl
    rw [hcons, Keyed.put, Keyed.put, ← ih]
    split
    · rfl
    · rfl

section Classes

variable {found₁ found₂ : Found} (same : found₁.identity = found₂.identity)

include same

theorem sameUpTo_addAnnotated {d : DeclaredClass} {hints : List (String × Hint)}
    (a : ∀ name h, Keyed.get? hints name = some h →
      table.Alike (h.ofMember.substitute b₁) (h.ofMember.substitute b₂)) {names : List String} :
    Traced.SameUpTo Found.identity (table.addAnnotated d hints b₁ names found₁)
      (table.addAnnotated d hints b₂ names found₂) := by
  induction names generalizing found₁ found₂ with
  | nil => exact .pure same
  | cons name names ih =>
    rw [addAnnotated, addAnnotated]
    split
    · exact ih same
    · refine (sameUpTo_annotatedMember (a name)).bind fun m n _ _ hmn ↦ ih ?_
      rw [Found.identity_put, Found.identity_put, same, hmn]

theorem sameUpTo_addAccessors {owner : ClassName} {accessors : List (String × Accessor)}
    (a : ∀ name acc, (name, acc) ∈ accessors → ∀ shown h,
      (table.resultOf shown acc).Returns (some h) →
        table.Alike (h.substitute b₁) (h.substitute b₂)) :
    Traced.SameUpTo Found.identity (table.addAccessors owner b₁ accessors found₁)
      (table.addAccessors owner b₂ accessors found₂) := by
  induction accessors generalizing found₁ found₂ with
  | nil => exact .pure same
  | cons entry accessors ih =>
    obtain ⟨name, acc⟩ := entry
    have hrest := fun name acc hmem ↦ a name acc (List.mem_cons_of_mem _ hmem)
    rw [addAccessors, addAccessors]
    split
    · exact ih same hrest
    · refine (sameUpTo_accessorMember (a name acc List.mem_cons_self _)).bind
        fun m n _ _ hmn ↦ ?_
      cases m with
      | none =>
        cases n with
        | none => exact ih same hrest
        | some n => exact nomatch hmn
      | some m =>
        cases n with
        | none => exact nomatch hmn
        | some n =>
          refine ih ?_ hrest
          rw [Found.identity_put, Found.identity_put, same, Option.some.inj hmn]

theorem sameUpTo_libraryAccessors {owner : ClassName} {l : LibraryClass} :
    Traced.SameUpTo Found.identity (table.addAccessors owner b₁ (libraryAccessors l) found₁)
      (table.addAccessors owner b₂ (libraryAccessors l) found₂) := by
  refine sameUpTo_addAccessors same fun name acc hacc shown h hh ↦ ?_
  obtain ⟨⟨kind, names⟩, -, hacc⟩ := List.mem_flatMap.mp hacc
  obtain ⟨_, -, hacc⟩ := List.mem_map.mp hacc
  obtain rfl := (Prod.mk.inj hacc).2
  exact nomatch Traced.returns_pure.mp hh

/-- One class of an ancestry adds members that look the same. -/
theorem sameUpTo_addClass {hints : List (String × Hint)} {cls : Hint}
    (annotated : ∀ name h, Keyed.get? hints name = some h →
      table.Alike (h.ofMember.substitute b₁) (h.ofMember.substitute b₂))
    (accessors : ∀ owner d, cls = .named owner → table.find? owner = some d →
      ∀ name acc, (name, acc) ∈ declaredAccessors d → ∀ shown h,
        (table.resultOf shown acc).Returns (some h) →
          table.Alike (h.substitute b₁) (h.substitute b₂)) :
    Traced.SameUpTo Found.identity (table.addClass hints b₁ cls found₁)
      (table.addClass hints b₂ cls found₂) := by
  unfold addClass
  split
  · rename_i c
    split
    · rename_i d hd
      exact (sameUpTo_addAnnotated same annotated).bind fun _ _ _ _ h ↦
        sameUpTo_addAccessors h (accessors c d rfl hd)
    · split
      · exact sameUpTo_libraryAccessors same
      · exact .pure same
  · exact .pure same

/-- The classes of an ancestry, one after the other, add members that look the same. -/
theorem sameUpTo_addClasses {hints : List (String × Hint)} {classes : List Hint}
    (annotated : ∀ name h, Keyed.get? hints name = some h →
      table.Alike (h.ofMember.substitute b₁) (h.ofMember.substitute b₂))
    (accessors : ∀ owner d, Hint.named owner ∈ classes → table.find? owner = some d →
      ∀ name acc, (name, acc) ∈ declaredAccessors d → ∀ shown h,
        (table.resultOf shown acc).Returns (some h) →
          table.Alike (h.substitute b₁) (h.substitute b₂)) :
    Traced.SameUpTo Found.identity (table.addClasses hints b₁ classes found₁)
      (table.addClasses hints b₂ classes found₂) := by
  induction classes generalizing found₁ found₂ with
  | nil => exact .pure same
  | cons cls classes ih =>
    rw [addClasses, addClasses]
    refine (sameUpTo_addClass same annotated fun owner d hcls ↦ accessors owner d ?_).bind
      fun _ _ _ _ h ↦ ih h fun owner d hmem ↦ accessors owner d (List.mem_cons_of_mem _ hmem)
    rw [hcls]
    exact List.mem_cons_self

end Classes

section OneClass

variable {c : ClassName}
  (a : ∀ h, table.Declares c h → table.Alike (h.substitute b₁) (h.substitute b₂))

include a

theorem sameUpTo_plainMembers (hrecord : table.isRecord (.named c) = false) :
    Traced.SameUpTo (List.map Member.identity) (table.plainMembers (.named c) b₁)
      (table.plainMembers (.named c) b₂) := by
  refine .bind_right fun hints hhints ↦ ?_
  refine Traced.SameUpTo.bind (sameUpTo_addClasses rfl ?_ ?_) fun found₁ found₂ _ _ h ↦ .pure ?_
  · intro name h hh
    exact a _ (.annotated hrecord hhints hh)
  · intro owner d howner hd name acc hacc shown h hh
    exact a h (.result hrecord (List.mem_reverse.mp howner) hd hacc hh)
  · have hmembers (found : Found) :
        (found.map (·.2)).map Member.identity = (Found.identity found).map (·.2) := by
      rw [Found.identity, List.map_map, List.map_map]
      rfl
    rw [hmembers, hmembers, h]

theorem sameUpTo_recordMembers (hrecord : table.isRecord (.named c)) :
    Traced.SameUpTo (List.map Member.identity) (table.recordMembers (.named c) b₁)
      (table.recordMembers (.named c) b₂) := by
  unfold recordMembers
  split
  · refine .inOrder ?_
    rw [List.forall₂_map_left_iff, List.forall₂_map_right_iff, List.forall₂_same]
    intro field hfield
    refine sameUpTo_member fun h hh ↦ ?_
    obtain rfl := Option.some.inj hh
    exact a _ (.field hfield)
  · refine .bind_right fun hints hhints ↦ .inOrder ?_
    rw [List.forall₂_map_left_iff, List.forall₂_map_right_iff, List.forall₂_same]
    intro name _
    exact sameUpTo_member fun h hh ↦ a h (.place hrecord hhints hh)

end OneClass

theorem enumMembers_identity {cls : Hint} {t₁ t₂ : TypeRef Hint}
    (same : t₁.identity = t₂.identity) :
    (table.enumMembers cls t₁).map Member.identity =
      (table.enumMembers cls t₂).map Member.identity := by
  simp only [enumMembers, List.map_map, Function.comp_def, Member.identity, Option.map_some, same]

/-- Filling in the type parameters of a model does not change its constants. -/
theorem enumMembers_model {c : ClassName} {args : List Hint} {t : TypeRef Hint} :
    table.enumMembers (.model c args) t = table.enumMembers (.named c) t := by
  have hbefore : table.classesBeforeEnum (.model c args) = table.classesBeforeEnum (.named c) := by
    have hne : (Hint.model c args != .named LibraryClass.enum) = true := by
      simp [bne, Hint.beq_eq_same, Hint.same]
    rw [classesBeforeEnum, ancestry, List.takeWhile_cons, if_pos hne]
    rfl
  have hshown (n : String) : table.shownName (.model c args) n = table.shownName (.named c) n := by
    rw [shownName, shownName, hbefore]
    rfl
  simp only [enumMembers, hshown, declaredAncestry_model]

/-- References with one class behind them have members that look the same, if every hint that the
class declares is alike after either replacement. -/
theorem sameUpTo_members_of_named {t₁ t₂ : TypeRef Hint} {c : ClassName}
    (hc₁ : table.classOf t₁ = some (.named c)) (hc₂ : table.classOf t₂ = some (.named c))
    (hsource : t₁.source.isSome = t₂.source.isSome) (same : t₁.identity = t₂.identity)
    (a : ∀ h, table.Declares c h →
      table.Alike (h.substitute (table.bindings t₁)) (h.substitute (table.bindings t₂))) :
    Traced.SameUpTo (List.map Member.identity) (table.members t₁) (table.members t₂) := by
  rw [members, members, hc₁, hc₂]
  dsimp only
  rw [hsource]
  split
  · exact .pure (enumMembers_identity same)
  · split
    · exact .refl _
    · split
      · rename_i hrecord
        exact sameUpTo_recordMembers a hrecord
      · rename_i hrecord
        exact sameUpTo_plainMembers a (Bool.eq_false_iff.mpr hrecord)

/-! ## Models applied to arguments -/

/-- What a hint puts in the place of the type parameters of its class. -/
def filling (table : ClassTable) (k : Hint) : Hint.Bindings :=
  match k.head? with
  | some c => Hint.bindingsOf (((table.find? c).map (·.parameters)).getD []) k.fillers
  | none => []

theorem modelHints_model (c : ClassName) (args : List Hint) :
    table.modelHints (.model c args) = (table.modelFields c).map fun field ↦
      (field.1, field.2.substitute (table.filling (.model c args))) := rfl

theorem sameUpTo_members_of_model {t₁ t₂ : TypeRef Hint} {c : ClassName} {args₁ args₂ : List Hint}
    (hmodel : table.isModel (.named c)) (hs₁ : t₁.source = some (.model c args₁))
    (hs₂ : t₂.source = some (.model c args₂)) (same : t₁.identity = t₂.identity)
    (a : ∀ name h, (name, h) ∈ table.modelFields c →
      table.Alike (h.substitute (table.filling (.model c args₁)))
        (h.substitute (table.filling (.model c args₂))))
    (steady₁ : ∀ field ∈ table.modelHints (.model c args₁), field.2.substitute [] = field.2)
    (steady₂ : ∀ field ∈ table.modelHints (.model c args₂), field.2.substitute [] = field.2) :
    Traced.SameUpTo (List.map Member.identity) (table.members t₁) (table.members t₂) := by
  have hrecord {args : List Hint} : table.isRecord (.model c args) := by
    rw [isRecord_model, isRecord, hmodel, Bool.or_true, Bool.true_or]
  have hbar {args : List Hint} : (Hint.model c args == .named .barUnion) = false := by
    simp [Hint.beq_eq_same, Hint.same]
  have hmembers {t : TypeRef Hint} {args : List Hint} (hs : t.source = some (.model c args)) :
      table.members t =
        if table.isEnum (.named c) then pure (table.enumMembers (.named c) t)
        else inOrder ((table.modelHints (.model c args)).map fun field ↦
          table.member field.1 .method (some field.2) [] false []) := by
    have hclass : table.classOf t = some (.model c args) := by rw [classOf, hs]; rfl
    have hbindings : table.bindings t = [] := by rw [bindings, hs]
    rw [members, hclass]
    dsimp only
    rw [isEnum_model, hbar, Bool.and_false, if_neg Bool.false_ne_true, if_pos hrecord, hbindings,
      recordMembers, isModel_model, if_pos hmodel, enumMembers_model]
  rw [hmembers hs₁, hmembers hs₂]
  split
  · exact .pure (enumMembers_identity same)
  · refine .inOrder ?_
    rw [modelHints_model] at steady₁ steady₂
    rw [modelHints_model, modelHints_model, List.map_map, List.map_map,
      List.forall₂_map_left_iff, List.forall₂_map_right_iff, List.forall₂_same]
    intro field hfield
    have hh := a field.1 field.2 hfield
    have hnull : field.2.substitute (table.filling (.model c args₁)) = .null ↔
        field.2.substitute (table.filling (.model c args₂)) = .null := by
      rw [← Hint.isNull_traits, ← Hint.isNull_traits, hh.traits]
    refine sameUpTo_member_of_alike hnull ?_
    rw [steady₁ _ (List.mem_map_of_mem hfield), steady₂ _ (List.mem_map_of_mem hfield)]
    exact hh

end ClassTable

end Schemata
