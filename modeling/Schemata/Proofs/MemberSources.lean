import Schemata.Proofs.DistinctNames
import Schemata.Proofs.MembersAlike

/-!
# Where members come from

A class that is neither an enum nor a record has a member for each annotated name and each accessor
of its ancestry. `ClassTable.sourcesIn` lists what one class contributes, and
`ClassTable.readSource` makes a member of one such source. The engine walks through the ancestry
from the farthest class to the nearest and sets one name after the other, so what it finds under a
name comes from the last source with that name: `ClassTable.source?` looks for it from the nearest
class on.

`ClassTable.returns_plainMembers` says that the walk returns exactly when each source can be read,
those that are replaced later included, and `ClassTable.Stored.get?` that a name has the member that
its nearest source makes.
-/

namespace Schemata

namespace Accessor

/-- The kind of the member that an accessor gives. -/
def memberKind (a : Accessor) : MemberKind :=
  match a.kind with
  | .property => .property
  | _ => .method

/-- Whether the class itself has the member. -/
def isShared (a : Accessor) : Bool := a.kind = .shared

/-- Whether an accessor gives access without arguments. -/
def isPlain (a : Accessor) : Bool := a.kind ≠ .method || a.plainCall

end Accessor

/-- A declaration that makes a member. -/
inductive MemberSource where
  /-- An annotated name of a class. -/
  | annotated (owner : ClassName)
  /-- An accessor in the body of a class. -/
  | accessor (owner : ClassName) (a : Accessor)

namespace ClassTable

/-! ## The members that sources make -/

section Reading

variable (table : ClassTable) (hints : List (String × Hint)) (b : Hint.Bindings)

/-- The member that a source makes. -/
def readSource (stored : String) : MemberSource → Traced (Member Hint)
  | .annotated owner =>
    table.annotatedMember owner.simpleName stored (Keyed.get? hints stored) b
  | .accessor owner a => do
    let shown := "<function " ++ owner.path ++ "." ++ declaredName owner.simpleName stored ++ ">"
    table.member stored a.memberKind (← table.resultOf shown a) b a.isShared a.attached

/-- The members that sources make, set one after the other. -/
def collect (sources : List (String × MemberSource)) (found : Found) : Traced Found :=
  sources.foldlM
    (fun found s ↦ do return Keyed.put found s.1 (← table.readSource hints b s.1 s.2)) found

/-- A named member is what a named source makes. -/
def Reads (s : String × MemberSource) (m : String × Member Hint) : Prop :=
  m.1 = s.1 ∧ (table.readSource hints b s.1 s.2).Returns m.2

end Reading

variable {table : ClassTable} {hints : List (String × Hint)} {b : Hint.Bindings}

/-! ## Members of hints -/

section Member

variable {name : String} {kind : MemberKind} {hint : Option Hint} {isStatic : Bool}
  {attached : List Datum} {m : Member Hint}

theorem returns_member (h : (table.member name kind hint b isStatic attached).Returns m) :
    m.name = name ∧ m.kind = kind ∧ m.isStatic = isStatic ∧ m.visibility = visibilityOf name ∧
      (m.declaredType = none ↔ ∀ k, hint = some k → k = .null) := by
  by_cases huntyped : ∀ k, hint = some k → k = .null
  · rw [member_of_untyped huntyped] at h
    obtain ⟨tags, -, h⟩ := Traced.returns_bind.mp h
    obtain rfl := Traced.returns_pure.mp h
    exact ⟨rfl, rfl, rfl, rfl, iff_of_true rfl huntyped⟩
  · obtain ⟨k, rfl, hk⟩ : ∃ k, hint = some k ∧ k ≠ .null := by simpa using huntyped
    rw [member_of_typed hk] at h
    obtain ⟨t, -, h⟩ := Traced.returns_bind.mp h
    obtain ⟨tags, -, h⟩ := Traced.returns_bind.mp h
    obtain rfl := Traced.returns_pure.mp h
    exact ⟨rfl, rfl, rfl, rfl, iff_of_false nofun huntyped⟩

end Member

theorem outcome_collect_cons (s : String × MemberSource) (sources : List (String × MemberSource))
    (found : Found) :
    (table.collect hints b (s :: sources) found).outcome =
      (table.readSource hints b s.1 s.2).outcome >>= fun m ↦
        (table.collect hints b sources (Keyed.put found s.1 m)).outcome := by
  rw [collect, List.foldlM_cons, Traced.outcome_bind, Traced.outcome_bind, bind_assoc]
  rfl

theorem outcome_collect_append (sources sources' : List (String × MemberSource)) (found : Found) :
    (table.collect hints b (sources ++ sources') found).outcome =
      (table.collect hints b sources found).outcome >>= fun found' ↦
        (table.collect hints b sources' found').outcome := by
  induction sources generalizing found with
  | nil => rfl
  | cons s sources ih =>
    rw [List.cons_append, outcome_collect_cons, outcome_collect_cons, bind_assoc]
    exact bind_congr fun m ↦ ih _

theorem returns_collect {sources : List (String × MemberSource)} {found found' : Found} :
    (table.collect hints b sources found).Returns found' ↔
      ∃ ms, List.Forall₂ (table.Reads hints b) sources ms ∧ found' = Keyed.putAll found ms := by
  induction sources generalizing found with
  | nil => simp [collect, Keyed.putAll, eq_comm]
  | cons s sources ih =>
    rw [Traced.Returns, outcome_collect_cons, bind_eq_ok_iff]
    constructor
    · rintro ⟨m, hm, h⟩
      obtain ⟨ms, hms, rfl⟩ := ih.mp h
      exact ⟨(s.1, m) :: ms, .cons ⟨rfl, hm⟩ hms, rfl⟩
    · rintro ⟨_, h, rfl⟩
      obtain ⟨⟨n, m⟩, ms, ⟨rfl, hm⟩, hms, rfl⟩ := List.forall₂_cons_left_iff.mp h
      exact ⟨m, hm, ih.mpr ⟨ms, hms, rfl⟩⟩

/-- The annotated names that make members. -/
def annotatedSources (owner : ClassName) (names : List String) : List (String × MemberSource) :=
  (names.filter (!isReserved ·)).map (·, .annotated owner)

/-- The accessors that make members. -/
def accessorSources (owner : ClassName) : List (String × Accessor) → List (String × MemberSource) :=
  Keyed.select fun n a ↦ if isReserved n || !a.isPlain then none else some (.accessor owner a)

/-- The sources of members in a class, in the order in which they are read. -/
def sourcesIn (table : ClassTable) : Hint → List (String × MemberSource)
  | .named c =>
    match table.find? c with
    | some d =>
      annotatedSources d.name (d.hints.map (·.1)) ++ accessorSources d.name (declaredAccessors d)
    | none =>
      match LibraryClass.get? c with
      | some l => accessorSources c (libraryAccessors l)
      | none => []
  | _ => []

theorem outcome_addAnnotated (d : DeclaredClass) (names : List String) (found : Found) :
    (table.addAnnotated d hints b names found).outcome =
      (table.collect hints b (annotatedSources d.name names) found).outcome := by
  induction names generalizing found with
  | nil => rfl
  | cons n names ih =>
    rw [addAnnotated, annotatedSources, List.filter_cons]
    by_cases hn : isReserved n
    · rw [if_pos hn, if_neg (by simp [hn])]
      exact ih found
    · rw [if_neg hn, if_pos (by simp [hn]), List.map_cons, Traced.outcome_bind,
        outcome_collect_cons]
      exact bind_congr fun m ↦ ih _

variable (hints) in
/-- An accessor is left out if it asks for arguments. -/
theorem outcome_accessorMember (owner : ClassName) (n : String) (a : Accessor) :
    (table.accessorMember ("<function " ++ owner.path ++ "." ++
        declaredName owner.simpleName n ++ ">") n a b).outcome =
      if a.isPlain then some <$> (table.readSource hints b n (.accessor owner a)).outcome
      else .ok none := by
  have hmember {kind : MemberKind} {isStatic : Bool} {shown : String} :
      (do return some (← table.member n kind (← table.resultOf shown a) b isStatic a.attached) :
          Traced (Option (Member Hint))).outcome =
        some <$> (do table.member n kind (← table.resultOf shown a) b isStatic a.attached :
          Traced (Member Hint)).outcome := by
    simp only [Traced.outcome_bind, map_bind]
    rfl
  obtain ⟨kind, result, plainCall, attached⟩ := a
  cases kind with
  | property => exact hmember
  | shared => exact hmember
  | method =>
    cases plainCall with
    | true => exact hmember
    | false => rfl

theorem outcome_addAccessors (owner : ClassName) (accessors : List (String × Accessor))
    (found : Found) :
    (table.addAccessors owner b accessors found).outcome =
      (table.collect hints b (accessorSources owner accessors) found).outcome := by
  induction accessors generalizing found with
  | nil => rfl
  | cons entry accessors ih =>
    obtain ⟨n, a⟩ := entry
    rw [addAccessors, accessorSources, Keyed.select_cons]
    by_cases hn : isReserved n
    · rw [if_pos hn, if_pos (by rw [hn, Bool.true_or])]
      exact ih found
    · rw [if_neg hn, Traced.outcome_bind, outcome_accessorMember hints]
      by_cases ha : a.isPlain
      · rw [if_pos ha, if_neg (by simp [hn, ha]), outcome_collect_cons]
        cases (table.readSource hints b n (.accessor owner a)).outcome with
        | ok m => exact ih _
        | error e => rfl
      · rw [if_neg ha, if_pos (by simp [ha])]
        exact ih found

theorem outcome_addClass (cls : Hint) (found : Found) :
    (table.addClass hints b cls found).outcome =
      (table.collect hints b (table.sourcesIn cls) found).outcome := by
  unfold addClass sourcesIn
  cases cls with
  | named c =>
    dsimp only
    cases table.find? c with
    | some d =>
      dsimp only
      rw [outcome_collect_append, Traced.outcome_bind, outcome_addAnnotated]
      exact bind_congr fun found' ↦ outcome_addAccessors d.name (declaredAccessors d) found'
    | none =>
      dsimp only
      cases LibraryClass.get? c with
      | some l => exact outcome_addAccessors c (libraryAccessors l) found
      | none => rfl
  | _ => rfl

theorem outcome_addClasses (classes : List Hint) (found : Found) :
    (table.addClasses hints b classes found).outcome =
      (table.collect hints b (classes.flatMap table.sourcesIn) found).outcome := by
  induction classes generalizing found with
  | nil => rfl
  | cons cls classes ih =>
    rw [addClasses, List.flatMap_cons, outcome_collect_append, Traced.outcome_bind,
      outcome_addClass]
    exact bind_congr ih

/-! ## The sources of an ancestry -/

/-- The sources in the ancestry of a class, from the farthest class to the nearest. -/
def sources (table : ClassTable) (cls : Hint) : List (String × MemberSource) :=
  (table.ancestry cls).reverse.flatMap table.sourcesIn

/-- The last source of a name in a class. -/
def ownSource? (table : ClassTable) (n : String) (cls : Hint) : Option MemberSource :=
  Keyed.get? (table.sourcesIn cls).reverse n

/-- The source of a name in the nearest class that has one. -/
def source? (table : ClassTable) (cls : Hint) (n : String) : Option MemberSource :=
  (table.ancestry cls).findSome? (table.ownSource? n)

theorem get?_reverse_sources (cls : Hint) (n : String) :
    Keyed.get? (table.sources cls).reverse n = table.source? cls n := by
  rw [sources, List.reverse_flatMap, List.reverse_reverse, Keyed.get?_flatMap]
  rfl

/-- Members are kept under the names under which their sources set them. -/
def Stored (table : ClassTable) (hints : List (String × Hint)) (b : Hint.Bindings) (cls : Hint)
    (found : Found) : Prop :=
  (table.collect hints b (table.sources cls) []).Returns found

/-- The members of a class are returned exactly if the hints are and each source makes a member. -/
theorem returns_plainMembers {cls : Hint} {ms : List (Member Hint)} :
    (table.plainMembers cls b).Returns ms ↔
      ∃ hints found, (table.hintsOf cls).Returns hints ∧ table.Stored hints b cls found ∧
        ms = found.map (·.2) := by
  rw [plainMembers, Traced.returns_bind]
  constructor
  · rintro ⟨hints, hhints, h⟩
    obtain ⟨found, hfound, h⟩ := Traced.returns_bind.mp h
    refine ⟨hints, found, hhints, ?_, (Traced.returns_pure.mp h).symm⟩
    rwa [Stored, sources, Traced.Returns, ← outcome_addClasses]
  · rintro ⟨hints, found, hhints, hfound, rfl⟩
    refine ⟨hints, hhints, Traced.returns_bind.mpr ⟨found, ?_, Traced.returns_pure.mpr rfl⟩⟩
    rwa [Traced.Returns, outcome_addClasses]

namespace Stored

variable {cls : Hint} {found : Found}

theorem nodup (h : table.Stored hints b cls found) : (found.map (·.1)).Nodup := by
  obtain ⟨ms, -, rfl⟩ := returns_collect.mp h
  exact Keyed.nodup_putAll_nil ms

theorem get? (h : table.Stored hints b cls found) (n : String) :
    Option.Rel (fun s m ↦ (table.readSource hints b n s).Returns m)
      (table.source? cls n) (Keyed.get? found n) := by
  obtain ⟨ms, hms, rfl⟩ := returns_collect.mp h
  have hlast : Keyed.get? (Keyed.putAll [] ms) n = Keyed.get? ms.reverse n := by
    rw [Keyed.get?_putAll]
    exact Option.or_none
  rw [hlast, ← get?_reverse_sources]
  exact Keyed.get?_of_forall₂ (R := fun n s m ↦ (table.readSource hints b n s).Returns m)
    (List.forall₂_reverse_iff.mpr hms) n

theorem mem_iff (h : table.Stored hints b cls found) {n : String} {m : Member Hint} :
    (n, m) ∈ found ↔
      ∃ s, table.source? cls n = some s ∧ (table.readSource hints b n s).Returns m := by
  have hget : (n, m) ∈ found ↔ Keyed.get? found n = some m :=
    ⟨Keyed.get?_eq_of_mem h.nodup, Keyed.mem_of_get?⟩
  have hrel := h.get? n
  rw [hget]
  generalize table.source? cls n = source, Keyed.get? found n = stored at hrel
  cases hrel with
  | none => simp
  | some hread =>
    constructor
    · rintro ⟨rfl⟩
      exact ⟨_, rfl, hread⟩
    · rintro ⟨_, ⟨rfl⟩, hread'⟩
      rw [hread.unique hread']

theorem exists_mem (h : table.Stored hints b cls found) {n : String} {s : MemberSource}
    (hs : table.source? cls n = some s) : ∃ m, (n, m) ∈ found := by
  have hrel := h.get? n
  cases hm : Keyed.get? found n with
  | none =>
    rw [hs, hm] at hrel
    exact nomatch hrel
  | some m => exact ⟨m, Keyed.mem_of_get? hm⟩

end Stored

/-! ## Classes with members of their own -/

/-- The type refers to a class that is no enum, and no union of types. -/
structure Inspects (table : ClassTable) (t : TypeRef Hint) (c : ClassName) : Prop where
  classOf : table.classOf t = some (.named c)
  isEnum : table.isEnum (.named c) = false
  barUnion : c ≠ .barUnion

theorem Inspects.members_eq {t : TypeRef Hint} {c : ClassName} (h : table.Inspects t c) :
    table.members t = if table.isRecord (.named c) then
      table.recordMembers (.named c) (table.bindings t)
    else table.plainMembers (.named c) (table.bindings t) := by
  have hbar : (Hint.named c == .named .barUnion) = false := by
    simpa [Hint.beq_eq_same, Hint.same] using h.barUnion
  rw [members, h.classOf]
  dsimp only
  rw [h.isEnum, hbar, Bool.and_false]
  rfl

theorem Inspects.members_of_plain {t : TypeRef Hint} {c : ClassName} (h : table.Inspects t c)
    (hrecord : table.isRecord (.named c) = false) :
    table.members t = table.plainMembers (.named c) (table.bindings t) := by
  rw [h.members_eq, hrecord]
  rfl

end ClassTable

/-- The name and the kind of a member and the name of its type. -/
def Member.outline (m : Member Hint) : String × MemberKind × Option String :=
  (m.name, m.kind, m.declaredType.map (·.fullName))

/-- The reference to a class without arguments. -/
def TypeRef.ofClass (c : ClassName) : TypeRef Hint where
  fullName := c.fullName
  simpleName := c.simpleName
  source := some (.named c)

theorem ClassTable.inspects_ofClass {table : ClassTable} {c : ClassName}
    (hc : table.isEnum (.named c) = false) (hbar : c ≠ .barUnion) :
    table.Inspects (TypeRef.ofClass c) c :=
  ⟨rfl, hc, hbar⟩

end Schemata
