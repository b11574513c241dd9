import Schemata.Proofs.MemberSources
import Schemata.Proofs.NearestHints

/-!
# The fields of records

Each field of a record has a hint, that of the nearest class that annotates it, and the hint has a
type once the names in it are looked up in that class; a hint in which a name cannot be found counts
as it was written. `ClassTable.DescribesField` says of a member that it is what this hint alone
makes of the field.

The engine looks the names of all hints of the ancestry up together. If it finds them all, every
field is described by its own hint. If it misses one, wherever it is, fields that the class itself
does not annotate are left without a type, and the others have their hints as they were written.
`ClassTable.describes_fields_iff` says when every field is described nevertheless.
-/

namespace Schemata

namespace ClassTable

variable (table : ClassTable)

/-- A hint written in a class with its names looked up, or as it was written. -/
def lookedUp (d : DeclaredClass) (h : Hint) : Hint :=
  match table.resolve (some d.name) h with
  | .ok found => found
  | .error _ => h

/-- The member of a field that has a hint. -/
def fieldMember (b : Hint.Bindings) (n : String) (hint : Option Hint) : Traced (Member Hint) :=
  table.member n .method hint b false []

/-- A member is what a field's own hint makes of the field, and has a type. -/
def DescribesField (cls : Hint) (b : Hint.Bindings) (n : String) (m : Member Hint) : Prop :=
  ∃ d h, table.annotation? cls n = some (d, h) ∧
    (table.fieldMember b n (some (table.lookedUp d h))).Returns m ∧ m.declaredType ≠ none

/-- A name in a hint of the ancestry is not found, and the hints are left as they were written. -/
def Unresolved (cls : Hint) : Prop :=
  ∃ e, table.inheritedHints cls = .error e ∧ ∀ x, e ≠ .escaped x

variable {table} {cls : Hint} {b : Hint.Bindings} {n : String}

/-! ## Hints and types of fields -/

theorem returns_orWritten {α : Type} {shown : String} {found : Except LookupFailure α}
    {written a : α} : (orWritten shown found written).Returns a ↔
      found = .ok a ∨ (∃ e, found = .error e ∧ ∀ x, e ≠ .escaped x) ∧ a = written := by
  have hdebug (e : LookupFailure) : (do
      Traced.debug ("Could not resolve type hints of " ++ shown ++ ": " ++ e.message)
      return written : Traced α).Returns a ↔ a = written := by
    rw [eq_comm]
    exact Traced.returns_pure
  cases found with
  | ok a' => simp [orWritten]
  | error e =>
    cases e with
    | escaped x => simp [orWritten, Traced.Returns]
    | undefined name => simp [orWritten, hdebug]
    | missing owner name => simp [orWritten, hdebug]
    | unfit reason => simp [orWritten, hdebug]

theorem returns_hintsOf {hints : List (String × Hint)} : (table.hintsOf cls).Returns hints ↔
    table.inheritedHints cls = .ok hints ∨
      table.Unresolved cls ∧ hints = table.writtenHints cls :=
  returns_orWritten

theorem Unresolved.not_resolves (h : table.Unresolved cls) : ¬table.Resolves cls := by
  obtain ⟨e, he, -⟩ := h
  rw [← exists_inheritedHints_iff]
  rintro ⟨hints, hhints⟩
  exact nomatch he.symm.trans hhints

/-- If all names are found, a field's own hint is the one that the class has for it. -/
theorem fieldMember_of_resolved (distinct : table.DistinctNames) {hints : List (String × Hint)}
    (e : table.inheritedHints cls = .ok hints) {m : Member Hint} :
    table.DescribesField cls b n m ↔
      (table.fieldMember b n (Keyed.get? hints n)).Returns m ∧ m.declaredType ≠ none := by
  have hrel := get?_of_inheritedHints distinct e n
  unfold DescribesField
  generalize table.annotation? cls n = nearest, Keyed.get? hints n = hint at hrel
  cases hrel with
  | none =>
    constructor
    · rintro ⟨d, h, hnone, -⟩
      exact nomatch hnone
    · rintro ⟨hm, htype⟩
      exact absurd ((returns_member hm).2.2.2.2.mpr nofun) htype
  | @some found h hfound =>
    have hlooked : table.lookedUp found.1 found.2 = h := by rw [lookedUp, hfound]
    constructor
    · rintro ⟨d, k, hdk, hm⟩
      obtain rfl := Option.some.inj hdk
      rwa [hlooked] at hm
    · intro hm
      exact ⟨found.1, found.2, rfl, by rwa [hlooked]⟩

/-! ## The members of a record -/

/-- The members of a record that is no model are made of its fields, in order. -/
theorem Inspects.returns_fields {t : TypeRef Hint} {c : ClassName} (h : table.Inspects t c)
    (hrecord : table.isRecord (.named c)) (hmodel : table.isModel (.named c) = false)
    {ms : List (Member Hint)} :
    (table.members t).Returns ms ↔
      ∃ hints, (table.hintsOf (.named c)).Returns hints ∧
        List.Forall₂ (fun n m ↦ (table.fieldMember (table.bindings t) n
          (Keyed.get? hints n)).Returns m) (table.fieldNames (.named c)) ms := by
  rw [h.members_eq, if_pos hrecord, recordMembers, hmodel, if_neg Bool.false_ne_true,
    Traced.returns_bind]
  simp only [Traced.returns_inOrder, List.forall₂_map_left_iff]
  rfl

/-- What is returned for a record has the names of its fields, in order; and if a name in a hint is
not found, the fields without a type are those that the class itself does not annotate, or annotates
with the absent value. -/
theorem untyped_fields {t : TypeRef Hint} {c : ClassName} (ht : table.Inspects t c)
    (hrecord : table.isRecord (.named c)) (hmodel : table.isModel (.named c) = false)
    {ms : List (Member Hint)} (h : (table.members t).Returns ms) :
    ms.map (·.name) = table.fieldNames (.named c) ∧
      (table.Unresolved (.named c) → ∀ m ∈ ms, (m.declaredType = none ↔
        ∀ k, Keyed.get? (table.writtenHints (.named c)) m.name = some k → k = .null)) := by
  obtain ⟨hints, hhints, hms⟩ := (ht.returns_fields hrecord hmodel).mp h
  constructor
  · have hnames : List.Forall₂ (fun n (m : Member Hint) ↦ n = m.name) _ ms :=
      hms.imp fun n m hm ↦ (returns_member hm).1.symm
    rw [← List.forall₂_map_right_iff, List.forall₂_eq_eq_eq] at hnames
    exact hnames.symm
  · intro hunresolved m hm
    obtain ⟨n, -, hread⟩ := exists_of_mem_right hms hm
    obtain ⟨hname, -, -, -, htype⟩ := returns_member hread
    obtain hfound | ⟨-, rfl⟩ := returns_hintsOf.mp hhints
    · exact absurd (exists_inheritedHints_iff.mp ⟨hints, hfound⟩) hunresolved.not_resolves
    · rw [hname, htype]

/-- **No field is lost exactly if every name is found, or none is needed.** The members of a record
that is no model are the fields, each as its own hint describes it, exactly if each hint has a type
by itself and either all names in the hints of the ancestry are found, or, without a text that
cannot be read, the class itself writes hints for all fields that describe them as they are written.
In any case what is returned is one member for each field, in order; and where a name is not found,
the fields that the class itself does not annotate, or annotates with the absent value, have no
type. -/
theorem describes_fields_iff (distinct : table.DistinctNames) {t : TypeRef Hint} {c : ClassName}
    (ht : table.Inspects t c) (hrecord : table.isRecord (.named c))
    (hmodel : table.isModel (.named c) = false) :
    ((∃ ms, (table.members t).Returns ms ∧
        List.Forall₂ (table.DescribesField (.named c) (table.bindings t))
          (table.fieldNames (.named c)) ms) ↔
      (∀ n ∈ table.fieldNames (.named c),
        ∃ m, table.DescribesField (.named c) (table.bindings t) n m) ∧
      (table.Resolves (.named c) ∨ table.Unresolved (.named c) ∧
        ∀ n ∈ table.fieldNames (.named c), ∃ m,
          (table.fieldMember (table.bindings t) n
            (Keyed.get? (table.writtenHints (.named c)) n)).Returns m ∧
          table.DescribesField (.named c) (table.bindings t) n m)) ∧
    ∀ ms, (table.members t).Returns ms → ms.map (·.name) = table.fieldNames (.named c) ∧
      (table.Unresolved (.named c) → ∀ m ∈ ms, (m.declaredType = none ↔
        ∀ k, Keyed.get? (table.writtenHints (.named c)) m.name = some k → k = .null)) := by
  refine ⟨?_, fun ms h ↦ untyped_fields ht hrecord hmodel h⟩
  simp only [ht.returns_fields hrecord hmodel]
  constructor
  · rintro ⟨ms, ⟨hints, hhints, hms⟩, hdescribed⟩
    refine ⟨exists_forall₂_iff.mp ⟨ms, hdescribed⟩, ?_⟩
    rcases returns_hintsOf.mp hhints with hfound | ⟨hunresolved, rfl⟩
    · exact .inl (exists_inheritedHints_iff.mp ⟨hints, hfound⟩)
    · exact .inr ⟨hunresolved, exists_forall₂_iff.mp ⟨ms, forall₂_and hms hdescribed⟩⟩
  · rintro ⟨hall, hresolves | ⟨hunresolved, hwritten⟩⟩
    · obtain ⟨hints, hfound⟩ := exists_inheritedHints_iff.mpr hresolves
      obtain ⟨ms, hms⟩ := exists_forall₂ hall
      refine ⟨ms, ⟨hints, returns_hintsOf.mpr (.inl hfound), hms.imp fun n m hm ↦ ?_⟩, hms⟩
      exact ((fieldMember_of_resolved distinct hfound).mp hm).1
    · obtain ⟨ms, hms⟩ := exists_forall₂ hwritten
      exact ⟨ms, ⟨_, returns_hintsOf.mpr (.inr ⟨hunresolved, rfl⟩), hms.imp fun _ _ h ↦ h.1⟩,
        hms.imp fun _ _ h ↦ h.2⟩

end ClassTable

namespace Parcels

open ClassTable

/-- Something with a weight. -/
def item : ClassName := ⟨"app", "Item"⟩

/-- An item that may be packed into another of its kind. -/
def crate : ClassName := ⟨"app", "Crate"⟩

/-- An item with a content of a class that does not exist. -/
def parcel : ClassName := ⟨"app", "Parcel"⟩

/-- A number. -/
def number : Hint := .named ⟨"builtins", "int"⟩

/-- Three records. -/
def declarations : List ClassSource := [
  { name := item, kind := .record, fields := [{ name := "weight", hint := number }] },
  { name := crate, kind := .record, bases := [.named item],
    fields := [{ name := "packed", hint := .text "Crate" }] },
  { name := parcel, kind := .record, bases := [.named item],
    fields := [{ name := "content", hint := .text "Unknown" }] }]

/-- The module before anything is declared. -/
def empty : ClassTable where
  moduleName := "app"

/-- The table of the three records. -/
def table : ClassTable := empty.declared declarations

theorem declare_parcels : empty.declare declarations = .ok table :=
  declare_eq_ok (by decide +kernel)

theorem distinctNames : table.DistinctNames :=
  distinctNames_declare (distinctNames_nil "app" []) declare_parcels

theorem inspects {c : ClassName} (hc : c ∈ [crate, parcel]) : table.Inspects (.ofClass c) c := by
  have hclass : ∀ c ∈ [crate, parcel], table.isEnum (.named c) = false ∧ c ≠ .barUnion := by
    decide +kernel
  obtain ⟨henum, hbar⟩ := hclass c hc
  exact inspects_ofClass henum hbar

/-- What its own hint makes of a field. -/
def described (c : ClassName) (n : String) : Option (String × MemberKind × Option String) :=
  (table.annotation? (.named c) n).bind fun found ↦
    (table.fieldMember [] n (some (table.lookedUp found.1 found.2))).outcome.toOption.map
      Member.outline

theorem exists_describesField {c : ClassName} {n type : String}
    (h : described c n = some (n, .method, some type)) :
    ∃ m, table.DescribesField (.named c) [] n m ∧ m.outline = (n, .method, some type) := by
  obtain ⟨⟨d, k⟩, hnearest, h⟩ := Option.bind_eq_some_iff.mp h
  obtain ⟨m, hm, hline⟩ := Traced.exists_returns_of_map h
  refine ⟨m, ⟨d, k, hnearest, hm, fun htype ↦ ?_⟩, hline⟩
  rw [Member.outline, htype] at hline
  exact nomatch (Prod.mk.inj (Prod.mk.inj hline).2).2

/-- All fields of a crate are described, the one with its own class for a type included. -/
theorem describes_crate :
    table.Inspects (.ofClass crate) crate ∧ table.isRecord (.named crate) = true ∧
      table.isModel (.named crate) = false ∧
      ∃ ms, (table.members (.ofClass crate)).Returns ms ∧
        List.Forall₂ (table.DescribesField (.named crate) (table.bindings (.ofClass crate)))
          (table.fieldNames (.named crate)) ms := by
  have hrecord : table.isRecord (.named crate) = true := by decide +kernel
  have hmodel : table.isModel (.named crate) = false := by decide +kernel
  have hresolves : table.Resolves (.named crate) := resolves_of_isSome (by decide +kernel)
  have hall : ∀ n ∈ table.fieldNames (.named crate),
      ∃ m, table.DescribesField (.named crate) [] n m := by
    have hnames : table.fieldNames (.named crate) = ["weight", "packed"] := by decide +kernel
    rw [hnames]
    intro n hn
    obtain rfl | rfl := List.mem_pair.mp hn
    · obtain ⟨m, hm, -⟩ := exists_describesField
        (show described crate "weight" = some ("weight", .method, some "builtins.int") by
          decide +kernel)
      exact ⟨m, hm⟩
    · obtain ⟨m, hm, -⟩ := exists_describesField
        (show described crate "packed" = some ("packed", .method, some "app.Crate") by
          decide +kernel)
      exact ⟨m, hm⟩
  have ht : table.Inspects (.ofClass crate) crate := inspects (by simp)
  exact ⟨ht, hrecord, hmodel,
    (describes_fields_iff distinctNames ht hrecord hmodel).1.mpr ⟨hall, .inl hresolves⟩⟩

/-- A parcel has no weight, because nothing is known of its content. -/
theorem loses_weight :
    empty.declare declarations = .ok table ∧ table.Inspects (.ofClass parcel) parcel ∧
      table.isRecord (.named parcel) = true ∧ table.isModel (.named parcel) = false ∧
      (∃ m, table.DescribesField (.named parcel) (table.bindings (.ofClass parcel)) "weight" m ∧
        m.outline = ("weight", .method, some "builtins.int")) ∧
      ∃ ms, (table.members (.ofClass parcel)).Returns ms ∧
        ms.map Member.outline =
          [("weight", .method, none), ("content", .method, some "typing.Any")] :=
  ⟨declare_parcels, inspects (by simp), by decide +kernel, by decide +kernel,
    exists_describesField (by decide +kernel), Traced.exists_returns_of_map (by decide +kernel)⟩

end Parcels

end Schemata
