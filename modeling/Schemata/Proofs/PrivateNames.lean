import Schemata.Proofs.InheritedMembers
import Schemata.Proofs.Memberwise

/-!
# Private names

A class stores a private name of its body with its own name in front. The engine judges the
visibility of a member by its name, so it has to get the private name back first. It does so for
annotated names (`declaredName`), with the name of the class whose annotation it reads, and there
the private name is always found. It does not do so for accessors and for the fields of records: a
stored name begins with one underscore only, and its member counts as visible to subtypes.

`ClassTable.private_members_hidden_iff` says for which members of private names the visibility is
right, and that these are the ones that no floor above it lets through.
-/

namespace Schemata

/-! ## Names and their visibility -/

/-- A private name begins with two underscores, and does not end with two. -/
def IsPrivate (name : String) : Prop :=
  (startsPrivate name && !"__".toList.isSuffixOf name.toList) = true

instance (name : String) : Decidable (IsPrivate name) := inferInstanceAs (Decidable (_ = true))

section Names

variable {className name : String}

theorem isPrivate_iff :
    IsPrivate name ↔ "__".toList <+: name.toList ∧ ¬"__".toList <:+ name.toList := by
  rw [IsPrivate, Bool.and_eq_true, startsPrivate, List.isPrefixOf_iff_prefix, Bool.not_eq_true',
    Bool.eq_false_iff, ne_eq, List.isSuffixOf_iff_suffix]

theorem isPrivate_ofList {cs : List Char} :
    IsPrivate (String.ofList cs) ↔ "__".toList <+: cs ∧ ¬"__".toList <:+ cs := by
  rw [isPrivate_iff, String.toList_ofList (l := cs)]

theorem visibilityOf_eq_ownType (h : IsPrivate name) : visibilityOf name = .ownType := if_pos h

theorem storedName_of_private (h : IsPrivate name) (hbare : bareClassName className ≠ "") :
    storedName className name = "_" ++ bareClassName className ++ name := by
  have hnamed : (bareClassName className).isEmpty = false := by simpa using hbare
  have hprivate : (startsPrivate name && !"__".toList.isSuffixOf name.toList) = true := h
  rw [storedName, hprivate, hnamed]
  rfl

theorem storedName_of_unnamed (hbare : bareClassName className = "") :
    storedName className name = name := by
  rw [storedName, hbare]
  simp

theorem head?_bareClassName : (bareClassName className).toList.head? ≠ some '_' := by
  rw [bareClassName, String.toList_ofList]
  intro h
  have hnot := List.head?_dropWhile_not (· == '_') className.toList
  rw [h] at hnot
  exact nomatch hnot

/-- A private name is found behind the stored one, or, without the name of a class in front, one
that differs from it by underscores. -/
theorem isPrivate_declaredName (h : IsPrivate name) :
    IsPrivate (declaredName className (storedName className name)) := by
  obtain ⟨⟨rest, hrest⟩, hsuffix⟩ := isPrivate_iff.mp h
  by_cases hbare : bareClassName className = ""
  · rw [storedName_of_unnamed hbare, declaredName]
    split
    case isFalse => exact h
    case isTrue hmark =>
      have hdash : ("_" ++ "" ++ "__").toList = '_' :: "__".toList := by decide
      rw [hbare, hdash, List.isPrefixOf_iff_prefix] at hmark
      obtain ⟨rest', hrest'⟩ := hmark
      rw [hbare, hdash, ← hrest', isPrivate_ofList]
      refine ⟨⟨rest', rfl⟩, fun hends ↦ hsuffix (hends.trans ?_)⟩
      rw [← hrest']
      exact List.drop_suffix _ _
  · have hstored : (storedName className name).toList =
        ("_" ++ bareClassName className ++ "__").toList ++ rest := by
      rw [storedName_of_private h hbare, String.toList_append, ← hrest,
        String.toList_append (t := "__"), List.append_assoc]
    rw [declaredName, hstored, if_pos (List.isPrefixOf_iff_prefix.mpr ⟨rest, rfl⟩)]
    have hdrop : (("_" ++ bareClassName className ++ "__").toList ++ rest).drop
        (("_" ++ bareClassName className ++ "__").toList.length - 2) = name.toList := by
      rw [String.toList_append (s := "_" ++ bareClassName className), List.append_assoc, hrest]
      exact List.drop_left' (by simp)
    rw [hdrop, String.ofList_toList]
    exact h

theorem visibilityOf_storedName (h : IsPrivate name) : visibilityOf (storedName className name) =
    if bareClassName className = "" then .ownType else .subtypes := by
  by_cases hbare : bareClassName className = ""
  · rw [storedName_of_unnamed hbare, if_pos hbare, visibilityOf_eq_ownType h]
  · rw [storedName_of_private h hbare, if_neg hbare]
    have hunderscore : ("_" ++ bareClassName className ++ name).startsWith "_" = true := by
      rw [String.startsWith_string_iff, String.append_assoc, String.toList_append]
      exact List.prefix_append _ _
    have honce : startsPrivate ("_" ++ bareClassName className ++ name) = false := by
      obtain ⟨c, cs, hcs⟩ : ∃ c cs, (bareClassName className).toList = c :: cs :=
        List.exists_cons_of_ne_nil (by simpa using hbare)
      have hc : c ≠ '_' := by
        rintro rfl
        exact head?_bareClassName (by rw [hcs, List.head?_cons])
      simp [startsPrivate, String.toList_append, hcs, List.isPrefixOf, hc.symm]
    rw [visibilityOf, honce, hunderscore]
    rfl

end Names

/-! ## The fields of models -/

/-- The fields of a class that is a model do not begin with an underscore. -/
def DeclaredClass.PlainModel (d : DeclaredClass) : Prop :=
  ∀ fields, d.model = some fields → ∀ n ∈ fields.map (·.1), n.startsWith "_" = false

namespace ClassTable

/-- No model has a field that begins with an underscore. -/
def PlainModels (table : ClassTable) : Prop := ∀ d ∈ table.classes, d.PlainModel

variable {table table' : ClassTable}

theorem plainModels_nil (moduleName : String) (parameters : List (String × Hint)) :
    PlainModels { moduleName, parameters } := List.forall_mem_nil _

theorem PlainModels.modelFields (h : table.PlainModels) (c : ClassName) :
    ∀ f ∈ table.modelFields c, f.1.startsWith "_" = false := by
  intro f hf
  obtain ⟨d, hd, fields, hfields, hf⟩ := exists_of_mem_modelFields hf
  exact h d hd fields hfields f.1 (List.mem_map_of_mem hf)

theorem PlainModels.modelHints (h : table.PlainModels) (cls : Hint) :
    ∀ f ∈ table.modelHints cls, f.1.startsWith "_" = false := by
  unfold ClassTable.modelHints
  split
  · exact h.modelFields _
  · exact List.forall_mem_map.mpr (h.modelFields _)
  · exact List.forall_mem_nil _

theorem PlainModels.modelLayout (h : table.PlainModels) (source : ClassSource)
    (ancestors : List Hint) :
    ∀ f ∈ table.modelLayout source ancestors, f.1.startsWith "_" = false := by
  intro f hf
  rcases Keyed.mem_putAll hf with hinherited | hkept
  · obtain ⟨cls, -, hf⟩ :=
      Keyed.exists_of_mem_foldl_putAll (List.mem_of_mem_filter hinherited)
    exact h.modelHints cls f hf
  · obtain ⟨written, -, hkept⟩ := List.mem_filterMap.mp hkept
    obtain ⟨hplain, hkept⟩ := Option.ite_none_left_eq_some.mp hkept
    obtain rfl := Option.some.inj hkept
    exact (Bool.or_eq_false_iff.mp (Bool.eq_false_iff.mpr hplain)).1

theorem plainModels_define (h : table.PlainModels) {source : ClassSource}
    (e : table.define source = .ok table') : table'.PlainModels := by
  obtain ⟨ancestors, declared, finished, -, -, -, hdeclared, hfinished, -, rfl⟩ :=
    exists_of_define e
  have hadded : PlainModels { table with classes := table.classes ++ [declared] } := by
    refine List.forall_mem_append.mpr ⟨h, List.forall_mem_singleton.mpr fun fields hfields ↦ ?_⟩
    cases hdeclared.symm.trans hfields
  refine forall_mem_classes_modify hadded source.name fun _ _ _ fields hfields ↦ ?_
  rw [hfinished fields hfields]
  exact List.forall_mem_map.mpr (hadded.modelLayout source ancestors)

theorem plainModels_declare (h : table.PlainModels) {sources : List ClassSource}
    (e : table.declare sources = .ok table') : table'.PlainModels :=
  foldlM_induction (fun _ _ _ hb hc ↦ plainModels_define hb hc) h e

end ClassTable

/-! ## Floors -/

namespace Property

variable {σ : Type} {host : Host σ} {settings : Settings σ} {s : Scope σ} {m : Member σ}

/-- A floor excludes the members that are less visible, and no others. -/
theorem takesPart_floor_iff {floor : Visibility} :
    TakesPart host settings { s with floor := some floor } m ↔
      floor.rank ≤ m.visibility.rank ∧
        TakesPart host settings { s with floor := some .ownType } m := by
  have hlowest {m : Member σ} : ∀ least, some Visibility.ownType = some least →
      least.rank ≤ m.visibility.rank := by
    rintro _ ⟨rfl⟩
    exact Nat.zero_le _
  constructor
  · intro h
    exact ⟨h.visible floor rfl, { h with accessor := nofun, visible := hlowest }⟩
  · rintro ⟨hvisible, h⟩
    refine { h with accessor := nofun, visible := ?_ }
    rintro _ ⟨rfl⟩
    exact hvisible

theorem contribution_of_ownType (hm : m.visibility = .ownType) {floor : Visibility}
    (hfloor : floor ≠ .ownType) :
    (contribution host settings { s with floor := some floor } m).Returns none := by
  refine contribution_of_not_takesPart fun h ↦ ?_
  have hrank := (takesPart_floor_iff.mp h).1
  rw [hm] at hrank
  cases floor <;> first | exact hfloor rfl | exact absurd hrank (by decide)

/-- A member that subtypes see is hidden above the lowest visibility only if it is hidden anyway. -/
theorem contribution_of_subtypes (hm : m.visibility = .subtypes) :
    (∀ floor, floor ≠ .ownType →
        (contribution host settings { s with floor := some floor } m).Returns none) ↔
      (contribution host settings { s with floor := some .ownType } m).Returns none := by
  simp only [contribution_returns_none_iff]
  constructor
  · intro h hpart
    exact h .subtypes nofun (takesPart_floor_iff.mpr ⟨hm ▸ Nat.le_refl _, hpart⟩)
  · intro h floor _ hpart
    exact h (takesPart_floor_iff.mp hpart).2

end Property

/-! ## Members of private names -/

/-- The class whose declaration makes a member. -/
def MemberSource.owner : MemberSource → ClassName
  | .annotated owner => owner
  | .accessor owner _ => owner

namespace ClassTable

/-- A class has a member of a name of another class's body: a field of the record, or what that
class declares. -/
structure HasFrom (table : ClassTable) (c : ClassName) (b : Hint.Bindings) (k : ClassName)
    (p : String) (m : Member Hint) : Prop where
  has : table.Has c b (storedName k.simpleName p) m
  owner : table.isRecord (.named c) = false →
    ∃ s, table.source? (.named c) (storedName k.simpleName p) = some s ∧ s.owner = k

/-- A private name is found behind the stored one: it is annotated, and not in a record, or the name
of its class has underscores only, and it is stored as it is. -/
def FindsPrivate (table : ClassTable) (c k : ClassName) (p : String) : Prop :=
  (table.isRecord (.named c) = false ∧
    ∃ owner, table.source? (.named c) (storedName k.simpleName p) = some (.annotated owner)) ∨
  bareClassName k.simpleName = ""

variable {table : ClassTable} {c k : ClassName} {b : Hint.Bindings} {p : String} {m : Member Hint}

/-- A member has the lowest visibility if its private name is found, and the next one if not. -/
theorem HasFrom.visibility (h : table.HasFrom c b k p m) (hp : IsPrivate p) :
    (table.FindsPrivate c k p → m.visibility = .ownType) ∧
      (¬table.FindsPrivate c k p → m.visibility = .subtypes) := by
  have hstored (hm : m.visibility = visibilityOf (storedName k.simpleName p))
      (hiff : table.FindsPrivate c k p ↔ bareClassName k.simpleName = "") :
      (table.FindsPrivate c k p → m.visibility = .ownType) ∧
        (¬table.FindsPrivate c k p → m.visibility = .subtypes) := by
    rw [hm, visibilityOf_storedName hp, hiff]
    exact ⟨fun hbare ↦ if_pos hbare, fun hbare ↦ if_neg hbare⟩
  obtain ⟨hrecord, -, -, hm⟩ | @⟨_, s, hplain, -, hs, hm⟩ := h.has
  · obtain ⟨-, -, -, hvisible, -⟩ := returns_member hm
    refine hstored hvisible (or_iff_right fun hfound ↦ ?_)
    cases hrecord.symm.trans hfound.1
  · obtain ⟨s', hs', rfl⟩ := h.owner hplain
    obtain rfl := Option.some.inj (hs.symm.trans hs')
    cases s with
    | annotated owner =>
      rw [readSource, annotatedMember_eq] at hm
      obtain ⟨-, -, -, hvisible, -⟩ := returns_member hm
      replace hvisible : m.visibility = .ownType :=
        hvisible.trans (visibilityOf_eq_ownType (isPrivate_declaredName hp))
      exact ⟨fun _ ↦ hvisible, fun hnot ↦ absurd (.inl ⟨hplain, owner, hs⟩) hnot⟩
    | accessor owner a =>
      obtain ⟨hint, -, hm⟩ := Traced.returns_bind.mp hm
      obtain ⟨-, -, -, hvisible, -⟩ := returns_member hm
      refine hstored hvisible (or_iff_right ?_)
      rintro ⟨-, _, hannotated⟩
      cases hs.symm.trans hannotated

section Kinds

variable {t : TypeRef Hint} {cls : Hint} (hcls : table.classOf t = some cls)
  {ms : List (Member Hint)} (hms : (table.members t).Returns ms)

include hcls hms

theorem isStatic_of_enum (henum : table.isEnum cls = true) : ∀ m ∈ ms, m.isStatic = true := by
  rw [members, hcls] at hms
  dsimp only at hms
  rw [if_pos henum] at hms
  obtain rfl := Traced.returns_pure.mp hms
  intro m hm
  obtain ⟨constant, -, rfl⟩ := List.mem_map.mp hm
  rfl

theorem plain_of_model (plain : table.PlainModels) (henum : table.isEnum cls = false)
    (hmodel : table.isModel cls = true) : ∀ m ∈ ms, m.name.startsWith "_" = false := by
  have hrecord : table.isRecord cls = true := by rw [isRecord, hmodel, Bool.or_true, Bool.true_or]
  rw [members, hcls] at hms
  dsimp only at hms
  rw [henum, if_neg Bool.false_ne_true] at hms
  split at hms
  · cases hms
  · rw [recordMembers, if_pos hmodel, Traced.returns_inOrder,
      List.forall₂_map_left_iff] at hms
    intro m hm
    obtain ⟨f, hf, hread⟩ := exists_of_mem_right hms hm
    rw [(returns_member hread).1]
    exact plain.modelHints cls f hf

end Kinds

/-- **Private members are hidden exactly where the private name is found.** A member that a class
declares under a private name, or inherits, is reported: with the lowest visibility if the private
name is found behind the stored one, and as visible to subtypes if not. Accordingly it contributes
no property under any floor above the lowest visibility exactly if the private name is found or it
contributes none anyway. The members of enums contribute none at all, and those of models do not
have private names. -/
theorem private_members_hidden_iff (plain : table.PlainModels) {t : TypeRef Hint}
    {ms : List (Member Hint)} (hms : (table.members t).Returns ms) :
    (∀ cls, table.classOf t = some cls → table.isEnum cls = true →
      ∀ m ∈ ms, ∀ (host : Host Hint) settings s,
        (Property.contribution host settings s m).Returns none) ∧
    (∀ cls, table.classOf t = some cls → table.isEnum cls = false → table.isModel cls = true →
      ∀ m ∈ ms, m.name.startsWith "_" = false) ∧
    ∀ c k p m, table.Inspects t c → table.isModel (.named c) = false → IsPrivate p →
      table.HasFrom c (table.bindings t) k p m →
      m ∈ ms ∧
      (table.FindsPrivate c k p → m.visibility = .ownType) ∧
      (¬table.FindsPrivate c k p → m.visibility = .subtypes) ∧
      ∀ (host : Host Hint) settings (s : Property.Scope Hint),
        (∀ floor, floor ≠ .ownType →
          (Property.contribution host settings { s with floor := some floor } m).Returns none) ↔
        table.FindsPrivate c k p ∨
          (Property.contribution host settings { s with floor := some .ownType } m).Returns
            none := by
  refine ⟨fun cls hcls henum m hm host settings s ↦ ?_, fun cls hcls henum hmodel ↦
    plain_of_model hcls hms plain henum hmodel, fun c k p m ht hmodel hp hm ↦ ?_⟩
  · refine Property.contribution_of_not_takesPart fun hpart ↦ ?_
    exact nomatch hpart.ofValue.symm.trans (isStatic_of_enum hcls hms henum m hm)
  obtain ⟨hfound, hlost⟩ := hm.visibility hp
  refine ⟨(ht.mem_iff_has hmodel hms).mpr ⟨_, hm.has⟩, hfound, hlost, fun host settings s ↦ ?_⟩
  by_cases hfinds : table.FindsPrivate c k p
  · exact iff_of_true (fun _ ↦ Property.contribution_of_ownType (hfound hfinds)) (.inl hfinds)
  · rw [or_iff_right hfinds, Property.contribution_of_subtypes (hlost hfinds)]

end ClassTable

namespace Vaults

open ClassTable

/-- A chest with something private in it. -/
def chest : ClassName := ⟨"app", "_Chest"⟩

/-- A chest that is kept by somebody. -/
def hoard : ClassName := ⟨"app", "Hoard"⟩

/-- A class with a private property. -/
def vault : ClassName := ⟨"app", "Vault"⟩

/-- A record with a private field. -/
def safe : ClassName := ⟨"app", "Safe"⟩

/-- A number. -/
def number : Hint := .named ⟨"builtins", "int"⟩

/-- The metadata that shows the members of a class that are visible to subtypes. -/
def shown : List Datum :=
  [.made ⟨Marker.home, "OpenApiByFields"⟩ .marker [("value", Marker.visibility .subtypes)]]

/-- Four classes, each of which may be read down to what is visible to subtypes. -/
def declarations : List ClassSource := [
  { name := chest, fields := [{ name := "__gold", hint := number }], attached := shown },
  { name := hoard, bases := [.named chest], fields := [{ name := "keeper", hint := number }],
    attached := shown },
  { name := vault, methods := [{ name := "__key", form := .property, result := some number }],
    attached := shown },
  { name := safe, kind := .record, fields := [{ name := "__code", hint := number }],
    attached := shown }]

/-- The module before anything is declared. -/
def empty : ClassTable where
  moduleName := "app"

/-- The table of the four classes. -/
def table : ClassTable := empty.declared declarations

theorem declare_vaults : empty.declare declarations = .ok table := declare_eq_ok (by decide +kernel)

theorem plainModels : table.PlainModels :=
  plainModels_declare (plainModels_nil "app" []) declare_vaults

theorem inspects {c : ClassName} (hc : c ∈ [hoard, vault, safe]) :
    table.Inspects (.ofClass c) c := by
  have hclass : ∀ c ∈ [hoard, vault, safe], table.isEnum (.named c) = false ∧ c ≠ .barUnion := by
    decide +kernel
  obtain ⟨henum, hbar⟩ := hclass c hc
  exact inspects_ofClass henum hbar

/-- The owner of a source, and whether it is an annotation. -/
def sourceLine : MemberSource → ClassName × Bool
  | .annotated owner => (owner, true)
  | .accessor owner _ => (owner, false)

theorem source?_gold : table.source? (.named hoard) (storedName chest.simpleName "__gold") =
    some (.annotated chest) := by
  have hline : (table.source? (.named hoard) (storedName chest.simpleName "__gold")).map
      sourceLine = some (chest, true) := by
    decide +kernel
  obtain ⟨s, hs, hline⟩ := Option.map_eq_some_iff.mp hline
  rw [hs]
  cases s with
  | annotated owner => rw [(Prod.mk.inj hline).1]
  | accessor owner a => exact nomatch (Prod.mk.inj hline).2

/-- What a hoard inherits from a chest with a private name stays hidden under every floor. -/
theorem hides_gold :
    table.PlainModels ∧ IsPrivate "__gold" ∧
      ∃ ms, (table.members (.ofClass hoard)).Returns ms ∧
        ms.map Member.outline =
          [("__gold", .field, some "builtins.int"), ("keeper", .field, some "builtins.int")] ∧
        ∃ m ∈ ms, table.HasFrom hoard (table.bindings (.ofClass hoard)) chest "__gold" m ∧
          m.visibility = .ownType ∧
          ∀ (host : Host Hint) settings (s : Property.Scope Hint) floor, floor ≠ .ownType →
            (Property.contribution host settings { s with floor := some floor } m).Returns
              none := by
  have hplain : table.isRecord (.named hoard) = false := by decide +kernel
  have hp : IsPrivate "__gold" := by decide +kernel
  have ht : table.Inspects (.ofClass hoard) hoard := inspects (by simp)
  obtain ⟨ms, hms, houtline⟩ : ∃ ms, (table.members (.ofClass hoard)).Returns ms ∧
      ms.map Member.outline =
        [("__gold", .field, some "builtins.int"), ("keeper", .field, some "builtins.int")] :=
    Traced.exists_returns_of_map (by decide +kernel)
  obtain ⟨m, hm⟩ := ht.exists_has_source hms hplain source?_gold
  have hfrom : table.HasFrom hoard (table.bindings (.ofClass hoard)) chest "__gold" m :=
    ⟨hm, fun _ ↦ ⟨_, source?_gold, rfl⟩⟩
  have hfinds : table.FindsPrivate hoard chest "__gold" := .inl ⟨hplain, _, source?_gold⟩
  obtain ⟨-, -, hprivate⟩ := private_members_hidden_iff plainModels hms
  obtain ⟨hmem, hfound, -, hhidden⟩ :=
    hprivate hoard chest "__gold" m ht (by decide +kernel) hp hfrom
  exact ⟨plainModels, hp, ms, hms, houtline, m, hmem, hfrom, hfound hfinds,
    fun host settings s ↦ (hhidden host settings s).mpr (.inl hfinds)⟩

/-- The private property and the private field are reported as visible to subtypes, and become
properties of classes that are read down to these. -/
theorem shows_private_names :
    empty.declare declarations = .ok table ∧ IsPrivate "__key" ∧ IsPrivate "__code" ∧
      (∃ ms, (table.members (.ofClass vault)).Returns ms ∧
        ms.map (fun m ↦ (m.name, m.visibility)) =
          [(storedName vault.simpleName "__key", .subtypes)]) ∧
      (∃ ms, (table.members (.ofClass safe)).Returns ms ∧
        ms.map (fun m ↦ (m.name, m.visibility)) =
          [(storedName safe.simpleName "__code", .subtypes)]) ∧
      (Property.reading (table.host []) (.ofClass vault)).Returns (some .subtypes, true) ∧
      (∃ ps, (Property.extract (table.host []) {} (.ofClass vault) true).Returns ps ∧
        ps.map (·.name) = ["_Vault__key"]) ∧
      (Property.reading (table.host []) (.ofClass safe)).Returns (some .subtypes, true) ∧
      ∃ ps, (Property.extract (table.host []) {} (.ofClass safe) true).Returns ps ∧
        ps.map (·.name) = ["_Safe__code"] := by
  have hreading : ∀ c ∈ [vault, safe],
      (Property.reading (table.host []) (.ofClass c)).outcome.toOption =
        some (some .subtypes, true) := by
    decide +kernel
  have hreturns {c : ClassName} (hc : c ∈ [vault, safe]) :
      (Property.reading (table.host []) (.ofClass c)).Returns (some .subtypes, true) := by
    obtain ⟨_, h, rfl⟩ :=
      Traced.exists_returns_of_map ((congrFun Option.map_id _).trans (hreading c hc))
    exact h
  exact ⟨declare_vaults, by decide +kernel, by decide +kernel,
    Traced.exists_returns_of_map (by decide +kernel),
    Traced.exists_returns_of_map (by decide +kernel), hreturns (by simp),
    Traced.exists_returns_of_map (by decide +kernel), hreturns (by simp),
    Traced.exists_returns_of_map (by decide +kernel)⟩

end Vaults

end Schemata
