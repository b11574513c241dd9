import Schemata.Classes.Metadata
import Schemata.Proofs.CollectedMetadata
import Schemata.Proofs.Resolvable

/-!
# Values of custom metadata

An author gives an attribute of custom metadata as a datum. The host turns it into an attribute of a
known kind, and the engine coerces that into a value of the schema. `Datum.dataForm` says what should
come out in the end: truth values and numbers as they are, texts without their indentation, constants
as their declared names, types as the full names of their references, and lists of all these.

Only `Datum.leaves` can be in the way, and `Datum.offence?` says what is wrong with one. The leaves
are listed from left to right, so the first offence among them is the one that is reported.

Both steps together do what they should exactly if every hint that the datum mentions has a
reference and every constant shows its declared name. A sequence type around an element that is no
key has no reference, and it takes the whole datum with it. The constants of an enum that a class
with an attribute `name` is mixed into show something else.
-/

namespace Schemata

open Traced

/-! ## What becomes of a datum -/

/-- A truth value, a number or a text. -/
def Value.IsScalar (v : Value) : Bool :=
  match v.plain with
  | .bool _ | .int _ | .float _ | .str _ => true
  | _ => false

/-- The full name of the reference of a hint. -/
def ClassTable.referenceName (table : ClassTable) (h : Hint) : String :=
  ((table.reference h).outcome.toOption.map (·.fullName)).getD ""

namespace Datum

mutual

/-- The data that a datum is made of, from left to right: the items of lists and of fixed sequences,
and of those among them, at every depth. -/
def leaves : Datum → List Datum
  | list items => leavesOf items
  | tuple items => leavesOf items
  | made _ .tuple fields => fieldLeaves fields
  | d => [d]

/-- The leaves of several data. -/
def leavesOf : List Datum → List Datum
  | [] => []
  | d :: ds => d.leaves ++ leavesOf ds

/-- The leaves of the values of fields. -/
def fieldLeaves : List (String × Datum) → List Datum
  | [] => []
  | (_, d) :: fs => d.leaves ++ fieldLeaves fs

end

/-- What is wrong with a leaf: nothing with a scalar, a constant or a type; a schema tag is one tag
too many; and what else there is, is not known. -/
def offence? : Datum → Option String
  | plain v => if v.IsScalar then none else some ("unknown value " ++ v.shown)
  | constant _ _ _ => none
  | hint h => if h.isTypeLike then none else some ("unknown value " ++ h.shown)
  | made _ .marker _ => some "nested annotations are not supported"
  | made _ .metadata _ => some "nested annotations are not supported"
  | d => some ("unknown value " ++ d.shown)

section Forms

variable (table : ClassTable) (names : ClassName → String → String)

mutual

/-- A datum as a value of a schema, the constants by these names; null stands where there is no such
value. -/
def formWith : Datum → Value
  | plain v =>
    match v.plain with
    | .str s => .str (Text.trimIndent s)
    | _ => v
  | constant c name _ => .str (names c name)
  | hint h => .str (table.referenceName h)
  | list items => .list (formsWith items)
  | tuple items => .list (formsWith items)
  | made _ .tuple fields => .list (fieldFormsWith fields)
  | made _ _ _ => .null

/-- Several data as values. -/
def formsWith : List Datum → List Value
  | [] => []
  | d :: ds => formWith d :: formsWith ds

/-- The values of fields as values. -/
def fieldFormsWith : List (String × Datum) → List Value
  | [] => []
  | (_, d) :: fs => formWith d :: fieldFormsWith fs

end

end Forms

/-- The text that a constant shows as its name. -/
def shownText (table : ClassTable) (c : ClassName) (name : String) : String :=
  (table.shownName (.named c) name).text

mutual

/-- The types that a datum mentions: in lists, in fixed sequences, and in the fields of tags. -/
def mentioned : Datum → List Hint
  | hint h => if h.isTypeLike then [h] else []
  | list items => mentionedIn items
  | tuple items => mentionedIn items
  | made _ .tuple fields => mentionedInFields fields
  | made _ .marker fields => mentionedInFields fields
  | made _ .metadata fields => mentionedInFields fields
  | _ => []

/-- The types that several data mention. -/
def mentionedIn : List Datum → List Hint
  | [] => []
  | d :: ds => d.mentioned ++ mentionedIn ds

/-- The types that the values of fields mention. -/
def mentionedInFields : List (String × Datum) → List Hint
  | [] => []
  | (_, d) :: fs => d.mentioned ++ mentionedInFields fs

end

/-- What comes of leaves that should give a form: the form, or the first offence among them. -/
def judged {α : Type} (leaves : List Datum) (form : α) : Except Error α :=
  match leaves.findSome? offence? with
  | none => .ok form
  | some reason => .error (.uncoercible reason)

section Names

variable {table : ClassTable} {names names' : ClassName → String → String}

/-- Names agree on the constants among some leaves. -/
def AgreeOn (names names' : ClassName → String → String) (leaves : List Datum) : Prop :=
  ∀ c name v, constant c name v ∈ leaves → names c name = names' c name

theorem agreeOn_append {ls ls' : List Datum} :
    AgreeOn names names' (ls ++ ls') ↔ AgreeOn names names' ls ∧ AgreeOn names names' ls' := by
  unfold AgreeOn
  simp only [List.mem_append, or_imp, forall_and]

mutual

theorem formWith_eq_iff : ∀ d : Datum, d.formWith table names = d.formWith table names' ↔
    AgreeOn names names' d.leaves
  | plain v => by simp [formWith, leaves, AgreeOn]
  | constant c name v => by
    change _ ↔ AgreeOn names names' [constant c name v]
    rw [formWith, formWith, Value.str.injEq]
    refine ⟨fun hname c' name' v' hmem ↦ ?_, fun hagree ↦ hagree c name v List.mem_cons_self⟩
    obtain ⟨rfl, rfl, -⟩ := constant.inj (List.mem_singleton.mp hmem)
    exact hname
  | hint h => by simp [formWith, leaves, AgreeOn]
  | list items => by rw [formWith, formWith, Value.list.injEq, formsWith_eq_iff items, leaves]
  | tuple items => by rw [formWith, formWith, Value.list.injEq, formsWith_eq_iff items, leaves]
  | made c .tuple fields => by
    rw [formWith, formWith, Value.list.injEq, fieldFormsWith_eq_iff fields, leaves]
  | made c .marker fields => by simp [formWith, leaves, AgreeOn]
  | made c .metadata fields => by simp [formWith, leaves, AgreeOn]
  | made c .other fields => by simp [formWith, leaves, AgreeOn]

theorem formsWith_eq_iff : ∀ ds : List Datum, formsWith table names ds = formsWith table names' ds ↔
    AgreeOn names names' (leavesOf ds)
  | [] => by simp [formsWith, leavesOf, AgreeOn]
  | d :: ds => by
    rw [formsWith, formsWith, List.cons.injEq, formWith_eq_iff d, formsWith_eq_iff ds, leavesOf,
      agreeOn_append]

theorem fieldFormsWith_eq_iff : ∀ fs : List (String × Datum),
    fieldFormsWith table names fs = fieldFormsWith table names' fs ↔
      AgreeOn names names' (fieldLeaves fs)
  | [] => by simp [fieldFormsWith, fieldLeaves, AgreeOn]
  | (name, d) :: fs => by
    rw [fieldFormsWith, fieldFormsWith, List.cons.injEq, formWith_eq_iff d,
      fieldFormsWith_eq_iff fs, fieldLeaves, agreeOn_append]

end

end Names

/-! ## Conversion -/

variable {table : ClassTable}

section Conversion

theorem exists_bind_cons_iff {α : Type} {x : Traced α} {xs : Traced (List α)} :
    (∃ as, (do return (← x) :: (← xs) : Traced (List α)).Returns as) ↔
      (∃ a, x.Returns a) ∧ ∃ as, xs.Returns as := by
  simp [returns_bind]

mutual

theorem exists_toTagValue_iff : ∀ d : Datum,
    (∃ v, (d.toTagValue table).Returns v) ↔ ∀ h ∈ d.mentioned, table.Refers h
  | plain v => by simp [toTagValue, mentioned]
  | constant c name v => by simp [toTagValue, mentioned]
  | hint h => by
    rw [toTagValue, mentioned]
    split
    · simp [returns_bind, ClassTable.Refers]
    · simp
  | list items => by
    simp [toTagValue, mentioned, returns_bind, exists_toTagValues_iff items]
  | tuple items => by
    simp [toTagValue, mentioned, returns_bind, exists_toTagValues_iff items]
  | made c .tuple fields => by
    simp [toTagValue, mentioned, returns_bind, exists_fieldValues_iff fields]
  | made c .marker fields => by
    simp [toTagValue, mentioned, returns_bind, exists_toEntries_iff fields]
  | made c .metadata fields => by
    simp [toTagValue, mentioned, returns_bind, exists_toEntries_iff fields]
  | made c .other fields => by simp [toTagValue, mentioned]

theorem exists_toTagValues_iff : ∀ ds : List Datum,
    (∃ vs, (toTagValues table ds).Returns vs) ↔ ∀ h ∈ mentionedIn ds, table.Refers h
  | [] => by simp [toTagValues, mentionedIn]
  | d :: ds => by
    rw [toTagValues, exists_bind_cons_iff, exists_toTagValue_iff d, exists_toTagValues_iff ds,
      mentionedIn, List.forall_mem_append]

theorem exists_fieldValues_iff : ∀ fs : List (String × Datum),
    (∃ vs, (fieldValues table fs).Returns vs) ↔ ∀ h ∈ mentionedInFields fs, table.Refers h
  | [] => by simp [fieldValues, mentionedInFields]
  | (name, d) :: fs => by
    rw [fieldValues, exists_bind_cons_iff, exists_toTagValue_iff d, exists_fieldValues_iff fs,
      mentionedInFields, List.forall_mem_append]

theorem exists_toEntries_iff : ∀ fs : List (String × Datum),
    (∃ es, (toEntries table fs).Returns es) ↔ ∀ h ∈ mentionedInFields fs, table.Refers h
  | [] => by simp [toEntries, mentionedInFields]
  | (name, d) :: fs => by
    have hfields := exists_toEntries_iff fs
    by_cases hnull : d = .plain .null
    · rw [hnull, toEntries, hfields]
      rfl
    · have hentry : toEntries table ((name, d) :: fs) = (do
          return (name, ← d.toTagValue table) :: (← toEntries table fs)) := by
        rw [toEntries]
        exact fun h ↦ hnull h
      rw [hentry, mentionedInFields, List.forall_mem_append, ← exists_toTagValue_iff d, ← hfields]
      simp [returns_bind]

end

end Conversion

/-! ## Coercion -/

theorem arrayItem_of_isScalar : ∀ {v : Value}, v.IsScalar = true → TagValue.arrayItem v = true
  | .declared _ v, h => arrayItem_of_isScalar (v := v) h
  | .bool _, _ => rfl
  | .int _, _ => rfl
  | .float _, _ => rfl
  | .str _, _ => rfl
  | .list _, _ => rfl
  | .map _, _ => rfl

theorem coerce_ofScalar (v : Value) : (ofScalar v).coerce =
    judged (plain v).leaves ((plain v).formWith table (shownText table)) := by
  unfold ofScalar judged leaves formWith
  rw [List.findSome?_singleton, offence?, Value.IsScalar]
  cases hv : v.plain with
  | str s =>
    rw [TagValue.coerce, TagValue.trimmed, hv]
    rfl
  | _ => rfl

theorem arrayItem_formWith {v : Value} (h : v.IsScalar = true) :
    TagValue.arrayItem ((plain v).formWith table (shownText table)) = true := by
  unfold formWith
  split
  · rfl
  · exact arrayItem_of_isScalar h

/-- A list goes wrong with its first item that does. -/
theorem coerceAll_cons {v : TagValue Hint} {vs : List (TagValue Hint)} {ls ls' : List Datum}
    {w : Value} {ws : List Value} (hv : v.coerce = judged ls w)
    (hitem : ls.findSome? offence? = none → TagValue.arrayItem w = true)
    (hvs : TagValue.coerceAll vs = judged ls' ws) :
    TagValue.coerceAll (v :: vs) = judged (ls ++ ls') (w :: ws) := by
  rw [TagValue.coerceAll, hv, judged, judged, List.findSome?_append]
  cases hls : ls.findSome? offence? with
  | some reason => rfl
  | none =>
    change (if TagValue.arrayItem w = true then _ else _) = _
    rw [if_pos (hitem hls), hvs, judged]
    cases ls'.findSome? offence? <;> rfl

theorem coerce_array {vs : List (TagValue Hint)} {ls : List Datum} {ws : List Value}
    (h : TagValue.coerceAll vs = judged ls ws) :
    (TagValue.array vs).coerce = judged ls (.list ws) := by
  rw [TagValue.coerce, h, judged, judged]
  cases ls.findSome? offence? <;> rfl

mutual

/-- What a datum is converted into is coerced into its form with the names that constants show, or
fails with its first offence; and such a form can be an item of a list. -/
theorem coerce_toTagValue : ∀ {d : Datum} {v : TagValue Hint}, (d.toTagValue table).Returns v →
    v.coerce = judged d.leaves (d.formWith table (shownText table)) ∧
      (d.leaves.findSome? offence? = none →
        TagValue.arrayItem (d.formWith table (shownText table)) = true)
  | plain w, v, e => by
    rw [← returns_pure.mp e]
    refine ⟨coerce_ofScalar w, fun hnone ↦ arrayItem_formWith ?_⟩
    by_contra hscalar
    simp [leaves, offence?, hscalar] at hnone
  | constant c name w, v, e => by
    rw [← returns_pure.mp e]
    exact ⟨rfl, fun _ ↦ rfl⟩
  | hint h, v, e => by
    refine ⟨?_, fun _ ↦ rfl⟩
    rw [toTagValue] at e
    unfold judged leaves
    rw [List.findSome?_singleton, offence?]
    split at e
    · next htype =>
      obtain ⟨t, ht, e⟩ := returns_bind.mp e
      rw [← returns_pure.mp e, if_pos htype, TagValue.coerce, formWith, ClassTable.referenceName,
        show (table.reference h).outcome = .ok t from ht]
      rfl
    · next htype =>
      rw [← returns_pure.mp e, if_neg htype]
      simp [TagValue.coerce, toValue, Value.shown, Datum.shown]
  | list items, v, e => by
    obtain ⟨vs, hvs, e⟩ := returns_bind.mp e
    rw [← returns_pure.mp e]
    exact ⟨coerce_array (coerceAll_toTagValues hvs), fun _ ↦ rfl⟩
  | tuple items, v, e => by
    obtain ⟨vs, hvs, e⟩ := returns_bind.mp e
    rw [← returns_pure.mp e]
    exact ⟨coerce_array (coerceAll_toTagValues hvs), fun _ ↦ rfl⟩
  | made c .tuple fields, v, e => by
    obtain ⟨vs, hvs, e⟩ := returns_bind.mp e
    rw [← returns_pure.mp e]
    exact ⟨coerce_array (coerceAll_fieldValues hvs), fun _ ↦ rfl⟩
  | made c .marker fields, v, e => by
    obtain ⟨es, -, e⟩ := returns_bind.mp e
    rw [← returns_pure.mp e]
    exact ⟨rfl, fun hnone ↦ nomatch hnone⟩
  | made c .metadata fields, v, e => by
    obtain ⟨es, -, e⟩ := returns_bind.mp e
    rw [← returns_pure.mp e]
    exact ⟨rfl, fun hnone ↦ nomatch hnone⟩
  | made c .other fields, v, e => by
    rw [← returns_pure.mp e]
    exact ⟨rfl, fun hnone ↦ nomatch hnone⟩

theorem coerceAll_toTagValues : ∀ {ds : List Datum} {vs : List (TagValue Hint)},
    (toTagValues table ds).Returns vs →
      TagValue.coerceAll vs = judged (leavesOf ds) (formsWith table (shownText table) ds)
  | [], vs, e => by
    rw [← returns_pure.mp e]
    rfl
  | d :: ds, vs, e => by
    obtain ⟨v, hv, e⟩ := returns_bind.mp e
    obtain ⟨rest, hrest, e⟩ := returns_bind.mp e
    rw [← returns_pure.mp e]
    exact coerceAll_cons (coerce_toTagValue hv).1 (coerce_toTagValue hv).2
      (coerceAll_toTagValues hrest)

theorem coerceAll_fieldValues : ∀ {fs : List (String × Datum)} {vs : List (TagValue Hint)},
    (fieldValues table fs).Returns vs →
      TagValue.coerceAll vs = judged (fieldLeaves fs) (fieldFormsWith table (shownText table) fs)
  | [], vs, e => by
    rw [← returns_pure.mp e]
    rfl
  | (name, d) :: fs, vs, e => by
    obtain ⟨v, hv, e⟩ := returns_bind.mp e
    obtain ⟨rest, hrest, e⟩ := returns_bind.mp e
    rw [← returns_pure.mp e]
    exact coerceAll_cons (coerce_toTagValue hv).1 (coerce_toTagValue hv).2
      (coerceAll_fieldValues hrest)

end

end Datum

/-! ## Collecting -/

namespace Extension

variable {σ : Type} {element : String}

end Extension

namespace Stamps

/-- A module that declares nothing. -/
def table : ClassTable where
  moduleName := "app"

/-- The class of integers. -/
def int : Hint := .named ⟨"builtins", "int"⟩

/-- The sequence type of some elements. -/
def listOf (element : Hint) : Hint := .applied .native ⟨"builtins", "list"⟩ [element]

/-- A list of a text, a pair of a truth value and a constant, and a type. -/
def stamp : Datum :=
  .list [.plain (.str "  first\n    class"),
    .tuple [.plain (.bool true), .constant ⟨"app", "Rate"⟩ "AIR" (.plain (.int 2))],
    .hint (listOf int)]

/-- The stamps among the tags of a letter. -/
def tags (v : TagValue Hint) : List (Tag Hint) := [.mk "app.Stamp" [("of", v)] true]

/-- A sequence type whose element carries a list as metadata. -/
def tagged : Hint := listOf (.annotated int [.list [.plain (.int 1)]])

end Stamps

end Schemata
