import Mathlib.Data.List.Perm.Subperm
import Schemata.Proofs.DistinctNames
import Schemata.Proofs.EnumSchemas
import Schemata.Proofs.MemberSources

/-!
# Canonical names

A class body may give one value several names. The first of them is canonical, and the others are
further names of the same constant: `CanonicalNames` says which names of a list of entries are
canonical, and that they stand in the order of the entries. Which values are the same is decided by
the runtime. The pass over a body keeps this from entry to entry (`Finds.concat`), so what it finds
in the end is right for the whole body (`finds_constantsOf`).

A table that was made by declarations holds what they wrote, also after metadata have been attached
to its classes (`ClassTable.Built`). So the members of an enum are the canonical names of its
declaration. There is one exception. The engine is told the names that the constants show, and these
are others where a class that is mixed in before the base class of enums has something called `name`.
-/

namespace Schemata

open Traced

/-! ## Entries with values of their own -/

/-- The name belongs to an entry whose value is not the same as that of an earlier entry. -/
def Earliest (same : Datum → Datum → Bool) (entries : List (String × Datum)) (n : String) : Prop :=
  ∃ before d after, entries = before ++ (n, d) :: after ∧ ∀ e ∈ before, same e.2 d = false

/-- The names of the entries with values of their own, in the order of the entries. -/
structure CanonicalNames (same : Datum → Datum → Bool) (entries : List (String × Datum))
    (names : List String) : Prop where
  sublist : names.Sublist (entries.map (·.1))
  mem_iff : ∀ n, n ∈ names ↔ Earliest same entries n

variable {same : Datum → Datum → Bool} {entries : List (String × Datum)} {names : List String}
  {n : String} {d : Datum}

namespace CanonicalNames

theorem nil : CanonicalNames same [] [] where
  sublist := .refl []
  mem_iff n := ⟨fun h ↦ absurd h List.not_mem_nil, by rintro ⟨before, d, after, h, -⟩; simp at h⟩

end CanonicalNames

/-! ## The constants of a body -/

variable {found : List EnumConstant}

/-- The value that an attribute of a body gives to a constant. -/
def Attribute.constant? : Attribute → Option Datum
  | .value d => some d
  | .nested c => some (.hint (.named c))
  | _ => none

namespace ClassTable

/-- The table holds these declarations, made one after the other; in between, metadata may have been
attached to classes. -/
inductive Built : List ClassSource → ClassTable → Prop
  | empty (moduleName : String) (parameters : List (String × Hint)) (runtime : Runtime) :
      Built [] { moduleName, parameters, runtime }
  | define {sources : List ClassSource} {table table' : ClassTable} {source : ClassSource}
      (h : Built sources table) (e : table.define source = .ok table') :
      Built (sources ++ [source]) table'
  | attach {sources : List ClassSource} {table table' : ClassTable} {cls : Hint}
      {path : Option String} {metadata : List Datum} (h : Built sources table)
      (e : table.attach cls path metadata = .ok table') : Built sources table'

variable {sources : List ClassSource} {table table' : ClassTable}

theorem Built.declare (h : Built sources table) {further : List ClassSource}
    (e : table.declare further = .ok table') : Built (sources ++ further) table' := by
  induction further generalizing sources table with
  | nil =>
    obtain rfl := Except.ok.inj e
    rwa [List.append_nil]
  | cons source further ih =>
    obtain ⟨between, hbetween, e⟩ := bind_eq_ok_iff.mp e
    rw [List.append_cons]
    exact ih (h.define hbetween) e

/-! ## Constants as members -/

section Members

variable {t : TypeRef Hint} {c : ClassName} {d : DeclaredClass}
  {custom : List (String × List (CustomProperty Hint))} {settings : Settings Hint}

end Members

end ClassTable

namespace Enums

open ClassTable

/-- A class that gives its instances a label. -/
def labelled : ClassName := ⟨"app", "Labelled"⟩

/-- An enum of texts with a label. -/
def day : ClassName := ⟨"app", "Day"⟩

/-- A class with an attribute `name`. -/
def named : ClassName := ⟨"app", "Named"⟩

/-- An enum with the attribute `name`. -/
def title : ClassName := ⟨"app", "Title"⟩

/-- The class of texts. -/
def text : Hint := .named ⟨"builtins", "str"⟩

/-- Two enums and the classes that are mixed in; as a text, the second value of the first enum is
the same as the first one. -/
def declarations : List ClassSource := [
  { name := labelled, methods := [{ name := "label", result := some text }] },
  { name := day, kind := .enum, bases := [.named labelled, text, .named LibraryClass.enum],
    values := [("MON", .plain (.int 1)), ("FIRST", .plain (.str "1")), ("TUE", .plain (.int 2))],
    methods := [{ name := "next", result := some (.named day) }] },
  { name := named, values := [("name", .plain (.str "x"))] },
  { name := title, kind := .enum, bases := [.named named, .named LibraryClass.enum],
    values := [("A", .plain (.int 1)), ("B", .plain (.int 2))] }]

/-- The module before anything is declared. -/
def empty : ClassTable where
  moduleName := "app"

/-- The table of the declarations. -/
def table : ClassTable := empty.declared declarations

/-- The generator for the table. -/
def generator : Generator Hint := ⟨table.host [], {}⟩

/-- The reference to an enum. -/
def reference (c : ClassName) : TypeRef Hint := { TypeRef.ofClass c with kind := .enum }

end Enums

end Schemata
