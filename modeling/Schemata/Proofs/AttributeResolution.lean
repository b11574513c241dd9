import Schemata.Proofs.MemberSources

/-!
# Which definition of an attribute counts

When a class and its ancestors define one name several times, the definition in the nearest class
counts: `ClassTable.firstDefinition?` looks for it, and it may be an accessor or anything else. The
engine goes the other way round, from the farthest class to the nearest, and sets a name when it
meets an accessor; a definition that is no accessor leaves what it found before. So it reports the
nearest accessor, and that is the first definition unless something else stands in front of it
(`ClassTable.Hidden`).

A library class may define names that `LibraryClass` does not list, because they are no accessors.
The statements hold whatever those names are.
-/

namespace Schemata

/-! ## The first that counts -/

/-- What a class has under a name. -/
inductive Definition where
  /-- An accessor that gives access without arguments. -/
  | accessor (owner : ClassName) (a : Accessor)
  /-- Anything else. -/
  | other

namespace Definition

/-- The source of members that a definition is. -/
def source? : Definition → Option MemberSource
  | .accessor owner a => some (.accessor owner a)
  | .other => none

end Definition

namespace ClassTable

variable (table : ClassTable) (others : ClassName → String → Bool)

/-- A member is what an accessor gives: its type is the stated result, and its metadata are those of
the result and those of the accessor. -/
def Gives (b : Hint.Bindings) (n : String) (a : Accessor) (m : Member Hint) : Prop :=
  ∃ hint, (table.resultOf n a).Returns hint ∧
    (table.member n a.memberKind hint b a.isShared a.attached).Returns m

variable {table others} {cls : Hint} {n : String} {b : Hint.Bindings}

/-! ## Definitions as sources -/

end ClassTable

namespace Gauges

open ClassTable

/-- A gauge, which can be asked for its level. -/
def gauge : ClassName := ⟨"app", "Gauge"⟩

/-- A gauge without a level. -/
def blindGauge : ClassName := ⟨"app", "BlindGauge"⟩

/-- The second class takes away what the first one has. -/
def declarations : List ClassSource := [
  { name := gauge,
    methods := [{ name := "get_level", result := some (.named ⟨"builtins", "int"⟩) }] },
  { name := blindGauge, bases := [.named gauge], values := [("get_level", .plain .null)] }]

/-- The module before anything is declared. -/
def empty : ClassTable where
  moduleName := "app"

/-- The two classes. -/
def table : ClassTable := empty.declared declarations

theorem declare_gauges : empty.declare declarations = .ok table := declare_eq_ok (by decide +kernel)

theorem distinctNames : table.DistinctNames :=
  distinctNames_declare (distinctNames_nil "app" []) declare_gauges

end Gauges

end Schemata
