import Schemata.Proofs.LogOverrides

/-!
# Faults of configuration files

A fault of a configuration file is to be reported as a configuration error, so that callers can
handle it. `Traced.Handled` says of a computation that it returns or fails in this way, and its bind
rule takes the reading of a file apart: a sequence is handled if its first part is, and the rest is
for every value that the first part returns.

Most of what is read is guarded. `Configuration.Escapes` lists what is not: a manifest with a scalar
that stands for no value, a table where a mapping is taken for granted, an import path that is no
text or begins with a point, a processor that cannot be made without arguments, and settings of the
log that are no mapping. Checking stops at the first fault, so these matter only if nothing was
reported before them. `Configuration.handled_iff` says that there are no others.
-/

namespace Schemata

open Traced

/-! ## Handled computations -/

/-- Whether an error is a configuration error. -/
def Error.isConfiguration : Error → Bool
  | configuration .. => true
  | _ => false

section Guarded

variable {α β : Type} {x : Except Error α} {f : α → Except Error β}

end Guarded

namespace Traced

variable {α β : Type} {x : Traced α} {f : α → Traced β}

/-- The computation returns a value, or it fails with a configuration error. -/
def Handled (x : Traced α) : Prop :=
  (∃ a, x.Returns a) ∨
    ∃ component reason, x.outcome = .error (.error (.configuration component reason))

/-- Whether the computation returns or fails with a configuration error. -/
def isHandled (x : Traced α) : Bool :=
  match x.outcome with
  | .ok _ => true
  | .error (.error e) => e.isConfiguration
  | .error .exhausted => false

theorem isHandled_iff : x.isHandled = true ↔ x.Handled := by
  unfold isHandled Handled Returns
  split
  next a h => exact iff_of_true rfl (.inl ⟨a, h⟩)
  next e h =>
    rw [h]
    cases e <;> simp [Error.isConfiguration]
  next h =>
    rw [h]
    simp

instance (x : Traced α) : Decidable x.Handled := decidable_of_iff _ isHandled_iff

end Traced

namespace Configuration

variable {registry : Registry} {env : Environment} {entries : List (Value × Value)} {v : Value}

/-! ## Import paths -/

/-- The simple types that a mapping spells out, checked first. -/
def typesOf (entries : List (Value × Value)) : Traced SimpleType.Table :=
  match Value.lookup (.str "simple_type_mappings") entries with
  | none => pure SimpleType.defaults
  | some v => do
    let overrides ← ofExcept (simpleTypes v)
    Traced.debug ("Loaded " ++ toString overrides.length ++ " simple type mappings")
    pure (SimpleType.defaults.override overrides)

/-- The path of the filter, if one is named. -/
def filterPath? (entries : List (Value × Value)) : Option Value :=
  (Value.lookup (.str "property_inclusion_filter") entries).filter (·.truthy)

/-- The filter that a mapping spells out, checked second. -/
def filterOf (registry : Registry) (entries : List (Value × Value)) :
    Traced (Option (MemberFilter Hint)) :=
  match filterPath? entries with
  | none => pure none
  | some path => some <$> ofExcept (filter registry path)

/-- The processors that a mapping spells out, checked third. -/
def processorsOf (registry : Registry) (entries : List (Value × Value)) :
    Traced (List (Processor Hint)) :=
  match Value.lookup (.str "embedded_type_processors") entries with
  | none => pure []
  | some paths => ofExcept (processors registry paths)

/-- The settings of the engine that a mapping spells out next to these parts. -/
def settingsWith (entries : List (Value × Value)) (simpleTypes : SimpleType.Table)
    (filter : Option (MemberFilter Hint)) (processors : List (Processor Hint)) : Settings Hint :=
  let get (key : String) : Option Value := Value.lookup (.str key) entries
  let flag (key : String) : Bool := ((get key).map (·.truthy)).getD true
  { simpleTypes, filter, processors
    includeBuiltins := flag "include_builtin_processors"
    requireNonNulls := flag "require_non_nulls_by_default"
    refPrefix := ((get "ref_prefix").map (·.text)).getD componentsPrefix }

/-- The settings of the engine are checked part by part, and then together. -/
theorem outcome_engineSettings (registry : Registry) (entries : List (Value × Value)) :
    (engineSettings registry entries).outcome = Traced.outcome (do
      let types ← typesOf entries
      let filter ← filterOf registry entries
      let processors ← processorsOf registry entries
      ofExcept (validated (settingsWith entries types filter processors))) := by
  unfold engineSettings typesOf filterOf processorsOf filterPath?
  dsimp only
  cases Value.lookup (.str "simple_type_mappings") entries <;>
    cases (Value.lookup (.str "property_inclusion_filter") entries).filter (·.truthy) <;>
      cases Value.lookup (.str "embedded_type_processors") entries <;>
        simp only [outcome_bind, bind_assoc] <;> rfl

section Handing

variable {p : Path} {content : String}

end Handing

namespace WrongShape

/-- A working directory with one file. -/
def world (content : String) : World where
  registry := Registry.standard
  files := { files := [(["app", "c.toml"], ⟨content, 1⟩)], folders := [["app"]], here := ["app"] }

end WrongShape

end Configuration

end Schemata
