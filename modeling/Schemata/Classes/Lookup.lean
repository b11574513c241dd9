import Schemata.Classes.Table
import Schemata.Trace

/-!
# Names looked up late

A hint may be written as a text: the name of a class, or an expression over such names, that is
looked up only when somebody asks for the hint. `ClassTable.lookup` reads the text and finds its
names, first among the classes, the type parameters and the imports of the module, then among the
attributes of the class it stands in, last among the names that need no import.

The hints of a class are looked up together: if one name of the class or of an ancestor cannot be
found, the hints written in the class itself are taken as they are, and a name in them stays a text.
-/

namespace Schemata

/-! ## Texts that are no expressions -/

namespace Hint

variable (read? : String → Option NameExpr)

mutual

/-- Whether a name to be looked up inside a hint is no expression. -/
def misspelled : Hint → Bool
  | forward s => (read? s).isNone
  | applied _ _ args => misspelledAny args
  | model _ args => misspelledAny args
  | union _ members => misspelledAny members
  | annotated h _ => h.misspelled
  | classVar h => h.misspelled
  | _ => false

/-- Whether one of several hints is misspelled. -/
def misspelledAny : List Hint → Bool
  | [] => false
  | h :: hs => h.misspelled || misspelledAny hs

end

end Hint

/-! ## Looking names up -/

namespace ClassTable

variable (table : ClassTable)

/-- The hint that an attribute stands for. -/
def attributeHint : Attribute → Hint
  | .nested c => .named c
  | .value (.hint h) => h
  | .value (.plain (.str s)) => .forward s
  | .value d => .special d.shown "object"
  | .accessor _ => .special "<function>" "function"
  | .other => .special "<object>" "object"

/-- The hint that a name stands for inside a class, or inside the module if there is none. -/
def nameHint (scope : Option ClassName) (name : String) : Except LookupFailure Hint :=
  let inModule : ClassName := ⟨table.moduleName, name⟩
  if (table.find? inModule).isSome then .ok (.named inModule)
  else
    match (Keyed.get? table.parameters name).or (table.runtime.imported? name) with
    | some h => .ok h
    | none =>
      let inScope := do
        let c ← scope
        let d ← table.find? c
        Keyed.get? d.body name
      match inScope with
      | some a => .ok (attributeHint a)
      | none =>
        match table.runtime.core? name with
        | some h => .ok h
        | none => .error (.undefined name)

/-- The hint that an attribute of a hint stands for. -/
def partHint (owner : Hint) (name : String) : Except LookupFailure Hint :=
  match owner.classBehind with
  | some cls =>
    match table.attribute? cls name with
    | some a => .ok (attributeHint a)
    | none =>
      if table.isEnum cls then .error (.unfit name)
      else .error (.missing (match cls with | .named c => c.simpleName | h => h.inner) name)
  | none => .error (.unfit "no class")

/-- What an enum has under a key: a constant under its name. -/
def entryHint (c : ClassName) : List Hint → Except LookupFailure Hint
  | [.text s] =>
    if (table.find? c).any fun d ↦ d.constants.any (·.name == s) then table.partHint (.named c) s
    else .error (.escaped .noEntry)
  | _ => .error (.escaped .noEntry)

/-- The enum that a hint is. -/
def enum? : Hint → Option ClassName
  | .named c => if table.isEnum (.named c) then some c else none
  | _ => none

/-- A hint applied to arguments, or why it cannot be. -/
def applied (h : Hint) (args : List Hint) : Except LookupFailure Hint :=
  match table.enum? h, table.apply h args with
  | some c, _ => table.entryHint c args
  | none, .ok r => .ok r
  | none, .error _ => .error (.unfit (
      match table.arity? h, h with
      | _, .parameter _ | _, .bounded _ _ => "'TypeVar' object is not subscriptable"
      | some 0, .named c => "type '" ++ c.simpleName ++ "' is not subscriptable"
      | none, .named c => "type '" ++ c.simpleName ++ "' is not subscriptable"
      | some 0, h => h.shown ++ " is not a generic class"
      | expected, h =>
        let expected := expected.getD 0
        let few := if args.length < expected then "few" else "many"
        "Too " ++ few ++ " arguments for " ++ h.shown ++ "; actual " ++ toString args.length ++
          ", expected " ++ toString expected))

/-- The name of the type of a hint, as an operator reports it. -/
def operandName (h : Hint) : String :=
  match table.typeNameOf h with
  | "GenericAlias" => "types.GenericAlias"
  | "UnionType" => "types.UnionType"
  | name => name

/-- Two hints with the bar between them, or why it cannot stand there. -/
def alternatives (a b : Hint) : Except LookupFailure Hint :=
  if a.canBeBarred b then .ok (a.either b)
  else .error (.unfit ("unsupported operand type(s) for |: '" ++ table.operandName a ++ "' and '" ++
    table.operandName b ++ "'"))

/-- What an operator gives; the runtime decides where the table refuses to apply it. -/
def operated (operator : String) (operands : List Hint) :
    Except LookupFailure Hint → Except LookupFailure Hint
  | .ok h => .ok h
  | .error e => table.runtime.refused operator operands e

/-- An attribute of a hint, asked for in an expression. -/
def partOf (owner : Hint) (name : String) : Except LookupFailure Hint :=
  table.operated ("." ++ name) [owner] (table.partHint owner name)

/-- A hint applied to arguments in an expression. -/
def appliedTo (h : Hint) (args : List Hint) : Except LookupFailure Hint :=
  table.operated "[]" (h :: args) (table.applied h args)

/-- Two hints with the bar between them in an expression. -/
def barred (a b : Hint) : Except LookupFailure Hint :=
  table.operated "|" [a, b] (table.alternatives a b)

mutual

/-- The hint that an expression stands for. -/
def evaluate (scope : Option ClassName) : NameExpr → Except LookupFailure Hint
  | .name s => table.nameHint scope s
  | .part e s => do table.partOf (← evaluate scope e) s
  | .applied e [.several items] => do
    table.appliedTo (← evaluate scope e) (← evaluateAll scope items)
  | .applied e args => do table.appliedTo (← evaluate scope e) (← evaluateAll scope args)
  | .either a b => do table.barred (← evaluate scope a) (← evaluate scope b)
  | .null => .ok .null
  | .ellipsis => .ok .ellipsis
  | .text s => .ok (.text s)
  | .several _ => .error (.unfit "Forward references must evaluate to types.")
  | .other source parts => do table.runtime.other source (← evaluateAll scope parts)

/-- The hints that several expressions stand for. -/
def evaluateAll (scope : Option ClassName) : List NameExpr → Except LookupFailure (List Hint)
  | [] => .ok []
  | e :: es => return (← evaluate scope e) :: (← evaluateAll scope es)

end

end ClassTable

namespace Hint

variable {ε : Type} (f : String → Except ε Hint)

mutual

/-- A hint with every name in it replaced by what it stands for. -/
def replaceNames : Hint → Except ε Hint
  | text s => f s
  | forward s => f s
  | applied style c args => return applied style c (keptArguments style (← replaceNamesAll args))
  | union false members => return unionOf (← replaceNamesAll members)
  | union true members => return eitherAll (← replaceNamesAll members)
  | annotated h metadata => return (← h.replaceNames).annotate metadata
  | classVar h => return classVar (← h.replaceNames)
  | h => return h

/-- Several hints with every name in them replaced by what it stands for. -/
def replaceNamesAll : List Hint → Except ε (List Hint)
  | [] => return []
  | h :: hs => return (← h.replaceNames) :: (← replaceNamesAll hs)

end

end Hint

namespace ClassTable

variable (table : ClassTable)

/-- The hint that a text stands for. Texts inside the text are looked up in turn, as far as `depth`
reaches. -/
def lookup (scope : Option ClassName) : Nat → String → Except LookupFailure Hint
  | 0, s => .ok (.forward s)
  | depth + 1, s =>
    match table.runtime.read? s with
    | none => .error (.escaped .malformedName)
    | some e => do
      match ← table.evaluate scope e with
      | .null => return .named .null
      | h => h.replaceNames (lookup scope depth)

/-- How deep texts are looked up inside texts. -/
def lookupDepth : Nat := 16

/-- A hint with its names looked up; the absent value stands for its class. -/
def resolve (scope : Option ClassName) (h : Hint) : Except LookupFailure Hint :=
  match h with
  | .null => .ok (.named .null)
  | h => h.replaceNames (table.lookup scope lookupDepth)

/-- The hints written in one class, their names looked up. -/
def resolvedHints (d : DeclaredClass) : Except LookupFailure (List (String × Hint)) :=
  d.hints.mapM fun (name, h) ↦ return (name, ← table.resolve (some d.name) h)

/-- The hints of a class and its ancestors by name, those of nearer classes on top. -/
def inheritedHints (cls : Hint) : Except LookupFailure (List (String × Hint)) := do
  let layers ← (table.declaredAncestry cls).reverse.mapM table.resolvedHints
  return layers.foldl Keyed.putAll []

/-- The hints written in a class as they were written. -/
def writtenHints : Hint → List (String × Hint)
  | .named c => ((table.find? c).map (·.hints)).getD []
  | _ => []

/-- What a lookup gave, or else what was written. -/
def orWritten {α : Type} (shown : String) (found : Except LookupFailure α) (written : α) :
    Traced α :=
  match found with
  | .ok a => return a
  | .error (.escaped e) => Traced.fail e
  | .error e => do
    Traced.debug ("Could not resolve type hints of " ++ shown ++ ": " ++ e.message)
    return written

/-- The hints of a class by name. -/
def hintsOf (cls : Hint) : Traced (List (String × Hint)) :=
  orWritten cls.shown (table.inheritedHints cls) (table.writtenHints cls)

/-- The hint of what an accessor gives; none if it gives nothing or does not say. -/
def resultOf (shown : String) (a : Accessor) : Traced (Option Hint) :=
  match a.result with
  | none => return none
  | some h => do
    match ← orWritten shown (table.resolve none h) h with
    | .null => return none
    | .named c => return if c = ClassName.null then none else some (.named c)
    | h => return some h

end ClassTable

end Schemata
