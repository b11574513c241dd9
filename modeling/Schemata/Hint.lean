import Schemata.Value

/-!
# Type hints

A `Hint` is what an author writes where a type is expected, after the constructors below have
normalised it: a class, a class applied to arguments, a union, a type parameter, a type with
metadata, or a name that is still to be looked up. Metadata and literal types hold data, and data
may be hints again, so hints and data are one mutual family.

Two facts are kept that a type theorist would forget: a union remembers whether it was written with
the bar, and an application remembers which notion of application it used, because hosts treat those
differently when they look for the class behind a hint.
-/

namespace Schemata

/-- The name of a class: the module it lives in and its path inside the module. -/
structure ClassName where
  /-- The module. -/
  moduleName : String
  /-- The path of enclosing classes and the class itself, joined with points. -/
  path : String
  deriving DecidableEq, Inhabited

namespace ClassName

/-- The module and the path. -/
def fullName (c : ClassName) : String := c.moduleName ++ "." ++ c.path

/-- The name of the class itself. -/
def simpleName (c : ClassName) : String :=
  String.ofList ((c.path.toList.reverse.takeWhile (· ≠ '.')).reverse)

/-- The module of the classes that need no import. -/
def coreModule : String := "builtins"

/-- The name as it is shown inside hints. -/
def inHint (c : ClassName) : String := if c.moduleName == coreModule then c.path else c.fullName

/-- The class of the absent value. -/
def null : ClassName := ⟨coreModule, "NoneType"⟩

/-- The class of texts. -/
def text : ClassName := ⟨coreModule, "str"⟩

/-- The class of whatever there is. -/
def any : ClassName := ⟨"typing", "Any"⟩

/-- The class that declares type parameters. -/
def generic : ClassName := ⟨"typing", "Generic"⟩

/-- The class of unions written with the bar. -/
def barUnion : ClassName := ⟨"types", "UnionType"⟩

/-- The class of fixed sequences. -/
def tuple : ClassName := ⟨coreModule, "tuple"⟩

/-- The class of classes. -/
def metaclass : ClassName := ⟨coreModule, "type"⟩

/-- The class that every class extends. -/
def root : ClassName := ⟨coreModule, "object"⟩

end ClassName

/-- How a class was applied to arguments. -/
inductive Application where
  /-- A library container was applied itself. -/
  | native
  /-- An alias of a library container was applied. -/
  | alias
  /-- A declared class with type parameters was applied. -/
  | generic
  deriving DecidableEq, Inhabited

/-- What an instance is good for as metadata. -/
inductive Role where
  /-- A well-known schema marker. -/
  | marker
  /-- An instance of a class declared as schema metadata. -/
  | metadata
  /-- A fixed sequence with named places. -/
  | tuple
  /-- Anything else. -/
  | other
  deriving DecidableEq, Inhabited

mutual

/-- A type hint. -/
inductive Hint where
  /-- The absent value, written where a type is expected. -/
  | null
  /-- The mark for any number of further elements. -/
  | ellipsis
  /-- A name that was written as a text and not looked up. -/
  | text (source : String)
  /-- A name to be looked up, inside another hint. -/
  | forward (source : String)
  /-- A class. -/
  | named (cls : ClassName)
  /-- An alias of a library container, without arguments. -/
  | bare (origin : ClassName)
  /-- A class applied to arguments. -/
  | applied (style : Application) (origin : ClassName) (arguments : List Hint)
  /-- A model class applied to arguments, which is a class of its own. -/
  | model (origin : ClassName) (arguments : List Hint)
  /-- A type parameter. -/
  | parameter (name : String)
  /-- A type parameter whose arguments extend a type. -/
  | bounded (name : String) (bound : Hint)
  /-- A union, and whether it was written with the bar. -/
  | union (bar : Bool) (members : List Hint)
  /-- A hint with metadata. -/
  | annotated (base : Hint) (metadata : List Datum)
  /-- One of several values. -/
  | literal (values : List Datum)
  /-- An attribute of the class itself. -/
  | classVar (inner : Hint)
  /-- An attribute of the class itself, of no stated type. -/
  | anyClassVar
  /-- A value that is only passed when an instance is made. -/
  | initVar (inner : Hint)
  /-- An object that is no type: how it is shown and the name of its type. -/
  | special (shown typeName : String)

/-- A datum as authors write it next to hints. -/
inductive Datum where
  /-- A value that is no list. -/
  | plain (v : Value)
  /-- A list. -/
  | list (items : List Datum)
  /-- A fixed sequence. -/
  | tuple (items : List Datum)
  /-- A constant of an enum. -/
  | constant (owner : ClassName) (name : String) (value : Datum)
  /-- A hint. -/
  | hint (h : Hint)
  /-- An instance of a class with its fields in order. -/
  | made (cls : ClassName) (role : Role) (fields : List (String × Datum))

end

instance : Inhabited Hint := ⟨.null⟩

instance : Inhabited Datum := ⟨.plain .null⟩

/-! ## How hints are shown -/

/-- A union as it is shown: a union of one type with the absent one has a word of its own. -/
def Hint.unionText (present all : List String) : String :=
  match present, all with
  | [p], [_, _] => "typing.Optional[" ++ p ++ "]"
  | _, _ => "typing.Union[" ++ Text.joinWith ", " all ++ "]"

/-- Arguments as they are shown; no arguments at all are shown as an empty sequence. -/
def Hint.argumentsText (arguments : List String) : String :=
  if arguments.isEmpty then "[()]" else "[" ++ Text.joinWith ", " arguments ++ "]"

mutual

/-- A hint as it is shown in messages. -/
def Hint.shown : Hint → String
  | .null => "None"
  | .ellipsis => "Ellipsis"
  | .text s => Text.quoted s
  | .named c => if c = ClassName.any then c.fullName else "<class '" ++ c.inHint ++ "'>"
  | .model c args =>
    "<class '" ++ c.fullName ++ "[" ++ Text.joinWith ", " (Hint.innerAll args) ++ "]'>"
  | h => h.inner

/-- A hint as it is shown inside another hint. -/
def Hint.inner : Hint → String
  | .null => "None"
  | .ellipsis => "..."
  | .text s => Text.quoted s
  | .forward s => "ForwardRef(" ++ Text.quoted s ++ ")"
  | .named c => c.inHint
  | .bare c => "typing." ++ c.simpleName.capitalize
  | .applied .alias c args =>
    "typing." ++ c.simpleName.capitalize ++ Hint.argumentsText (Hint.innerAll args)
  | .applied _ c args => c.inHint ++ Hint.argumentsText (Hint.innerAll args)
  | .model c args => c.fullName ++ "[" ++ Text.joinWith ", " (Hint.innerAll args) ++ "]"
  | .parameter n => "~" ++ n
  | .bounded n _ => "~" ++ n
  | .union true ms => Text.joinWith " | " (Hint.barAll ms)
  | .union false ms => Hint.unionText (Hint.presentAll ms) (Hint.innerAll ms)
  | .annotated base metadata =>
    "typing.Annotated[" ++ Text.joinWith ", " (base.inner :: Datum.shownAll metadata) ++ "]"
  | .literal values => "typing.Literal[" ++ Text.joinWith ", " (Datum.shownAll values) ++ "]"
  | .classVar h => "typing.ClassVar[" ++ h.inner ++ "]"
  | .anyClassVar => "typing.ClassVar"
  | .initVar (.named c) => "dataclasses.InitVar[" ++ c.simpleName ++ "]"
  | .initVar h => "dataclasses.InitVar[" ++ h.inner ++ "]"
  | .special s _ => s

/-- Several hints as they are shown inside another hint. -/
def Hint.innerAll : List Hint → List String
  | [] => []
  | h :: hs => h.inner :: Hint.innerAll hs

/-- The members of a union written with the bar as they are shown. -/
def Hint.barAll : List Hint → List String
  | [] => []
  | .named c :: hs => (if c = ClassName.null then "None" else c.inHint) :: Hint.barAll hs
  | h :: hs => h.inner :: Hint.barAll hs

/-- The members of a union other than the absent one, as they are shown. -/
def Hint.presentAll : List Hint → List String
  | [] => []
  | .named c :: hs =>
    if c = ClassName.null then Hint.presentAll hs else c.inHint :: Hint.presentAll hs
  | h :: hs => h.inner :: Hint.presentAll hs

/-- A datum as it is shown in messages. -/
def Datum.shown : Datum → String
  | .plain v => v.shown
  | .list items => "[" ++ Text.joinWith ", " (Datum.shownAll items) ++ "]"
  | .tuple items => Text.tupleText (Datum.shownAll items)
  | .constant c name value => "<" ++ c.simpleName ++ "." ++ name ++ ": " ++ value.shown ++ ">"
  | .hint h => h.shown
  | .made c _ fields => c.path ++ "(" ++ Text.joinWith ", " (Datum.shownFields fields) ++ ")"

/-- Several data as they are shown. -/
def Datum.shownAll : List Datum → List String
  | [] => []
  | d :: ds => d.shown :: Datum.shownAll ds

/-- Fields as they are shown. -/
def Datum.shownFields : List (String × Datum) → List String
  | [] => []
  | (name, d) :: fs => (name ++ "=" ++ d.shown) :: Datum.shownFields fs

end

/-! ## Equality

Unions are compared as sets and literal types as sets of values with their types; everything else is
compared part by part. -/

mutual

/-- Whether two hints are the same. -/
def Hint.same : Hint → Hint → Bool
  | .null, .null => true
  | .ellipsis, .ellipsis => true
  | .text s, .text t => s == t
  | .forward s, .forward t => s == t
  | .named c, .named d => c == d
  | .bare c, .bare d => c == d
  | .applied style c xs, .applied style' d ys =>
    style == style' && c == d && Hint.sameAll xs ys
  | .model c xs, .model d ys => c == d && Hint.sameAll xs ys
  | .parameter n, .parameter m => n == m
  | .bounded n _, .bounded m _ => n == m
  | .union _ xs, .union _ ys => Hint.within xs ys && ys.all fun y ↦ Hint.occurs xs y
  | .annotated b xs, .annotated c ys => b.same c && Datum.sameAll xs ys
  | .literal xs, .literal ys => Datum.within xs ys && ys.all fun y ↦ Datum.occurs xs y
  | .classVar h, .classVar k => h.same k
  | .anyClassVar, .anyClassVar => true
  | .initVar h, .initVar k => h.same k
  | .special s t, .special s' t' => s == s' && t == t'
  | _, _ => false

/-- Whether two lists hold the same hints in the same order. -/
def Hint.sameAll : List Hint → List Hint → Bool
  | [], [] => true
  | x :: xs, y :: ys => x.same y && Hint.sameAll xs ys
  | _, _ => false

/-- Whether a hint occurs in a list. -/
def Hint.occurs : List Hint → Hint → Bool
  | [], _ => false
  | x :: xs, y => x.same y || Hint.occurs xs y

/-- Whether every hint of the first list occurs in the second. -/
def Hint.within : List Hint → List Hint → Bool
  | [], _ => true
  | x :: xs, ys => ys.any (fun y ↦ x.same y) && Hint.within xs ys

/-- Whether two data are the same. -/
def Datum.same : Datum → Datum → Bool
  | .plain v, .plain w => v.typeName == w.typeName && v.shown == w.shown
  | .list xs, .list ys => Datum.sameAll xs ys
  | .tuple xs, .tuple ys => Datum.sameAll xs ys
  | .constant c n _, .constant d m _ => c == d && n == m
  | .hint h, .hint k => h.same k
  | .made c _ fs, .made d _ gs => c == d && Datum.sameFields fs gs
  | _, _ => false

/-- Whether two lists hold the same data in the same order. -/
def Datum.sameAll : List Datum → List Datum → Bool
  | [], [] => true
  | x :: xs, y :: ys => x.same y && Datum.sameAll xs ys
  | _, _ => false

/-- Whether a datum occurs in a list. -/
def Datum.occurs : List Datum → Datum → Bool
  | [], _ => false
  | x :: xs, y => x.same y || Datum.occurs xs y

/-- Whether every datum of the first list occurs in the second. -/
def Datum.within : List Datum → List Datum → Bool
  | [], _ => true
  | x :: xs, ys => ys.any (fun y ↦ x.same y) && Datum.within xs ys

/-- Whether two lists hold the same fields in the same order. -/
def Datum.sameFields : List (String × Datum) → List (String × Datum) → Bool
  | [], [] => true
  | (n, x) :: xs, (m, y) :: ys => n == m && x.same y && Datum.sameFields xs ys
  | _, _ => false

end

namespace Hint

instance : BEq Hint := ⟨same⟩

/-- A list without the hints that occurred before, in order. -/
def distinct (hints : List Hint) : List Hint :=
  hints.foldl (fun acc h ↦ if acc.contains h then acc else acc ++ [h]) []

/-! ## Building hints -/

/-- A hint as it is kept inside another one: the absent value stands for its class, and a text for a
name to be looked up. -/
def asArgument : Hint → Hint
  | null => named .null
  | text s => forward s
  | h => h

/-- The members that a hint contributes to a union. -/
def alternatives : Hint → List Hint
  | union _ members => members
  | h => [h.asArgument]

/-- The union of several hints: unions inside it are dissolved, repetitions dropped, and a union of
one hint is that hint. -/
def unionOf (hints : List Hint) : Hint :=
  match distinct (hints.flatMap alternatives) with
  | [h] => h
  | members => union false members

/-- A hint or the absent value. -/
def optional (h : Hint) : Hint := unionOf [h, null]

/-- Whether a hint is a class or behaves like one when the bar is put next to it. -/
def barred : Hint → Bool
  | null => true
  | named _ => true
  | model _ _ => true
  | applied .native _ _ => true
  | union bar _ => bar
  | _ => false

/-- Whether a hint takes the bar next to anything, a text included. -/
def barsAnything : Hint → Bool
  | bare _ => true
  | applied style _ _ => style ≠ .native
  | parameter _ => true
  | bounded _ _ => true
  | union bar _ => !bar
  | annotated _ _ => true
  | literal _ => true
  | forward _ => true
  | special _ typeName => typeName == "NewType"
  | _ => false

/-- Two hints with the bar between them. -/
def either (a b : Hint) : Hint :=
  if a.barred && b.barred then
    match distinct (a.alternatives ++ b.alternatives) with
    | [h] => h
    | members => union true members
  else unionOf [a, b]

/-- Several hints with bars between them. -/
def eitherAll : List Hint → Hint
  | [] => union true []
  | h :: hs => hs.foldl either h

/-- Whether the bar can stand between two hints. -/
def canBeBarred (a b : Hint) : Bool :=
  a.barsAnything || b.barsAnything || (a.barred && b.barred && !(a == null && b == null))

/-- Several hints with bars between them, if bars can stand there. -/
def eitherAll? : List Hint → Option Hint
  | [] => none
  | h :: hs => hs.foldlM (fun a b ↦ if a.canBeBarred b then some (a.either b) else none) h

/-- A hint with further metadata; metadata it already has comes first. -/
def annotate (h : Hint) (metadata : List Datum) : Hint :=
  match h with
  | annotated base inner => annotated base (inner ++ metadata)
  | h => annotated h.asArgument metadata

/-- A hint without its metadata. -/
def base : Hint → Hint
  | annotated h _ => h
  | h => h

/-- The metadata of a hint. -/
def metadata : Hint → List Datum
  | annotated _ metadata => metadata
  | _ => []

/-- The hint of an attribute of the class itself, without that mark. -/
def withoutClassVar : Hint → Hint
  | classVar h => h
  | _ => named .any

/-- Whether a hint marks an attribute of the class itself. -/
def isClassVar : Hint → Bool
  | classVar _ => true
  | anyClassVar => true
  | _ => false

/-- Whether a hint is a union. -/
def isUnion : Hint → Bool
  | union _ _ => true
  | _ => false

/-- Whether a hint is one of several values. -/
def isLiteral : Hint → Bool
  | literal _ => true
  | _ => false

/-! ## Type parameters -/

mutual

/-- The type parameters of a hint, in the order they occur and without repetitions. -/
def parameters : Hint → List Hint
  | parameter n => [parameter n]
  | bounded n b => [bounded n b]
  | applied _ _ args => parametersOf args
  | union _ members => parametersOf members
  | annotated h _ => h.parameters
  | classVar h => h.parameters
  | _ => []

/-- The type parameters of several hints. -/
def parametersOf : List Hint → List Hint
  | [] => []
  | h :: hs => distinct (h.parameters ++ parametersOf hs)

end

/-- What stands for type parameters, by name; the first entry of a name counts. -/
abbrev Bindings := List (String × Hint)

/-- What stands for a name. -/
def Bindings.get? (bindings : Bindings) (name : String) : Option Hint :=
  (bindings.find? (·.1 == name)).map (·.2)

/-- The name of a type parameter. -/
def parameterName? : Hint → Option String
  | parameter n => some n
  | bounded n _ => some n
  | _ => none

/-- Arguments bound to type parameters, as far as both reach. -/
def bindingsOf (parameters arguments : List Hint) : Bindings :=
  (parameters.zip arguments).filterMap fun (p, a) ↦ p.parameterName?.map fun n ↦ (n, a)

/-- Arguments as an application keeps them. -/
def keptArguments (style : Application) (arguments : List Hint) : List Hint :=
  match style with
  | .native => arguments
  | _ => arguments.map asArgument

mutual

/-- A hint with its type parameters replaced. -/
def substitute (bindings : Bindings) : Hint → Hint
  | parameter n => (bindings.get? n).getD (parameter n)
  | bounded n b => (bindings.get? n).getD (bounded n b)
  | applied style c args => applied style c (keptArguments style (substituteAll bindings args))
  | union false members => unionOf (substituteAll bindings members)
  | union true members => eitherAll (substituteAll bindings members)
  | annotated h metadata => (h.substitute bindings).annotate metadata
  | classVar h => classVar (h.substitute bindings)
  | h => h

/-- Several hints with their type parameters replaced. -/
def substituteAll (bindings : Bindings) : List Hint → List Hint
  | [] => []
  | h :: hs => h.substitute bindings :: substituteAll bindings hs

end

end Hint

end Schemata
