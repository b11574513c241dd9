import Schemata.Configuration.Importable

/-!
# Modules that are always there

The modules of the library classes, and the modules in which the built-in processors and the types
of the engine itself are filed. A message about a missing attribute lists the first public names of
an object, so those are kept even where nothing is known about them.
-/

namespace Schemata

namespace Registry

/-- The modules of the library classes: whether they have modules inside, and their first public
names. -/
def libraryModules : List (String × Bool × List String) :=
  [
    ("builtins", false, ["ArithmeticError", "AssertionError", "AttributeError",
      "BaseException", "BaseExceptionGroup", "BlockingIOError", "BrokenPipeError",
      "BufferError", "BytesWarning", "ChildProcessError"]),
    ("typing", false, ["ABCMeta", "AbstractSet", "Annotated", "Any", "AnyStr",
      "AsyncContextManager", "AsyncGenerator", "AsyncIterable", "AsyncIterator",
      "Awaitable"]),
    ("datetime", false, ["MAXYEAR", "MINYEAR", "UTC", "date", "datetime", "datetime_CAPI",
      "sys", "time", "timedelta", "timezone"]),
    ("decimal", false, ["BasicContext", "Clamped", "Context", "ConversionSyntax", "Decimal",
      "DecimalException", "DecimalTuple", "DefaultContext", "DivisionByZero",
      "DivisionImpossible"]),
    ("uuid", false, ["Enum", "NAMESPACE_DNS", "NAMESPACE_OID", "NAMESPACE_URL",
      "NAMESPACE_X500", "RESERVED_FUTURE", "RESERVED_MICROSOFT", "RESERVED_NCS", "RFC_4122",
      "SafeUUID"]),
    ("collections", true, ["ChainMap", "Counter", "OrderedDict", "UserDict", "UserList",
      "UserString", "abc", "defaultdict", "deque", "namedtuple"]),
    ("collections.abc", false, ["AsyncGenerator", "AsyncIterable", "AsyncIterator",
      "Awaitable", "ByteString", "Callable", "Collection", "Container", "Coroutine",
      "Generator"]),
    ("enum", false, ["CONFORM", "CONTINUOUS", "DynamicClassAttribute", "EJECT", "Enum",
      "EnumCheck", "EnumMeta", "EnumType", "Flag", "FlagBoundary"]),
    ("ipaddress", false, ["AddressValueError", "IPV4LENGTH", "IPV6LENGTH", "IPv4Address",
      "IPv4Interface", "IPv4Network", "IPv6Address", "IPv6Interface", "IPv6Network",
      "NetmaskValueError"]),
    ("pathlib", false, ["EBADF", "ELOOP", "ENOENT", "ENOTDIR", "Path", "PosixPath",
      "PurePath", "PurePosixPath", "PureWindowsPath", "S_ISBLK"])
  ]

/-- The first public names of some library classes. -/
def libraryNames : List (ClassName × List String) :=
  [
    (⟨"builtins", "int"⟩, ["as_integer_ratio", "bit_count", "bit_length", "conjugate",
      "denominator", "from_bytes", "imag", "numerator", "real", "to_bytes"]),
    (⟨"builtins", "str"⟩, ["capitalize", "casefold", "center", "count", "encode",
      "endswith", "expandtabs", "find", "format", "format_map"]),
    (⟨"decimal", "Decimal"⟩, ["adjusted", "as_integer_ratio", "as_tuple", "canonical",
      "compare", "compare_signal", "compare_total", "compare_total_mag", "conjugate",
      "copy_abs"]),
    (⟨"collections", "OrderedDict"⟩, ["clear", "copy", "fromkeys", "get", "items", "keys",
      "move_to_end", "pop", "popitem", "setdefault"]),
    (⟨"datetime", "date"⟩, ["ctime", "day", "fromisocalendar", "fromisoformat",
      "fromordinal", "fromtimestamp", "isocalendar", "isoformat", "isoweekday", "max"]),
    (⟨"uuid", "UUID"⟩, ["bytes", "bytes_le", "clock_seq", "clock_seq_hi_variant",
      "clock_seq_low", "fields", "hex", "int", "is_safe", "node"])
  ]

/-- The library classes whose instances cannot be made without arguments. -/
def demandingClasses : List ClassName :=
  [⟨"typing", "Any"⟩, ⟨"typing", "Generic"⟩, ⟨"datetime", "date"⟩, ⟨"datetime", "datetime"⟩,
    ⟨"uuid", "UUID"⟩, ⟨"ipaddress", "IPv4Address"⟩, ⟨"ipaddress", "IPv6Address"⟩,
    ⟨"enum", "Enum"⟩, ⟨"enum", "IntEnum"⟩, ⟨"enum", "StrEnum"⟩]

/-- A library class as an object. -/
def libraryClass (l : LibraryClass) : Importable :=
  let listed := ((libraryNames.find? (·.1 == l.name)).map (·.2)).getD []
  .ofClass l.name (if demandingClasses.contains l.name then .demanding else .callable) listed

/-- A module of library classes. -/
def libraryModule (row : String × Bool × List String) : Module :=
  let (name, isPackage, listed) := row
  let classes := LibraryClass.all.filter fun l ↦
    l.name.moduleName == name && l.name ≠ ClassName.null
  let parts := classes.map fun l ↦ (l.name.path, libraryClass l)
  { name, isPackage, content := .mk default none .inert parts listed }

/-- The module of the engine's processors. -/
def processorModule : Module :=
  let name := "typeschema.kernel.schema"
  let processor (simpleName : String) (rule : ProcessorRule Hint) : String × Importable :=
    (simpleName, .ofClass ⟨name ++ ".processors", simpleName⟩ (.processorClass rule) ["process"])
  { name, isPackage := true
    content := .mk default none .inert
      [ processor "OptionalUnwrapProcessor" (.unwrap ["typing.Optional"]),
        processor "UnionProcessor" (.anyOfArguments ["typing.Union"]) ]
      ["BINARY_ELEMENT_NAMES", "BUILTIN_PROCESSORS", "COMPOSITION_ANNOTATIONS", "ComponentsBuilder",
        "DEFAULT_SIMPLE_TYPES", "EmbeddedTypeProcessor", "EmbeddedTypeProcessorContext",
        "JSON_SCHEMA_DRAFT_07", "OUTPUT_FORMATS"] }

/-- The module of the engine's own types. -/
def domainModule : Module :=
  { name := "typeschema.kernel.domain", isPackage := true
    content := .mk default none .inert
      [("TypeDescriptor", .ofClass ⟨"typeschema.kernel.domain.types", "TypeDescriptor"⟩ .demanding
        ["full_name", "generics", "is_primitive", "kind", "schema_name", "simple_name", "source"])]
      ["Annotation", "AnnotationValue", "AnnotationValueKind", "CompositionKind", "CompositionSpec",
        "CustomProperty", "Member", "MemberKind", "PropertyDescriptor", "SchemaNode"] }

/-- The module of the engine's errors. -/
def errorModule : Module :=
  { name := "typeschema.kernel.exceptions"
    content := .mk default none .inert
      [("TypeSchemaError", .ofClass ⟨"typeschema.kernel.exceptions", "TypeSchemaError"⟩ .callable
        ["add_note", "args", "with_traceback"])]
      ["ConfigurationError", "ResolveError", "SchemaGenerationError",
        "UnsupportedAnnotationValueError", "ValidationError", "annotations"] }

/-- The modules that are always there. -/
def standard : Registry :=
  libraryModules.map libraryModule ++
    [ { name := "typeschema", isPackage := true, content := default },
      { name := "typeschema.kernel", isPackage := true, content := default },
      processorModule, domainModule, errorModule ]

end Registry

end Schemata
