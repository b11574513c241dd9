import Schemata.Hint

/-!
# Library classes

The classes that authors use without declaring them: for each its ancestry, the structural shape its
hints have, the abstract containers it stands for without extending them, and the accessors it
brings. None of those accessors states a type.
-/

namespace Schemata

/-- The structural shape of the hints that a class makes. -/
inductive ClassShape where
  | plain | primitive | binary | array | dictionary | enumeration
  deriving DecidableEq, Inhabited

/-- How an attribute of a class gives access to a value. -/
inductive AccessorKind where
  /-- It is read like a field. -/
  | property
  /-- It is called on the class itself. -/
  | shared
  /-- It is called on an instance. -/
  | method
  deriving DecidableEq, Inhabited

/-- A class that needs no declaration. -/
structure LibraryClass where
  /-- The name. -/
  name : ClassName
  /-- The classes it extends, nearest first, without the root class. -/
  ancestors : List ClassName := []
  /-- The shape of its hints. -/
  shape : ClassShape := .plain
  /-- The abstract containers it stands for without extending them. -/
  standsFor : List ClassName := []
  /-- Whether its instances can be keys, if the class decides that. -/
  hashable : Option Bool := none
  /-- Whether it can be applied to arguments. -/
  isContainer : Bool := false
  /-- The accessors it declares, in order. -/
  accessors : List (AccessorKind × List String) := []
  deriving Inhabited

/-! ## Abstract containers -/

namespace Abstract

/-- What has a size. -/
def sized : ClassName := ⟨"collections.abc", "Sized"⟩

/-- What can be walked through. -/
def iterable : ClassName := ⟨"collections.abc", "Iterable"⟩

/-- What can be asked for its elements. -/
def container : ClassName := ⟨"collections.abc", "Container"⟩

/-- What can be walked through backwards. -/
def reversible : ClassName := ⟨"collections.abc", "Reversible"⟩

/-- A walk through elements. -/
def iterator : ClassName := ⟨"collections.abc", "Iterator"⟩

/-- What has a size and elements. -/
def collection : ClassName := ⟨"collections.abc", "Collection"⟩

/-- A collection with positions. -/
def sequence : ClassName := ⟨"collections.abc", "Sequence"⟩

/-- A sequence that can change. -/
def mutableSequence : ClassName := ⟨"collections.abc", "MutableSequence"⟩

/-- A collection without repetitions. -/
def set : ClassName := ⟨"collections.abc", "Set"⟩

/-- A set that can change. -/
def mutableSet : ClassName := ⟨"collections.abc", "MutableSet"⟩

/-- A collection of keys with values. -/
def mapping : ClassName := ⟨"collections.abc", "Mapping"⟩

/-- A mapping that can change. -/
def mutableMapping : ClassName := ⟨"collections.abc", "MutableMapping"⟩

/-- What can be a key. -/
def hashable : ClassName := ⟨"collections.abc", "Hashable"⟩

end Abstract

namespace LibraryClass

/-- The class that model classes extend. -/
def baseModel : ClassName := ⟨"pydantic.main", "BaseModel"⟩

/-- The class that enums extend. -/
def enum : ClassName := ⟨"enum", "Enum"⟩

/-- All library classes. -/
def all : List LibraryClass :=
  [
    { name := ⟨"builtins", "int"⟩, shape := .primitive, hashable := some true },
    { name := ⟨"builtins", "object"⟩, hashable := some true },
    { name := ⟨"builtins", "str"⟩, standsFor := [Abstract.iterable, Abstract.collection,
      Abstract.sequence], hashable := some true, accessors := [(.shared, ["maketrans"])] },
    { name := ⟨"builtins", "bool"⟩, ancestors := [⟨"builtins", "int"⟩], shape := .primitive },
    { name := ⟨"builtins", "float"⟩, shape := .primitive, hashable := some true },
    { name := ⟨"builtins", "complex"⟩, hashable := some true },
    { name := ⟨"builtins", "bytes"⟩, shape := .binary, standsFor := [Abstract.iterable,
      Abstract.collection, Abstract.sequence], hashable := some true,
      accessors := [(.shared, ["maketrans"])] },
    { name := ⟨"builtins", "bytearray"⟩, shape := .binary, standsFor := [Abstract.iterable,
      Abstract.collection, Abstract.sequence, Abstract.mutableSequence], hashable := some false,
      accessors := [(.shared, ["maketrans"])] },
    { name := ⟨"builtins", "list"⟩, shape := .array, standsFor := [Abstract.iterable,
      Abstract.collection, Abstract.sequence, Abstract.mutableSequence], hashable := some false,
      isContainer := true },
    { name := ⟨"builtins", "dict"⟩, shape := .dictionary, standsFor := [Abstract.iterable,
      Abstract.collection, Abstract.mapping, Abstract.mutableMapping], hashable := some false,
      isContainer := true },
    { name := ⟨"builtins", "tuple"⟩, shape := .array, standsFor := [Abstract.iterable,
      Abstract.collection, Abstract.sequence], hashable := some true, isContainer := true },
    { name := ⟨"builtins", "set"⟩, shape := .array, standsFor := [Abstract.iterable,
      Abstract.collection, Abstract.set, Abstract.mutableSet], hashable := some false,
      isContainer := true },
    { name := ⟨"builtins", "frozenset"⟩, shape := .array, standsFor := [Abstract.iterable,
      Abstract.collection, Abstract.set], hashable := some true, isContainer := true },
    { name := ⟨"typing", "Any"⟩ },
    { name := ⟨"typing", "Generic"⟩ },
    { name := ⟨"builtins", "NoneType"⟩ },
    { name := ⟨"types", "UnionType"⟩, hashable := some true },
    { name := .metaclass },
    { name := ⟨"datetime", "datetime"⟩, ancestors := [⟨"datetime", "date"⟩],
      hashable := some true },
    { name := ⟨"datetime", "date"⟩, hashable := some true },
    { name := ⟨"datetime", "time"⟩, hashable := some true },
    { name := ⟨"datetime", "timedelta"⟩, hashable := some true },
    { name := ⟨"decimal", "Decimal"⟩, hashable := some true },
    { name := ⟨"uuid", "UUID"⟩, hashable := some true, accessors := [(.property, ["bytes",
      "bytes_le", "fields", "time_low", "time_mid", "time_hi_version", "clock_seq_hi_variant",
      "clock_seq_low", "time", "clock_seq", "node", "hex", "urn", "variant", "version"])] },
    { name := ⟨"pathlib", "Path"⟩, ancestors := [⟨"pathlib", "PurePath"⟩],
      accessors := [(.shared, ["cwd", "home"]), (.method, ["iterdir", "_scandir", "absolute",
      "resolve", "stat", "owner", "group", "open", "read_bytes", "read_text", "readlink",
      "touch", "mkdir", "unlink", "rmdir", "lstat", "exists", "is_dir", "is_file", "is_mount",
      "is_symlink", "is_block_device", "is_char_device", "is_fifo", "is_socket", "expanduser"])]
      },
    { name := ⟨"pathlib", "PurePath"⟩, hashable := some true,
      accessors := [(.shared, ["_parse_args", "_from_parts", "_from_parsed_parts",
      "_format_parsed_parts"]), (.method, ["as_posix", "as_uri"]), (.property, ["_cparts",
      "drive", "root", "anchor", "name", "suffix", "suffixes", "stem"]),
      (.method, ["relative_to", "is_relative_to"]), (.property, ["parts"]),
      (.method, ["joinpath"]), (.property, ["parent", "parents"]), (.method, ["is_absolute",
      "is_reserved"])] },
    { name := ⟨"ipaddress", "IPv4Address"⟩, ancestors := [⟨"ipaddress", "_BaseV4"⟩, ⟨"ipaddress",
      "_BaseAddress"⟩, ⟨"ipaddress", "_IPAddressBase"⟩], accessors := [(.property, ["packed",
      "is_reserved", "is_private", "is_global", "is_multicast", "is_unspecified", "is_loopback",
      "is_link_local"])] },
    { name := ⟨"ipaddress", "_BaseV4"⟩,
      accessors := [(.method, ["_explode_shorthand_ip_string"]), (.shared, ["_make_netmask",
      "_ip_int_from_string", "_parse_octet", "_string_from_ip_int"]),
      (.method, ["_reverse_pointer"]), (.property, ["max_prefixlen", "version"])] },
    { name := ⟨"ipaddress", "_BaseAddress"⟩, ancestors := [⟨"ipaddress", "_IPAddressBase"⟩],
      hashable := some true, accessors := [(.method, ["_get_address_key"])] },
    { name := ⟨"ipaddress", "_IPAddressBase"⟩, accessors := [(.property, ["exploded",
      "compressed", "reverse_pointer", "version"]), (.shared, ["_ip_int_from_prefix",
      "_prefix_from_ip_int", "_report_invalid_netmask", "_prefix_from_prefix_string",
      "_prefix_from_ip_string", "_split_addr_prefix"])] },
    { name := ⟨"ipaddress", "IPv6Address"⟩, ancestors := [⟨"ipaddress", "_BaseV6"⟩, ⟨"ipaddress",
      "_BaseAddress"⟩, ⟨"ipaddress", "_IPAddressBase"⟩], hashable := some true,
      accessors := [(.property, ["scope_id", "packed", "is_multicast", "is_reserved",
      "is_link_local", "is_site_local", "is_private", "is_global", "is_unspecified",
      "is_loopback", "ipv4_mapped", "teredo", "sixtofour"])] },
    { name := ⟨"ipaddress", "_BaseV6"⟩, accessors := [(.shared, ["_make_netmask",
      "_ip_int_from_string", "_parse_hextet", "_compress_hextets", "_string_from_ip_int"]),
      (.method, ["_explode_shorthand_ip_string", "_reverse_pointer"]),
      (.shared, ["_split_scope_id"]), (.property, ["max_prefixlen", "version"])] },
    { name := ⟨"collections", "deque"⟩, shape := .array, standsFor := [Abstract.iterable,
      Abstract.collection, Abstract.sequence, Abstract.mutableSequence], hashable := some false,
      isContainer := true },
    { name := ⟨"collections", "OrderedDict"⟩, ancestors := [⟨"builtins", "dict"⟩],
      shape := .dictionary, hashable := some false, isContainer := true },
    { name := ⟨"collections", "defaultdict"⟩, ancestors := [⟨"builtins", "dict"⟩],
      shape := .dictionary, isContainer := true },
    { name := Abstract.collection, ancestors := [Abstract.sized, Abstract.iterable,
      Abstract.container], shape := .array, isContainer := true },
    { name := Abstract.sized },
    { name := Abstract.iterable, shape := .array, isContainer := true },
    { name := Abstract.container, isContainer := true },
    { name := Abstract.iterator, ancestors := [Abstract.iterable], shape := .array,
      isContainer := true },
    { name := Abstract.mutableSequence, ancestors := [Abstract.sequence, Abstract.reversible,
      Abstract.collection, Abstract.sized, Abstract.iterable, Abstract.container],
      shape := .array, isContainer := true, accessors := [(.method, ["clear", "reverse", "pop"])]
      },
    { name := Abstract.sequence, ancestors := [Abstract.reversible, Abstract.collection,
      Abstract.sized, Abstract.iterable, Abstract.container], shape := .array,
      isContainer := true },
    { name := Abstract.reversible, ancestors := [Abstract.iterable], isContainer := true },
    { name := Abstract.mutableSet, ancestors := [Abstract.set, Abstract.collection,
      Abstract.sized, Abstract.iterable, Abstract.container], shape := .array,
      isContainer := true, accessors := [(.method, ["pop", "clear"])] },
    { name := Abstract.set, ancestors := [Abstract.collection, Abstract.sized, Abstract.iterable,
      Abstract.container], shape := .array, hashable := some false, isContainer := true,
      accessors := [(.shared, ["_from_iterable"]), (.method, ["_hash"])] },
    { name := Abstract.mapping, ancestors := [Abstract.collection, Abstract.sized,
      Abstract.iterable, Abstract.container], shape := .dictionary, hashable := some false,
      isContainer := true, accessors := [(.method, ["keys", "items", "values"])] },
    { name := Abstract.mutableMapping, ancestors := [Abstract.mapping, Abstract.collection,
      Abstract.sized, Abstract.iterable, Abstract.container], shape := .dictionary,
      isContainer := true, accessors := [(.method, ["popitem", "clear", "update"])] },
    { name := ⟨"collections.abc", "Hashable"⟩, hashable := some true },
    { name := ⟨"enum", "Enum"⟩, shape := .enumeration, hashable := some true,
      accessors := [(.shared, ["_missing_"])] },
    { name := ⟨"enum", "IntEnum"⟩, ancestors := [⟨"builtins", "int"⟩, ⟨"enum", "ReprEnum"⟩,
      ⟨"enum", "Enum"⟩], shape := .enumeration },
    { name := ⟨"enum", "ReprEnum"⟩, ancestors := [⟨"enum", "Enum"⟩], shape := .enumeration },
    { name := ⟨"enum", "StrEnum"⟩, ancestors := [⟨"builtins", "str"⟩, ⟨"enum", "ReprEnum"⟩,
      ⟨"enum", "Enum"⟩], shape := .enumeration, accessors := [(.method, ["_new_member_"])] },
    { name := baseModel, standsFor := [Abstract.iterable], hashable := some false }
  ]

/-- The library class of a name. -/
def get? (name : ClassName) : Option LibraryClass := all.find? (·.name == name)

/-- The names of the members that every class has. -/
def rootMembers : List String :=
  ["__class__", "__delattr__", "__dir__", "__doc__", "__eq__", "__format__", "__ge__",
    "__getattribute__", "__getstate__", "__gt__", "__hash__", "__init__", "__init_subclass__",
    "__le__", "__lt__", "__ne__", "__new__", "__reduce__", "__reduce_ex__", "__repr__",
    "__setattr__", "__sizeof__", "__str__", "__subclasshook__"]

end LibraryClass

/-! ## Names that need no import -/

/-- The further classes that need no import. -/
def coreClasses : List String :=
  ["ArithmeticError", "AssertionError", "AttributeError", "BaseException", "BaseExceptionGroup",
    "BlockingIOError", "BrokenPipeError", "BufferError", "BytesWarning", "ChildProcessError",
    "ConnectionAbortedError", "ConnectionError", "ConnectionRefusedError", "ConnectionResetError",
    "DeprecationWarning", "EOFError", "EncodingWarning", "Exception", "ExceptionGroup",
    "FileExistsError", "FileNotFoundError", "FloatingPointError", "FutureWarning", "GeneratorExit",
    "ImportError", "ImportWarning", "IndentationError", "IndexError", "InterruptedError",
    "IsADirectoryError", "KeyError", "KeyboardInterrupt", "LookupError", "MemoryError",
    "ModuleNotFoundError", "NameError", "NotADirectoryError", "NotImplementedError", "OSError",
    "OverflowError", "PendingDeprecationWarning", "PermissionError", "ProcessLookupError",
    "RecursionError", "ReferenceError", "ResourceWarning", "RuntimeError", "RuntimeWarning",
    "StopAsyncIteration", "StopIteration", "SyntaxError", "SyntaxWarning", "SystemError",
    "SystemExit", "TabError", "TimeoutError", "TypeError", "UnboundLocalError",
    "UnicodeDecodeError", "UnicodeEncodeError", "UnicodeError", "UnicodeTranslateError",
    "UnicodeWarning", "UserWarning", "ValueError", "Warning", "ZeroDivisionError", "classmethod",
    "enumerate", "filter", "map", "memoryview", "property", "range", "reversed", "slice",
    "staticmethod", "super", "zip"]

/-- The further classes that need no import and can be applied to arguments. -/
def coreContainers : List String := ["BaseExceptionGroup", "ExceptionGroup", "enumerate"]

/-- The functions that need no import. -/
def coreFunctions : List String :=
  ["abs", "aiter", "all", "anext", "any", "ascii", "bin", "breakpoint", "callable", "chr",
    "compile", "delattr", "dir", "divmod", "eval", "exec", "format", "getattr", "globals",
    "hasattr", "hash", "hex", "id", "input", "isinstance", "issubclass", "iter", "len", "locals",
    "max", "min", "next", "oct", "open", "ord", "pow", "print", "repr", "round", "setattr",
    "sorted", "sum", "vars"]

/-- Whether a class that nobody declares can be applied to arguments. -/
def LibraryClass.isApplicable (name : ClassName) : Bool :=
  ((get? name).map (·.isContainer)).getD false || name = .metaclass ||
    (name.moduleName == ClassName.coreModule && coreContainers.contains name.path)

/-- What a name stands for that needs no import. -/
def Hint.ofCoreName? (name : String) : Option Hint :=
  let c : ClassName := ⟨ClassName.coreModule, name⟩
  if c = ClassName.null then none
  else if (LibraryClass.get? c).isSome || coreClasses.contains name then some (.named c)
  else if coreFunctions.contains name then
    some (.special ("<built-in function " ++ name ++ ">") "builtin_function_or_method")
  else
    match name with
    | "IOError" | "EnvironmentError" => some (.named ⟨ClassName.coreModule, "OSError"⟩)
    | "Ellipsis" => some .ellipsis
    | "NotImplemented" => some (.special name "NotImplementedType")
    | _ => none

/-- The hint that authors write by a short name without declaring it. -/
def Hint.ofShortName? : String → Option Hint
  | "List" => some (.bare ⟨"builtins", "list"⟩)
  | "Dict" => some (.bare ⟨"builtins", "dict"⟩)
  | "Tuple" => some (.bare .tuple)
  | "ClassVar" => some .anyClassVar
  | "NamedTuple" => some (.special "NamedTuple" "function")
  | "AbstractSet" => some (.named Abstract.set)
  | name => (LibraryClass.all.find? (·.name.path == name)).map fun l ↦ .named l.name

end Schemata
