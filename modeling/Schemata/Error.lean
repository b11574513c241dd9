import Schemata.Value

/-!
# Errors

An `Error` is a cause together with the data that its message shows. The first group are the
failures a caller of the engine is expected to handle; the second are faults of the values that a
caller or a configuration file supplied, which the engine meets only when it uses them.
`Error.message` is the one place where causes are put into words.
-/

namespace Schemata

/-- Why an operation failed. -/
inductive Error where
  /-- A failure described by whoever raised it. -/
  | general (arguments : List Value)
  /-- A failure of schema generation described by whoever raised it. -/
  | generation (arguments : List Value)
  /-- A configuration component is invalid. -/
  | configuration (component reason : String)
  /-- A field violates a constraint; the offending value is shown unless it is null. -/
  | validation (field constraint : String) (value : Value)
  /-- An import path names nothing. -/
  | unresolved (path reason : String)
  /-- Metadata of an element cannot be represented in a schema. -/
  | unsupportedTag (element tag key reason : String)
  /-- A tag value has no data form. -/
  | uncoercible (reason : String)
  /-- The output format is not one of the supported ones. -/
  | unknownFormat (format : String)
  /-- A text is not one of the words for a truth value. -/
  | notBoolean (text : String)
  /-- A named configuration file does not exist. -/
  | missingFile (path : String)
  /-- No configuration file was found at all. -/
  | noConfiguration
  /-- A log level is not known. -/
  | unknownLevel (name : String)
  /-- An object that is no schema tag was attached as one. -/
  | notTag (shown : String)
  /-- A value of the wrong type was used. -/
  | wrongType
  /-- A value lacks an attribute that was asked for. -/
  | noAttribute
  /-- A mapping lacks a key that was asked for. -/
  | noEntry
  /-- A configuration file is not valid in its format. -/
  | malformedTable
  /-- A name is not defined. -/
  | undefinedName
  /-- A text does not name anything that could be looked up. -/
  | malformedName
  /-- A value or a declaration is not possible. -/
  | invalidValue (reason : String)
  /-- A file is not where an operation needs one. -/
  | badPath (kind : String)
  deriving Inhabited

namespace Error

/-- Whether a caller of the engine is expected to handle the failure. -/
def isExpected : Error → Bool
  | general _ | generation _ | configuration .. | validation .. | unresolved ..
  | unsupportedTag .. =>
    true
  | _ => false

/-- Several values shown as one. -/
def argumentsText : List Value → String
  | [] => ""
  | [v] => v.text
  | vs => Text.tupleText (vs.map Value.shown)

/-- The words for a truth value, in order. -/
def booleanWords : List String :=
  ["0", "1", "disabled", "enabled", "false", "no", "off", "on", "true", "yes"]

/-- The supported output formats. -/
def formats : List String := ["dict", "json", "yaml"]

/-- Texts shown as a list. -/
def shownTexts (texts : List String) : String := (Value.list (texts.map .str)).shown

/-- The cause in words. -/
def message : Error → String
  | general arguments => argumentsText arguments
  | generation arguments => argumentsText arguments
  | configuration component reason => "Configuration error in '" ++ component ++ "': " ++ reason
  | validation field constraint value =>
    "Validation failed for '" ++ field ++ "': " ++ constraint ++
      match value with
      | .null => ""
      | v => " (got " ++ v.shown ++ ")"
  | unresolved path reason => "Cannot resolve '" ++ path ++ "': " ++ reason
  | unsupportedTag element tag key reason =>
    "Unsupported value for '" ++ tag ++ "." ++ key ++ "' on '" ++ element ++ "': " ++
      reason
  | uncoercible reason => reason
  | unknownFormat format =>
    "Unsupported output format '" ++ format ++ "', expected one of " ++
      Text.tupleText (formats.map Text.quoted)
  | notBoolean text =>
    "Invalid boolean value: " ++ Text.quoted text ++ ". Expected one of: " ++
      shownTexts booleanWords
  | missingFile path => "Configuration file not found: " ++ path
  | noConfiguration =>
    "No configuration file found. Provide a kind: Config YAML path, " ++
      "set TYPESCHEMA_CONFIG_PATH, or add [tool.typeschema] to pyproject.toml"
  | unknownLevel name => "Level '" ++ name ++ "' does not exist"
  | notTag shown => shown ++ " is not a schema annotation"
  | wrongType => "a value of the wrong type was used"
  | noAttribute => "a value lacks an attribute"
  | noEntry => "a mapping lacks a key"
  | malformedTable => "a table file is not valid"
  | undefinedName => "a name is not defined"
  | malformedName => "a name is malformed"
  | invalidValue reason => reason
  | badPath kind => kind

end Error

end Schemata
