/-!
# Arguments

A command line is read into options with their values and plain words. An option is written long,
with its value behind an equals sign or as the next word, or short, where several options may share
a dash and the value may follow without a blank. Two dashes end the options. Where options and words
must not be mixed, the first word ends the options as well.

Of several values for the same option the last one counts. An option that asks for information is
answered as soon as the options around it are read, whatever else is missing. The options by which
a shell asks for completions are left out.
-/

namespace Schemata

namespace CommandLine

/-- The options. -/
inductive OptionKey where
  | quiet | verbose | logLevel | config | format | output | pretty | version | help
  deriving DecidableEq, Inhabited

namespace OptionKey

/-- How an option is written: its long name and maybe a letter. -/
def names : OptionKey → String × Option Char
  | quiet => ("--quiet", some 'q')
  | verbose => ("--verbose", some 'V')
  | logLevel => ("--log-level", none)
  | config => ("--config", some 'c')
  | format => ("--format", some 'f')
  | output => ("--output", some 'o')
  | pretty => ("--pretty", none)
  | version => ("--version", some 'v')
  | help => ("--help", none)

/-- Whether an option has a value. -/
def hasValue : OptionKey → Bool
  | quiet | verbose | pretty | version | help => false
  | _ => true

/-- The options that stand before the command. -/
def general : List OptionKey := [quiet, verbose, logLevel, config, version, help]

/-- The options of the commands. -/
def forOutput : List OptionKey := [format, output, pretty, help]

end OptionKey

/-- Options with their values, in the order they were given. -/
abbrev OptionValues := List (OptionKey × String)

namespace OptionValues

/-- The last value of an option. -/
def get? (options : OptionValues) (s : OptionKey) : Option String :=
  (options.reverse.find? (·.1 = s)).map (·.2)

/-- Whether an option was given. -/
def isOn (options : OptionValues) (s : OptionKey) : Bool := options.any (·.1 = s)

end OptionValues

/-! ## Reading -/

/-- Reads the letters behind a dash; the option at the end may still need its value. -/
def readLetters (known : List OptionKey) : List Char → Option (OptionValues × Option OptionKey)
  | [] => some ([], none)
  | c :: cs =>
    match known.find? (·.names.2 == some c) with
    | none => none
    | some s =>
      if !s.hasValue then (readLetters known cs).map fun (found, open?) ↦ ((s, "") :: found, open?)
      else if cs.isEmpty then some ([], some s)
      else some ([(s, String.ofList cs)], none)

/-- Reads an option written long; it may still need its value. -/
def readLong (known : List OptionKey) (word : List Char) :
    Option (OptionValues × Option OptionKey) :=
  let name := word.takeWhile (· ≠ '=')
  match known.find? (·.names.1.toList == name), word.dropWhile (· ≠ '=') with
  | none, _ => none
  | some s, [] => some (if s.hasValue then ([], some s) else ([(s, "")], none))
  | some s, _ :: value => if s.hasValue then some ([(s, String.ofList value)], none) else none

/-- Reads the options and the plain words of a command line. The word that follows an option whose
value is still open is that value. -/
def read (known : List OptionKey) (mixed : Bool) :
    Option OptionKey → List String → Option (OptionValues × List String)
  | none, [] => some ([], [])
  | some _, [] => none
  | some s, value :: rest =>
    (read known mixed none rest).map fun (found, words) ↦ ((s, value) :: found, words)
  | none, word :: rest =>
    match word.toList with
    | ['-', '-'] => some ([], rest)
    | '-' :: c :: cs => do
      let (now, open?) ←
        if c = '-' then readLong known ('-' :: c :: cs) else readLetters known (c :: cs)
      let (later, words) ← read known mixed open? rest
      some (now ++ later, words)
    | _ =>
      if mixed then (read known mixed none rest).map fun (found, words) ↦ (found, word :: words)
      else some ([], word :: rest)

/-! ## Information -/

/-- What arguments can ask for instead of a schema. -/
inductive Topic where
  /-- The version. -/
  | version
  /-- Help on the command that these words lead to. -/
  | help (words : List String)
  deriving DecidableEq, Inhabited

/-- Why arguments are no command. -/
inductive Detour where
  /-- They fit no command. -/
  | misfit
  /-- They ask for information. -/
  | asks (topic : Topic)
  deriving DecidableEq, Inhabited

/-- The first thing that options ask for, given the words before them. -/
def OptionValues.topic? (options : OptionValues) (words : List String) : Option Topic :=
  options.findSome? fun (s, _) ↦
    match s with
    | .version => some .version
    | .help => some (.help words)
    | _ => none

/-- Reads the options and the words that follow these words, unless something is asked for. -/
def readPart (before : List String) (known : List OptionKey) (mixed : Bool) (args : List String) :
    Except Detour (OptionValues × List String) :=
  match read known mixed none args with
  | none => .error .misfit
  | some (options, words) =>
    match options.topic? before with
    | some topic => .error (.asks topic)
    | none => .ok (options, words)

/-! ## Commands -/

/-- What a command makes a schema of. -/
inductive Task where
  /-- A schema of its own for one type. -/
  | freestanding (target : String)
  /-- A section with the schemas of several types. -/
  | components (targets : List String)
  deriving DecidableEq, Inhabited

/-- A command. -/
structure Command where
  /-- What to make. -/
  task : Task
  /-- The output format. -/
  format : String := "json"
  /-- The file to write to. -/
  output : Option String := none
  /-- Whether the result is shown highlighted in a panel. -/
  pretty : Bool := false
  deriving DecidableEq, Inhabited

/-- What a panel for the result of a task is headed by. -/
def Task.title : Task → String
  | freestanding target => "JSON Schema: " ++ target
  | components _ => "Components"

/-- The general options and what follows the word for the schema commands. -/
def readGeneral (args : List String) : Except Detour (OptionValues × List String) := do
  match ← readPart [] OptionKey.general false args with
  | (options, "schema" :: rest) => return (options, rest)
  | _ => throw .misfit

/-- The names of the commands. -/
def commandNames : List String := ["json", "components"]

/-- A task with the words that follow its name. -/
def readTask (name : String) (words : List String) : Option Task :=
  match name, words with
  | "json", [target] => some (.freestanding target)
  | "components", target :: targets => some (.components (target :: targets))
  | _, _ => none

/-- The command after the word for the schema commands. -/
def readCommand (args : List String) : Except Detour Command := do
  match ← readPart ["schema"] [.help] false args with
  | (_, name :: rest) =>
    if !commandNames.contains name then throw .misfit
    let (options, words) ← readPart ["schema", name] OptionKey.forOutput true rest
    match readTask name words with
    | none => throw .misfit
    | some task =>
      return {
        task
        format := (options.get? .format).getD "json"
        output := options.get? .output
        pretty := options.isOn .pretty }
  | _ => throw .misfit

end CommandLine

end Schemata
