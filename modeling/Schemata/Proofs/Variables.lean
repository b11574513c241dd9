import Schemata.Configuration.Loading

/-!
# What a configuration reads of its surroundings

Parsing a configuration file looks at the environment twice: placeholders in the mapping that is
read are filled, and variables of their own override the settings of the log. Both are known from
the content of the file, `Configuration.variableNames`. So where two surroundings have the same
registry, the same content in the file and the same values for these variables, the file is read
alike in both, with the same errors and the same log.
-/

namespace Schemata

namespace Environment

variable {env env' : Environment} {names : List String} {name : String}

/-- The variables have the same values in both environments. -/
def AgreeOn (names : List String) (env env' : Environment) : Prop :=
  ∀ name ∈ names, env'.get? name = env.get? name

theorem AgreeOn.mono {names' : List String} (h : AgreeOn names env env') (hsub : names' ⊆ names) :
    AgreeOn names' env env' :=
  fun name hname ↦ h name (hsub hname)

theorem AgreeOn.override?_eq (h : AgreeOn names env env') (hname : name ∈ names) :
    env'.override? name = env.override? name := by
  rw [override?, override?, h name hname]

end Environment

open Environment (AgreeOn)

variable {env env' : Environment}

/-! ## Placeholders -/

namespace Placeholder

/-- The variable that a piece stands for. -/
def nameOf? : Piece → Option String
  | .char _ => none
  | .placeholder name => some (String.ofList name)

/-- The variables of the placeholders in a text. -/
def variablesIn (s : String) : List String := (pieces s.toList).filterMap nameOf?

mutual

/-- The variables of the placeholders in a value. -/
def variableNames : Value → List String
  | .str s => variablesIn s
  | .list items => variablesAll items
  | .map entries => variablesEntries entries
  | _ => []

/-- The variables of the placeholders in several values. -/
def variablesAll : List Value → List String
  | [] => []
  | v :: vs => variableNames v ++ variablesAll vs

/-- The variables of the placeholders in the values of entries. -/
def variablesEntries : List (Value × Value) → List String
  | [] => []
  | (_, v) :: rest => variableNames v ++ variablesEntries rest

end

theorem fillPieces_congr {ps : List Piece} (h : AgreeOn (ps.filterMap nameOf?) env env') :
    fillPieces env' ps = fillPieces env ps := by
  induction ps with
  | nil => rfl
  | cons p ps ih =>
    cases p with
    | char c => rw [fillPieces, fillPieces, ih h, fillPiece, fillPiece]
    | placeholder name =>
      have hname : env'.get? (String.ofList name) = env.get? (String.ofList name) :=
        h _ List.mem_cons_self
      have hps := h.mono (List.subset_cons_self _ _)
      rw [fillPieces, fillPieces, ih hps, fillPiece, fillPiece, hname]

theorem fillText_congr {s : String} (h : AgreeOn (variablesIn s) env env') :
    fillText env' s = fillText env s :=
  fillPieces_congr h

mutual

theorem fill_congr (v : Value) (h : AgreeOn (variableNames v) env env') :
    fill env' v = fill env v := by
  cases v with
  | str s =>
    rw [variableNames] at h
    rw [fill, fill, fillText_congr h]
  | list items =>
    rw [variableNames] at h
    rw [fill, fill, fillAll_congr items h]
  | map entries =>
    rw [variableNames] at h
    rw [fill, fill, fillEntries_congr entries h]
  | _ => rfl

theorem fillAll_congr (vs : List Value) (h : AgreeOn (variablesAll vs) env env') :
    fillAll env' vs = fillAll env vs := by
  cases vs with
  | nil => rfl
  | cons v vs =>
    rw [variablesAll] at h
    rw [fillAll, fillAll, fill_congr v (h.mono (List.subset_append_left _ _)),
      fillAll_congr vs (h.mono (List.subset_append_right _ _))]

theorem fillEntries_congr (es : List (Value × Value))
    (h : AgreeOn (variablesEntries es) env env') : fillEntries env' es = fillEntries env es := by
  cases es with
  | nil => rfl
  | cons e es =>
    rw [variablesEntries] at h
    rw [fillEntries, fillEntries, fill_congr e.2 (h.mono (List.subset_append_left _ _)),
      fillEntries_congr es (h.mono (List.subset_append_right _ _))]

end

end Placeholder

/-! ## The log -/

namespace LogSettings

/-- The variables that override the settings of the log. -/
def variableNames : List String :=
  "TYPESCHEMA_LOG_LEVEL" :: "TYPESCHEMA_LOG_FORMAT" :: "TYPESCHEMA_LOG_FILE" ::
    LogSwitch.all.map LogSwitch.variableName

theorem overrideSwitches_congr {switches : List LogSwitch}
    (h : AgreeOn (switches.map LogSwitch.variableName) env env') (s : LogSettings) :
    overrideSwitches env' switches s = overrideSwitches env switches s := by
  induction switches generalizing s with
  | nil => rfl
  | cons switch switches ih =>
    have hswitch : s.overrideSwitch env' switch = s.overrideSwitch env switch := by
      rw [overrideSwitch, overrideSwitch, h.override?_eq List.mem_cons_self]
    rw [overrideSwitches, overrideSwitches, hswitch]
    exact bind_congr fun s ↦ ih (h.mono (List.subset_cons_self _ _)) s

theorem override_congr (h : AgreeOn variableNames env env') (s : LogSettings) :
    s.override env' = s.override env := by
  have hlevel : ∀ s : LogSettings, s.overrideLevel env' = s.overrideLevel env := by
    intro s
    rw [overrideLevel, overrideLevel, h.override?_eq (by simp [variableNames])]
  have hformat : ∀ s : LogSettings, s.overrideFormat env' = s.overrideFormat env := by
    intro s
    rw [overrideFormat, overrideFormat, h.override?_eq (by simp [variableNames])]
  have hfile : ∀ s : LogSettings, s.overrideFile env' = s.overrideFile env := by
    intro s
    rw [overrideFile, overrideFile, h.override?_eq (by simp [variableNames])]
  have hswitches : ∀ s, overrideSwitches env' LogSwitch.all s =
      overrideSwitches env LogSwitch.all s :=
    overrideSwitches_congr (h.mono fun name hname ↦ by simp [variableNames, hname])
  unfold override
  simp only [hlevel, hformat, hfile, hswitches]

end LogSettings

/-! ## Configurations -/

namespace Configuration

theorem read_congr {v : Value}
    (h : AgreeOn (Placeholder.variableNames v ++ LogSettings.variableNames) env env')
    (registry : Registry) : read registry env' v = read registry env v := by
  have hvalue : ∀ v, ofValue registry env' v = ofValue registry env v := by
    intro v
    cases v with
    | map entries =>
      have hlog := LogSettings.override_congr (h.mono (List.subset_append_right _ _))
      rw [ofValue, ofValue, ofEntries, ofEntries]
      simp only [hlog]
    | _ => rfl
  rw [read, read, Placeholder.fill_congr v (h.mono (List.subset_append_left _ _))]
  exact bind_congr hvalue

/-- What a file with this content hands over to be read as a configuration; nothing if the defaults
hold. The environment has no part in it. -/
def handing (p : Path) (content : String) : Traced (Option Value) :=
  if p.suffix == ".yaml" || p.suffix == ".yml" then
    match Yaml.read (String.ofList (plainLines content.toList)) with
    | .error .malformed => Traced.fail (.configuration p.name "invalid YAML: malformed document")
    | .error (.impossible reason) => Traced.fail (.invalidValue reason)
    | .ok v => do
      let spec ← Traced.ofExcept (manifestSpec p.name v)
      return some (.map spec)
  else
    match Toml.read? content with
    | none => Traced.fail (.configuration p.name "invalid TOML: malformed document")
    | some document => do
      match ← Traced.ofExcept (ownTable document) with
      | some table => return some table
      | none => return if p.name == projectFile then none else some document

/-- A configuration read from what was handed over. -/
def readHanded (registry : Registry) (env : Environment) : Option Value → Traced Configuration
  | some v => read registry env v
  | none => return {}

/-- Parsing a file reads what its content hands over. -/
theorem outcome_ofFile (world : World) (p : Path) :
    (ofFile world p).outcome = (Traced.ofExcept (world.files.file p)).outcome >>= fun f ↦
      (handing p f.content).outcome >>= fun v ↦
        (readHanded world.registry world.env v).outcome := by
  rw [ofFile, Traced.outcome_bind, Traced.outcome_write]
  change (_ : Traced Configuration).outcome = _
  rw [Traced.outcome_bind]
  refine bind_congr fun f ↦ ?_
  unfold handing
  split
  · unfold ofManifest
    cases Yaml.read (String.ofList (plainLines f.content.toList)) with
    | error fault => cases fault <;> rfl
    | ok v =>
      simp only [Traced.outcome_bind, bind_assoc]
      rfl
  · unfold ofTable
    cases Toml.read? f.content with
    | none => rfl
    | some document =>
      simp only [Traced.outcome_bind, bind_assoc]
      refine bind_congr fun table ↦ ?_
      cases table with
      | some table => rfl
      | none =>
        dsimp only
        split
        · rfl
        · rfl

/-- The variables that parsing a file with this content looks at. -/
def variableNames (p : Path) (content : String) : List String :=
  match (handing p content).outcome with
  | .ok (some v) => Placeholder.variableNames v ++ LogSettings.variableNames
  | _ => []

/-- **What parsing a file depends on**: the registry, the content of the file, and its variables. -/
theorem outcome_ofFile_congr {world world' : World} {p : Path} {f f' : File}
    (hregistry : world'.registry = world.registry) (hf : world.files.file p = .ok f)
    (hf' : world'.files.file p = .ok f') (hcontent : f'.content = f.content)
    (henv : AgreeOn (variableNames p f.content) world.env world'.env) :
    (ofFile world' p).outcome = (ofFile world p).outcome := by
  rw [outcome_ofFile, outcome_ofFile, hf, hf']
  change ((handing p f'.content).outcome >>= fun v ↦
      (readHanded world'.registry world'.env v).outcome) =
    (handing p f.content).outcome >>= fun v ↦ (readHanded world.registry world.env v).outcome
  rw [hcontent, hregistry]
  unfold variableNames at henv
  cases hhanding : (handing p f.content).outcome with
  | error e => rfl
  | ok v =>
    rw [hhanding] at henv
    cases v with
    | none => rfl
    | some v => exact congrArg Traced.outcome (read_congr henv _)

end Configuration

end Schemata
