import Schemata.Proofs.Sources

/-!
# Variables that decide the log

Each setting of the log has a variable, and reading a configuration lets the variable decide if it
says anything: the level, the format and the file if it is not empty, a switch if it is a word for a
truth value. Otherwise the table of the log decides, and if that does not say anything either, the
setting is the usual one. `LogSettings.Decided` says so for all settings, and it settles them.

That holds of every configuration that is read. Where the defaults are taken without reading
anything, the variables are not looked at, so there it holds only if they say what is usual anyway:
`LogSettings.decided_iff`, with `NoFile.variable_ignored` for a variable that says something else.
-/

namespace Schemata

open Traced

theorem Traced.exists_returns_of_toOption {α β : Type} {x : Traced α} {f : α → β} {b : β}
    (h : (f <$> x.outcome).toOption = some b) : ∃ a, x.Returns a ∧ f a = b := by
  cases hx : x.outcome with
  | error e =>
    rw [hx] at h
    exact nomatch h
  | ok a =>
    rw [hx] at h
    exact ⟨a, hx, Option.some.inj h⟩

/-- The position that a variable decides for a switch, if it is set to a word for a truth value. -/
def Environment.decides? (env : Environment) (x : LogSwitch) : Option Bool :=
  (env.override? x.variableName).bind fun word ↦ (Truth.read word).toOption

theorem LogSwitch.mem_all (x : LogSwitch) : x ∈ all := by
  cases x <;> decide

theorem LogSwitches.eq_of_get_eq {a b : LogSwitches} (h : ∀ x, a.get x = b.get x) : a = b := by
  obtain ⟨_, _, _, _, _, _, _⟩ := a
  obtain ⟨_, _, _, _, _, _, _⟩ := b
  rw [mk.injEq]
  exact ⟨h .color, h .timestamp, h .rich, h .dualSink, h .bridge, h .backtrace, h .diagnose⟩

namespace LogSettings

variable {env : Environment} {entries : List (Value × Value)} {s s' : LogSettings}

/-! ## What decides a setting -/

/-- The settings if nobody says anything. -/
def usual : LogSettings := {}

/-- Every setting is what its variable says, or else what the entries say, or else the usual one. -/
structure Decided (env : Environment) (entries : List (Value × Value)) (s : LogSettings) :
    Prop where
  /-- The level is in upper case. -/
  level : s.level = (((env.override? "TYPESCHEMA_LOG_LEVEL").or
    ((Value.lookup (.str "level") entries).map (·.text))).map Text.upper).getD usual.level
  /-- The format is in lower case. -/
  format : s.format = (((env.override? "TYPESCHEMA_LOG_FORMAT").or
    ((Value.lookup (.str "format") entries).map (·.text))).map Text.lower).getD usual.format
  /-- The file is as it is said. -/
  outputFile : s.outputFile = (((env.override? "TYPESCHEMA_LOG_FILE").map .str).or
    (Value.lookup (.str "output_file") entries)).getD usual.outputFile
  /-- A switch is in the position that is decided. -/
  switches : ∀ x, s.switches.get x = ((env.decides? x).or
    ((Value.lookup (.str x.key) entries).map (·.truthy))).getD (usual.switches.get x)

theorem Decided.unique (h : Decided env entries s) (h' : Decided env entries s') : s = s' := by
  obtain ⟨level, format, outputFile, switches⟩ := s
  obtain ⟨level', format', outputFile', switches'⟩ := s'
  obtain rfl : level = level' := h.level.trans h'.level.symm
  obtain rfl : format = format' := h.format.trans h'.format.symm
  obtain rfl : outputFile = outputFile' := h.outputFile.trans h'.outputFile.symm
  obtain rfl : switches = switches' :=
    LogSwitches.eq_of_get_eq fun x ↦ (h.switches x).trans (h'.switches x).symm
  rfl

/-! ## Overriding -/

theorem returns_overrideLevel : (s.overrideLevel env).Returns { s with
    level := ((env.override? "TYPESCHEMA_LOG_LEVEL").map Text.upper).getD s.level } := by
  rw [overrideLevel]
  cases env.override? "TYPESCHEMA_LOG_LEVEL" <;> rfl

theorem returns_overrideFormat : (s.overrideFormat env).Returns { s with
    format := ((env.override? "TYPESCHEMA_LOG_FORMAT").map Text.lower).getD s.format } := by
  rw [overrideFormat]
  cases env.override? "TYPESCHEMA_LOG_FORMAT" <;> rfl

theorem returns_overrideFile : (s.overrideFile env).Returns { s with
    outputFile := ((env.override? "TYPESCHEMA_LOG_FILE").map .str).getD s.outputFile } := by
  rw [overrideFile]
  cases env.override? "TYPESCHEMA_LOG_FILE" <;> rfl

theorem returns_overrideSwitch (x : LogSwitch) : (s.overrideSwitch env x).Returns
    { s with switches := ((env.decides? x).map (s.switches.set x)).getD s.switches } := by
  rw [overrideSwitch, Environment.decides?]
  cases env.override? x.variableName with
  | none => rfl
  | some word =>
    rw [Option.bind_some]
    dsimp only
    cases Truth.read word <;> rfl

theorem returns_overrideSwitches (env : Environment) (switches : List LogSwitch)
    (s : LogSettings) :
    ∃ positions, (overrideSwitches env switches s).Returns { s with switches := positions } ∧
      ∀ x, positions.get x =
        if x ∈ switches then (env.decides? x).getD (s.switches.get x) else s.switches.get x := by
  induction switches generalizing s with
  | nil => exact ⟨s.switches, returns_pure.mpr rfl, fun x ↦ by simp⟩
  | cons y switches ih =>
    obtain ⟨positions, hreturns, hpositions⟩ :=
      ih { s with switches := ((env.decides? y).map (s.switches.set y)).getD s.switches }
    refine ⟨positions, returns_bind.mpr ⟨_, returns_overrideSwitch y, hreturns⟩, fun x ↦ ?_⟩
    rw [hpositions x]
    -- a switch that comes up again is decided by the same variable
    by_cases hx : x = y
    · subst hx
      cases env.decides? x <;> simp [LogSwitches.set]
    · cases env.decides? y <;> simp [LogSwitches.set, hx]

/-! ## What entries spell out -/

theorem level_ofEntries (entries : List (Value × Value)) : (ofEntries entries).level =
    (((Value.lookup (.str "level") entries).map (·.text)).map Text.upper).getD usual.level := by
  change Text.upper ((Value.lookup (.str "level") entries).getD (.str "WARNING")).text = _
  cases Value.lookup (.str "level") entries with
  | some v => rfl
  | none => decide

theorem format_ofEntries (entries : List (Value × Value)) : (ofEntries entries).format =
    (((Value.lookup (.str "format") entries).map (·.text)).map Text.lower).getD usual.format := by
  change Text.lower ((Value.lookup (.str "format") entries).getD (.str "structured")).text = _
  cases Value.lookup (.str "format") entries with
  | some v => rfl
  | none => decide

theorem get_switches_ofEntries (entries : List (Value × Value)) (x : LogSwitch) :
    (ofEntries entries).switches.get x =
      ((Value.lookup (.str x.key) entries).map (·.truthy)).getD (usual.switches.get x) := by
  rw [ofEntries, LogSwitches.get_ofFunction]
  dsimp only
  cases Value.lookup (.str x.key) entries with
  | some v => rfl
  | none => cases x <;> rfl

/-- What is said first decides, whether the rest is looked at together with the fallback or not. -/
theorem getD_map_getD {α β : Type} (first rest : Option α) (f : α → β) (fallback : β) :
    (first.map f).getD ((rest.map f).getD fallback) = ((first.or rest).map f).getD fallback := by
  cases first <;> rfl

/-- **Settings that were spelled out can be overridden, and are then decided** by the variables and
what was spelled out. -/
theorem exists_returns_override (env : Environment) (entries : List (Value × Value)) :
    ∃ s, ((ofEntries entries).override env).Returns s ∧ Decided env entries s := by
  obtain ⟨positions, hreturns, hpositions⟩ := returns_overrideSwitches env LogSwitch.all _
  refine ⟨_, returns_bind.mpr ⟨_, returns_overrideLevel, returns_bind.mpr
    ⟨_, returns_overrideFormat, returns_bind.mpr ⟨_, returns_overrideFile, hreturns⟩⟩⟩, ?_⟩
  constructor
  case level =>
    dsimp only
    rw [level_ofEntries, getD_map_getD]
  case format =>
    dsimp only
    rw [format_ofEntries, getD_map_getD]
  case outputFile =>
    dsimp only
    cases env.override? "TYPESCHEMA_LOG_FILE" <;> rfl
  case switches =>
    intro x
    rw [hpositions x, if_pos x.mem_all]
    dsimp only
    rw [get_switches_ofEntries]
    cases env.decides? x <;> rfl

/-! ## Configurations that are read -/

/-- The table of the log in what is read; it is empty if there is none. -/
def tableOf : Option Value → List (Value × Value)
  | some (.map entries) =>
    match Value.lookup (.str "logging") entries with
    | some (.map table) => table
    | _ => []
  | _ => []

/-- What is said about the log where a configuration is loaded from. -/
def stated (world : World) (path : Option Path) : Traced (List (Value × Value)) :=
  tableOf <$> Configuration.source world path

theorem eq_ofEntries_of_logSettings (h : Configuration.logSettings entries = .ok s) :
    s = ofEntries (tableOf (some (.map entries))) := by
  unfold Configuration.logSettings at h
  unfold tableOf
  dsimp only
  cases hlookup : Value.lookup (.str "logging") entries with
  | none =>
    rw [hlookup] at h
    exact (Except.ok.inj h).symm
  | some v =>
    rw [hlookup, Option.filter_some] at h
    cases htruthy : v.truthy with
    | true =>
      rw [htruthy] at h
      cases v with
      | map table => exact (Except.ok.inj h).symm
      | _ => exact nomatch h
    | false =>
      -- the only mapping that counts as false is empty
      rw [htruthy] at h
      cases v with
      | map table =>
        obtain rfl : table = [] := by simpa [Value.truthy] using htruthy
        exact (Except.ok.inj h).symm
      | _ => exact (Except.ok.inj h).symm

/-- **In a configuration that is read, the variables decide** before what is said about the log. -/
theorem decided_of_ofValue {registry : Registry} {v : Value} {c : Configuration}
    (h : (Configuration.ofValue registry env v).Returns c) :
    Decided env (tableOf (some v)) c.logging := by
  unfold Configuration.ofValue at h
  cases v with
  | map entries =>
    obtain ⟨settings, -, h⟩ := returns_bind.mp h
    obtain ⟨s, hs, h⟩ := returns_bind.mp h
    obtain ⟨logging, hlogging, h⟩ := returns_bind.mp h
    obtain rfl := returns_pure.mp h
    rw [eq_ofEntries_of_logSettings (returns_ofExcept.mp hs)] at hlogging
    obtain ⟨s', hs', hdecided⟩ := exists_returns_override env (tableOf (some (.map entries)))
    obtain rfl := hlogging.unique hs'
    exact hdecided
  | _ => exact nomatch h

/-! ## Configurations that are not read -/

/-- The variables say nothing but what is usual. -/
structure AsUsual (env : Environment) : Prop where
  level : ∀ v, env.override? "TYPESCHEMA_LOG_LEVEL" = some v → Text.upper v = usual.level
  format : ∀ v, env.override? "TYPESCHEMA_LOG_FORMAT" = some v → Text.lower v = usual.format
  outputFile : env.override? "TYPESCHEMA_LOG_FILE" = none
  switches : ∀ x b, env.decides? x = some b → b = usual.switches.get x

theorem eq_getD_map_iff {α β : Type} {o : Option α} {f : α → β} {fallback : β} :
    fallback = (o.map f).getD fallback ↔ ∀ a, o = some a → f a = fallback := by
  cases o <;> simp [eq_comm]

theorem decided_nil_usual : Decided env [] usual ↔ AsUsual env := by
  constructor
  · rintro ⟨hlevel, hformat, hfile, hswitches⟩
    simp only [Value.lookup, Option.map_none, Option.or_none] at hlevel hformat hfile hswitches
    refine ⟨eq_getD_map_iff.mp hlevel, eq_getD_map_iff.mp hformat, ?_, fun x b hb ↦ ?_⟩
    · cases hset : env.override? "TYPESCHEMA_LOG_FILE" with
      | none => rfl
      | some path =>
        rw [hset] at hfile
        exact nomatch hfile
    · rw [hswitches x, hb]
      rfl
  · rintro ⟨hlevel, hformat, hfile, hswitches⟩
    constructor
    case level =>
      simpa only [Value.lookup, Option.map_none, Option.or_none] using eq_getD_map_iff.mpr hlevel
    case format =>
      simpa only [Value.lookup, Option.map_none, Option.or_none] using eq_getD_map_iff.mpr hformat
    case outputFile =>
      rw [hfile]
      rfl
    case switches =>
      intro x
      cases hset : env.decides? x with
      | none => rfl
      | some b => exact (hswitches x b hset).symm

open Schemata.Configuration (TakesDefaults source) in
/-- **When the variables decide.** The settings of the log in a configuration that is loaded from an
empty cache are decided by the variables, and then by what is said where it was loaded from, unless
the defaults are taken without anything being read. In that case they are the usual settings, so
they are as decided exactly if the variables say nothing else. -/
theorem decided_iff {world : World} {path : Option String} {l : Loaded} {cache : Cache}
    (h : (({} : Cache).load world (Cache.Session.target path)).Returns (l, cache)) :
    ∃ entries, (stated world (Cache.Session.target path)).Returns entries ∧
      (Decided world.env entries l.configuration.logging ↔
        (TakesDefaults world (Cache.Session.target path) → AsUsual world.env)) ∧
      (TakesDefaults world (Cache.Session.target path) →
        entries = [] ∧ l.configuration.logging = usual) := by
  have hload := Cache.outcome_load_start world (Cache.Session.target path)
  rw [show (({} : Cache).load world (Cache.Session.target path)).outcome = .ok (l, cache) from h]
    at hload
  obtain ⟨v, hv, hread⟩ := bind_eq_ok_iff.mp hload.symm
  refine ⟨tableOf v, returns_map.mpr ⟨v, hv, rfl⟩, ?_⟩
  cases v with
  | some v =>
    have hdecided := decided_of_ofValue hread
    have hnot : ¬ TakesDefaults world (Cache.Session.target path) := by
      intro hdefaults
      exact nomatch Returns.unique hv (Configuration.returns_source_none.mpr hdefaults)
    exact ⟨iff_of_true hdecided fun hdefaults ↦ absurd hdefaults hnot,
      fun hdefaults ↦ absurd hdefaults hnot⟩
  | none =>
    have hdefaults := Configuration.returns_source_none.mp hv
    have husual : usual = l.configuration.logging :=
      congrArg Configuration.logging (Except.ok.inj hread)
    rw [← husual]
    refine ⟨?_, fun _ ↦ ⟨rfl, rfl⟩⟩
    constructor
    · exact fun hdecided _ ↦ decided_nil_usual.mp hdecided
    · exact fun hvariables ↦ decided_nil_usual.mpr (hvariables hdefaults)

end LogSettings

/-! ## One variable with and without a file -/

namespace LogFile

/-- An empty working directory. -/
def without (env : Environment) : World where
  registry := Registry.standard
  env
  files := { folders := [["app"]], here := ["app"] }

/-- A working directory with a file that asks for errors only. -/
def asking (env : Environment) : World where
  registry := Registry.standard
  env
  files := {
    files := [(["app", "c.toml"], ⟨"logging = \x7blevel = \"error\", use_color = false\x7d", 1⟩)]
    folders := [["app"]]
    here := ["app"] }

/-- With the file, the variable decides the format and the file decides the level. -/
theorem decided_asking :
    let world := asking [("TYPESCHEMA_LOG_FORMAT", "JSON")]
    ∃ r entries, (({} : Cache).load world (Cache.Session.target (some "c.toml"))).Returns r ∧
      (LogSettings.stated world (Cache.Session.target (some "c.toml"))).Returns entries ∧
      LogSettings.Decided world.env entries r.1.configuration.logging ∧
      r.1.configuration.logging.level = "ERROR" ∧ r.1.configuration.logging.format = "json" := by
  intro world
  have hload : ((fun r ↦ (r.1.configuration.logging.level, r.1.configuration.logging.format)) <$>
      (({} : Cache).load world (Cache.Session.target (some "c.toml"))).outcome).toOption =
        some ("ERROR", "json") := by
    decide +kernel
  obtain ⟨r, hr, hboth⟩ := exists_returns_of_toOption hload
  obtain ⟨hlevel, hformat⟩ := Prod.mk.inj hboth
  obtain ⟨entries, hentries, hiff, husual⟩ := LogSettings.decided_iff hr
  have hread : ¬ Configuration.TakesDefaults world (Cache.Session.target (some "c.toml")) := by
    intro hdefaults
    rw [(husual hdefaults).2] at hlevel
    exact absurd hlevel (by decide)
  exact ⟨r, entries, hr, hentries, hiff.mpr fun hdefaults ↦ absurd hdefaults hread, hlevel, hformat⟩

/-- **Without a file, a variable that asks for more is not looked at.** -/
theorem variable_ignored :
    let world := without [("TYPESCHEMA_LOG_LEVEL", "DEBUG")]
    world.env.override? "TYPESCHEMA_LOG_LEVEL" = some "DEBUG" ∧
      ∃ r, (({} : Cache).load world (Cache.Session.target none)).Returns r ∧
        r.1.configuration.logging.level = "WARNING" ∧
        ∀ entries, ¬ LogSettings.Decided world.env entries r.1.configuration.logging := by
  refine ⟨rfl, _, rfl, rfl, fun entries hdecided ↦ ?_⟩
  have hlevel : "WARNING" = Text.upper "DEBUG" := hdecided.level
  exact absurd hlevel (by decide)

end LogFile

end Schemata
