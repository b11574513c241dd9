import Schemata.Proofs.ConfigurationFaults
import Schemata.Proofs.LogOverrides
import Schemata.Proofs.ObjectSchemas
import Schemata.Proofs.Substitution

/-!
# Flags from placeholders

A flag of a configuration is on if its value counts as true, and every text but the empty one does.
A placeholder is filled with a text, so a flag that is given by a placeholder is on whatever the
variable says. The variables that override the switches of the log are words for truth values
(`Truth.read`); the ones in placeholders are not read as such.

Giving a flag a value sets that flag in what comes of the other entries, and changes nothing where
these are at fault (`Flag.outcome_ofEntries_given`). Filling goes into the value of the flag and
into the other entries separately, so two files that differ in the value of one flag differ in the
position of that flag only. `Flag.placeholder_iff` compares a placeholder with a truth value in this
way, for every flag and for every file that hands the mapping over.
-/

namespace Schemata

open Traced

variable {registry : Registry} {env : Environment} {entries table : List (Value × Value)}
  {v w : Value}

theorem Value.lookup_put_str_of_ne {key other : String} (h : key ≠ other) :
    lookup (.str other) (put entries (.str key) v) = lookup (.str other) entries :=
  lookup_put_of_ne fun hkey ↦ h (str.inj hkey)

namespace Placeholder

theorem returns_fillEntries_put {es fs : List (Value × Value)}
    (h : (fillEntries env es).Returns fs) (hv : (fill env v).Returns w) (k : Value) :
    (fillEntries env (Value.put es k v)).Returns (Value.put fs k w) := by
  induction es generalizing fs with
  | nil =>
    obtain rfl := returns_pure.mp h
    refine returns_bind.mpr ⟨w, hv, ?_⟩
    exact returns_bind.mpr ⟨[], returns_pure.mpr rfl, returns_pure.mpr rfl⟩
  | cons e es ih =>
    obtain ⟨w', hw', h⟩ := returns_bind.mp h
    obtain ⟨fs, hfs, h⟩ := returns_bind.mp h
    obtain rfl := returns_pure.mp h
    rw [Value.put, Value.put]
    by_cases hkey : e.1.sameKey k
    · rw [if_pos hkey, if_pos hkey]
      exact returns_bind.mpr ⟨w, hv, returns_bind.mpr ⟨fs, hfs, returns_pure.mpr rfl⟩⟩
    · rw [if_neg hkey, if_neg hkey]
      exact returns_bind.mpr ⟨w', hw', returns_bind.mpr ⟨_, ih hfs, returns_pure.mpr rfl⟩⟩

end Placeholder

/-! ## Flags -/

/-- A key of a configuration that holds a truth value. -/
inductive Flag where
  /-- Whether the built-in processors end the chain. -/
  | builtins
  /-- Whether properties that cannot be null are required. -/
  | nonNulls
  /-- A switch of the log. -/
  | log (x : LogSwitch)

namespace Flag

/-- A mapping that gives the flag a value, next to other entries. The switches of the log stand in a
table of their own, next to other entries of that. -/
def given (flag : Flag) (entries table : List (Value × Value)) (v : Value) :
    List (Value × Value) :=
  match flag with
  | builtins => Value.put entries (.str "include_builtin_processors") v
  | nonNulls => Value.put entries (.str "require_non_nulls_by_default") v
  | log x => Value.put entries (.str "logging") (.map (Value.put table (.str x.key) v))

/-- The other entries by themselves. -/
def others (flag : Flag) (entries table : List (Value × Value)) : List (Value × Value) :=
  match flag with
  | builtins | nonNulls => entries
  | log _ => Value.put entries (.str "logging") (.map table)

/-- The configuration with the flag in a position. -/
def set (flag : Flag) (b : Bool) (c : Configuration) : Configuration :=
  match flag with
  | builtins => { c with settings := { c.settings with includeBuiltins := b } }
  | nonNulls => { c with settings := { c.settings with requireNonNulls := b } }
  | log x => { c with logging := { c.logging with switches := c.logging.switches.set x b } }

/-- The position of the flag. -/
def get (flag : Flag) (c : Configuration) : Bool :=
  match flag with
  | builtins => c.settings.includeBuiltins
  | nonNulls => c.settings.requireNonNulls
  | log x => c.logging.switches.get x

@[simp] theorem get_set (flag : Flag) (b : Bool) (c : Configuration) :
    flag.get (flag.set b c) = b := by
  cases flag with
  | builtins | nonNulls => rfl
  | log x => simp [get, set, LogSwitches.set]

@[simp] theorem set_set (flag : Flag) (b b' : Bool) (c : Configuration) :
    flag.set b (flag.set b' c) = flag.set b c := by
  cases flag with
  | builtins | nonNulls => rfl
  | log x =>
    have hswitches : (c.logging.switches.set x b').set x b = c.logging.switches.set x b := by
      refine LogSwitches.eq_of_get_eq fun y ↦ ?_
      by_cases hy : y = x <;> simp [LogSwitches.set, hy]
    simp only [set, hswitches]

end Flag

/-! ## What a flag has a part in -/

namespace Configuration

theorem validated_map {f : Settings Hint → Settings Hint} {s : Settings Hint}
    (hreferences : (f s).refPrefix = s.refPrefix) (htypes : (f s).simpleTypes = s.simpleTypes) :
    validated (f s) = f <$> validated s := by
  unfold validated Settings.validate
  rw [hreferences, htypes]
  by_cases hempty : s.refPrefix.isEmpty
  · rw [if_pos hempty, if_pos hempty]
    rfl
  · rw [if_neg hempty, if_neg hempty]
    cases s.simpleTypes.find? (·.2.type.isEmpty) <;> rfl

/-- The keys whose values are checked part by part. -/
def checkedKeys : List String :=
  ["simple_type_mappings", "property_inclusion_filter", "embedded_type_processors"]

/-- Giving the key the value amounts to this change of the engine's settings. Neither the value nor
the change is looked at by a check. -/
structure AmountsTo (key : String) (v : Value) (f : Settings Hint → Settings Hint) : Prop where
  not_checked : key ∉ checkedKeys
  refPrefix : ∀ s, (f s).refPrefix = s.refPrefix
  simpleTypes : ∀ s, (f s).simpleTypes = s.simpleTypes
  settings : ∀ entries types filter processors,
    settingsWith (Value.put entries (.str key) v) types filter processors =
      f (settingsWith entries types filter processors)

theorem amountsTo_builtins (v : Value) : AmountsTo "include_builtin_processors" v
    fun s ↦ { s with includeBuiltins := v.truthy } where
  not_checked := by decide
  refPrefix _ := rfl
  simpleTypes _ := rfl
  settings entries types filter processors := by
    simp (disch := decide) only [settingsWith, Value.lookup_put_str, Value.lookup_put_str_of_ne,
      Option.map_some, Option.getD_some]

theorem amountsTo_nonNulls (v : Value) : AmountsTo "require_non_nulls_by_default" v
    fun s ↦ { s with requireNonNulls := v.truthy } where
  not_checked := by decide
  refPrefix _ := rfl
  simpleTypes _ := rfl
  settings entries types filter processors := by
    simp (disch := decide) only [settingsWith, Value.lookup_put_str, Value.lookup_put_str_of_ne,
      Option.map_some, Option.getD_some]

theorem amountsTo_logging (v : Value) : AmountsTo "logging" v id where
  not_checked := by decide
  refPrefix _ := rfl
  simpleTypes _ := rfl
  settings entries types filter processors := by
    simp (disch := decide) only [settingsWith, Value.lookup_put_str_of_ne, id]

theorem outcome_engineSettings_put {key : String} {f : Settings Hint → Settings Hint}
    (h : AmountsTo key v f) (registry : Registry) (entries : List (Value × Value)) :
    (engineSettings registry (Value.put entries (.str key) v)).outcome =
      f <$> (engineSettings registry entries).outcome := by
  have hlookup : ∀ other ∈ checkedKeys,
      Value.lookup (.str other) (Value.put entries (.str key) v) =
        Value.lookup (.str other) entries := by
    intro other hother
    refine Value.lookup_put_str_of_ne fun heq ↦ h.not_checked ?_
    rwa [heq]
  have htypes : typesOf (Value.put entries (.str key) v) = typesOf entries := by
    rw [typesOf, typesOf, hlookup _ (by decide)]
  have hfilter : filterOf registry (Value.put entries (.str key) v) =
      filterOf registry entries := by
    rw [filterOf, filterOf, filterPath?, filterPath?, hlookup _ (by decide)]
  have hprocessors : processorsOf registry (Value.put entries (.str key) v) =
      processorsOf registry entries := by
    rw [processorsOf, processorsOf, hlookup _ (by decide)]
  have hvalidated : ∀ types filter processors,
      (ofExcept (validated
        (settingsWith (Value.put entries (.str key) v) types filter processors))).outcome =
        f <$> (ofExcept (validated (settingsWith entries types filter processors))).outcome := by
    intro types filter processors
    rw [h.settings, validated_map (h.refPrefix _) (h.simpleTypes _)]
    cases validated (settingsWith entries types filter processors) <;> rfl
  simp only [outcome_engineSettings, htypes, hfilter, hprocessors, outcome_bind, hvalidated,
    map_bind]

theorem logSettings_put_of_ne {key : String} (hkey : key ≠ "logging") :
    logSettings (Value.put entries (.str key) v) = logSettings entries := by
  rw [logSettings, logSettings, Value.lookup_put_str_of_ne hkey]

theorem logSettings_put (entries table : List (Value × Value)) :
    logSettings (Value.put entries (.str "logging") (.map table)) = .ok (.ofEntries table) := by
  rw [logSettings, Value.lookup_put_str]
  cases table <;> rfl

theorem outcome_ofEntries (entries : List (Value × Value)) :
    (ofEntries registry env entries).outcome =
      (engineSettings registry entries).outcome >>= fun settings ↦
        (ofExcept (logSettings entries)).outcome >>= fun s ↦
          (s.override env).outcome >>= fun logging ↦ .ok { settings, logging } := by
  unfold ofEntries
  simp only [outcome_bind]
  rfl

theorem outcome_ofEntries_put {key : String} {f : Settings Hint → Settings Hint}
    (h : AmountsTo key v f) (hkey : key ≠ "logging") (registry : Registry) (env : Environment)
    (entries : List (Value × Value)) :
    (ofEntries registry env (Value.put entries (.str key) v)).outcome =
      (fun c ↦ { c with settings := f c.settings }) <$>
        (ofEntries registry env entries).outcome := by
  rw [outcome_ofEntries, outcome_ofEntries, logSettings_put_of_ne hkey,
    outcome_engineSettings_put h]
  simp only [map_bind, bind_map_left]
  rfl

/-- A table of the log takes the place of the settings of the log. -/
theorem outcome_ofEntries_put_logging (registry : Registry) (env : Environment)
    (entries table : List (Value × Value)) :
    (ofEntries registry env (Value.put entries (.str "logging") (.map table))).outcome =
      (engineSettings registry entries).outcome >>= fun settings ↦
        ((LogSettings.ofEntries table).override env).outcome >>= fun logging ↦
          .ok { settings, logging } := by
  rw [outcome_ofEntries, outcome_engineSettings_put (amountsTo_logging _), logSettings_put, id_map]
  rfl

end Configuration

theorem LogSwitch.key_injective : Function.Injective LogSwitch.key := by
  have hall : ∀ x ∈ LogSwitch.all, ∀ y ∈ LogSwitch.all, x.key = y.key → x = y := by decide
  intro x y
  exact hall x x.mem_all y y.mem_all

namespace LogSettings

theorem returns_override_of_unset (h : ∀ name ∈ variableNames, env.override? name = none)
    (entries : List (Value × Value)) :
    ((ofEntries entries).override env).Returns (ofEntries entries) := by
  obtain ⟨s, hs, hdecided⟩ := exists_returns_override env entries
  have hstated : Decided env entries (ofEntries entries) := by
    constructor
    case level => rw [h _ (by simp [variableNames]), Option.none_or, level_ofEntries]
    case format => rw [h _ (by simp [variableNames]), Option.none_or, format_ofEntries]
    case outputFile =>
      rw [h _ (by simp [variableNames])]
      rfl
    case switches =>
      intro x
      have hx : x.variableName ∈ variableNames := by
        simp [variableNames, LogSwitch.mem_all]
      rw [Environment.decides?, h _ hx, Option.bind_none, Option.none_or, get_switches_ofEntries]
  rwa [hdecided.unique hstated] at hs

theorem ofEntries_put (table : List (Value × Value)) (x : LogSwitch) (v : Value) :
    ofEntries (Value.put table (.str x.key) v) =
      { ofEntries table with switches := (ofEntries table).switches.set x v.truthy } := by
  have hkeys : ∀ key ∈ ["level", "format", "output_file"],
      Value.lookup (.str key) (Value.put table (.str x.key) v) =
        Value.lookup (.str key) table := by
    intro key hkey
    refine Value.lookup_put_str_of_ne ?_
    rintro rfl
    exact absurd hkey (by cases x <;> decide)
  have hlevel : (ofEntries (Value.put table (.str x.key) v)).level = (ofEntries table).level := by
    rw [level_ofEntries, level_ofEntries, hkeys _ (by decide)]
  have hformat : (ofEntries (Value.put table (.str x.key) v)).format =
      (ofEntries table).format := by
    rw [format_ofEntries, format_ofEntries, hkeys _ (by decide)]
  have hfile : (ofEntries (Value.put table (.str x.key) v)).outputFile =
      (ofEntries table).outputFile :=
    congrArg (fun o : Option Value ↦ o.getD .null) (hkeys "output_file" (by decide))
  have hswitches : (ofEntries (Value.put table (.str x.key) v)).switches =
      (ofEntries table).switches.set x v.truthy := by
    refine LogSwitches.eq_of_get_eq fun y ↦ ?_
    rw [get_switches_ofEntries, LogSwitches.set, LogSwitches.get_ofFunction]
    by_cases hy : y = x
    · rw [if_pos hy, hy, Value.lookup_put_str]
      rfl
    · have hkey : x.key ≠ y.key := fun h ↦ hy (LogSwitch.key_injective h).symm
      rw [if_neg hy, get_switches_ofEntries, Value.lookup_put_str_of_ne hkey]
  dsimp only
  rw [← hlevel, ← hformat, ← hfile, ← hswitches]

end LogSettings

/-! ## What a flag decides -/

namespace Flag

open Schemata.Configuration in
/-- **Giving a flag a value decides that flag**, by whether the value counts as true. -/
theorem outcome_ofEntries_given
    (hunset : ∀ name ∈ LogSettings.variableNames, env.override? name = none) (flag : Flag)
    (entries table : List (Value × Value)) (v : Value) :
    (ofEntries registry env (flag.given entries table v)).outcome =
      flag.set v.truthy <$> (ofEntries registry env (flag.others entries table)).outcome := by
  cases flag with
  | builtins => exact outcome_ofEntries_put (amountsTo_builtins v) (by decide) registry env entries
  | nonNulls => exact outcome_ofEntries_put (amountsTo_nonNulls v) (by decide) registry env entries
  | log x =>
    have hoverride : ∀ table, ((LogSettings.ofEntries table).override env).outcome =
      .ok (LogSettings.ofEntries table) := LogSettings.returns_override_of_unset hunset
    rw [given, others, outcome_ofEntries_put_logging, outcome_ofEntries_put_logging, hoverride,
      hoverride, LogSettings.ofEntries_put, map_bind]
    rfl

theorem returns_fill_given {es fs ts us : List (Value × Value)}
    (hes : (Placeholder.fillEntries env es).Returns fs)
    (hts : (Placeholder.fillEntries env ts).Returns us) (hv : (Placeholder.fill env v).Returns w)
    (flag : Flag) : (Placeholder.fill env (.map (flag.given es ts v))).Returns
      (.map (flag.given fs us w)) := by
  have hput : ∀ key {x y}, (Placeholder.fill env x).Returns y →
      (Placeholder.fill env (.map (Value.put es key x))).Returns (.map (Value.put fs key y)) :=
    fun key x y h ↦ returns_bind.mpr
      ⟨_, Placeholder.returns_fillEntries_put hes h key, returns_pure.mpr rfl⟩
  cases flag with
  | builtins | nonNulls => exact hput _ hv
  | log x =>
    exact hput _ (returns_bind.mpr
      ⟨_, Placeholder.returns_fillEntries_put hts hv _, returns_pure.mpr rfl⟩)

/-- Whatever the value of the flag is, the rest of what is read is the same. -/
theorem exists_outcome_read (registry : Registry)
    (hunset : ∀ name ∈ LogSettings.variableNames, env.override? name = none) (flag : Flag)
    (entries table : List (Value × Value)) :
    ∃ rest : Except Failure Configuration, ∀ v w, (Placeholder.fill env v).Returns w →
      (Configuration.read registry env (.map (flag.given entries table v))).outcome =
        flag.set w.truthy <$> rest := by
  obtain ⟨fs, hfs⟩ := Placeholder.exists_returns_fillEntries env entries
  obtain ⟨us, hus⟩ := Placeholder.exists_returns_fillEntries env table
  refine ⟨(Configuration.ofEntries registry env (flag.others fs us)).outcome, fun v w hw ↦ ?_⟩
  rw [Configuration.read, outcome_bind, returns_fill_given hfs hus hw flag]
  exact outcome_ofEntries_given hunset flag fs us w

end Flag

/-! ## Loading -/

namespace Configuration

/-- What is handed over by the file that is found; nothing if no file is found, or if the defaults
hold. -/
def handed (world : World) (path : Option Path) : Traced (Option Value) := do
  match ← found world path with
  | some p => do
    let f ← ofExcept (world.files.file (p.fromRoot world.files.here))
    handing (p.fromRoot world.files.here) f.content
  | none => return none

/-- What a load from an empty cache comes to. -/
def loaded (world : World) (path : Option Path) : Except Failure Configuration :=
  (fun r ↦ r.1.configuration) <$> (({} : Cache).load world path).outcome

/-- **A load reads what is handed over.** -/
theorem loaded_eq (world : World) (path : Option Path) :
    loaded world path = (handed world path).outcome >>= fun v ↦
      (readHanded world.registry world.env v).outcome := by
  rw [loaded, Cache.outcome_load_start, source, handed, outcome_bind, outcome_bind, bind_assoc,
    bind_assoc]
  refine bind_congr fun o ↦ ?_
  cases o with
  | none => rfl
  | some p =>
    dsimp only
    rw [outcome_bind, outcome_bind, bind_assoc, bind_assoc]
    exact bind_congr fun f ↦ (outcome_readHanded world.registry _ f.content).symm

end Configuration

/-! ## Flags from placeholders -/

theorem Truth.not_isEmpty_of_read {word : String} {b : Bool} (h : read word = .ok b) :
    (!word.isEmpty) = true := by
  rw [Bool.not_eq_true', String.isEmpty_eq_false_iff]
  rintro rfl
  have hempty : read "" = .error (.notBoolean "") := by rfl
  exact nomatch hempty.symm.trans h

theorem Flag.map_set_eq_map_set_iff {flag : Flag} {b b' : Bool}
    (rest : Except Failure Configuration) : flag.set b <$> rest = flag.set b' <$> rest ↔
      (∃ e, flag.set b' <$> rest = .error e) ∨ b = b' := by
  cases rest with
  | error e => exact iff_of_true rfl (.inl ⟨e, rfl⟩)
  | ok c =>
    constructor
    · intro h
      have hset := congrArg flag.get (Except.ok.inj h)
      rw [get_set, get_set] at hset
      exact .inr hset
    · rintro (⟨e, h⟩ | rfl)
      · exact nomatch h
      · rfl

open Schemata.Configuration in
/-- **A flag from a placeholder is on if the placeholder stands for anything.** So a load gives the
configuration that it gives with the truth value itself exactly if the variable says true, or if
there is no configuration to be had for other reasons. -/
theorem Flag.placeholder_iff {world world' : World} {path path' : Option Path} {name word : String}
    {b : Bool} {flag : Flag} (hregistry : world'.registry = world.registry)
    (henv : world'.env = world.env)
    (hunset : ∀ name ∈ LogSettings.variableNames, world.env.override? name = none)
    (hname : world.env.get? name = some word) (hword : Truth.read word = .ok b)
    (hplaceholder : (handed world path).Returns (some (.map
      (flag.given entries table (.str (Placeholder.written name.toList))))))
    (hliteral : (handed world' path').Returns (some (.map
      (flag.given entries table (.bool b))))) :
    ∃ text, (Placeholder.fillText world.env (Placeholder.written name.toList)).Returns text ∧
      loaded world path = flag.set (!text.isEmpty) <$> loaded world' path' ∧
      (loaded world path = loaded world' path' ↔
        (∃ e, loaded world' path' = .error e) ∨ (!text.isEmpty) = b) ∧
      (name ≠ "" → '\x7d' ∉ name.toList → text = word ∧
        (loaded world path = loaded world' path' ↔
          (∃ e, loaded world' path' = .error e) ∨ b = true)) := by
  obtain ⟨rest, hrest⟩ := exists_outcome_read world.registry hunset flag entries table
  obtain ⟨text, htext⟩ := Placeholder.exists_returns_fillPieces world.env
    (Placeholder.pieces (Placeholder.written name.toList).toList)
  have hfill : (Placeholder.fill world.env (.str (Placeholder.written name.toList))).Returns
      (.str text) := returns_bind.mpr ⟨text, htext, returns_pure.mpr rfl⟩
  have hplaceholder : loaded world path = flag.set (!text.isEmpty) <$> rest := by
    rw [loaded_eq, hplaceholder]
    exact hrest _ _ hfill
  -- a truth value is filled with itself
  have hliteral : loaded world' path' = flag.set b <$> rest := by
    rw [loaded_eq, hliteral, hregistry, henv]
    exact hrest (.bool b) (.bool b) (returns_pure.mpr rfl)
  have hiff : loaded world path = loaded world' path' ↔
      (∃ e, loaded world' path' = .error e) ∨ (!text.isEmpty) = b := by
    rw [hplaceholder, hliteral]
    exact map_set_eq_map_set_iff rest
  refine ⟨text, htext, ?_, hiff, fun hne hclose ↦ ?_⟩
  · rw [hplaceholder, hliteral]
    cases rest <;> simp [Functor.map, Except.map]
  · have hstands : (Placeholder.fillText world.env (Placeholder.written name.toList)).Returns
        (Placeholder.standsFor world.env name.toList) :=
      Placeholder.returns_fillText_written (mt String.toList_eq_nil_iff.mp hne) hclose
    rw [Placeholder.standsFor, String.ofList_toList, hname, Option.getD_some] at hstands
    obtain rfl := Returns.unique htext hstands
    rw [hiff, Truth.not_isEmpty_of_read hword, eq_comm (a := true)]
    exact ⟨rfl, Iff.rfl⟩

/-! ## Two files -/

namespace FlagFile

/-- A working directory with a configuration file, and an environment with one variable. -/
def world (word content : String) : World where
  registry := Registry.standard
  env := [("FLAG", word)]
  files := { files := [(["app", "c.toml"], ⟨content, 1⟩)], folders := [["app"]], here := ["app"] }

/-- The path of the file. -/
def path : Option Path := some (Path.ofText "c.toml")

/-- The file with the placeholder of the variable. -/
def placeholder (word : String) : World :=
  world word "require_non_nulls_by_default = \"$\x7bFLAG\x7d\""

/-- The file with a truth value. -/
def literal (word : String) : Bool → World
  | true => world word "require_non_nulls_by_default = true"
  | false => world word "require_non_nulls_by_default = false"

/-- The key and the text or truth value of a mapping that has one entry. -/
def single? : Option Value → Option (String × (String ⊕ Bool))
  | some (.map [(.str key, .str s)]) => some (key, .inl s)
  | some (.map [(.str key, .bool b)]) => some (key, .inr b)
  | _ => none

theorem eq_of_single?_text {o : Option Value} {key s : String}
    (h : single? o = some (key, .inl s)) : o = some (.map [(.str key, .str s)]) := by
  unfold single? at h
  split at h <;> simp_all

theorem eq_of_single?_truth {o : Option Value} {key : String} {b : Bool}
    (h : single? o = some (key, .inr b)) : o = some (.map [(.str key, .bool b)]) := by
  unfold single? at h
  split at h <;> simp_all

open Schemata.Configuration in
theorem handed_placeholder :
    (handed (placeholder "yes") path).Returns
      (some (.map (Flag.nonNulls.given [] [] (.str (Placeholder.written "FLAG".toList))))) := by
  have hentry : (single? <$> (handed (placeholder "yes") path).outcome).toOption =
      some (some ("require_non_nulls_by_default", .inl "$\x7bFLAG\x7d")) := by
    decide +kernel
  have hwritten : Placeholder.written "FLAG".toList = "$\x7bFLAG\x7d" := by decide
  obtain ⟨o, ho, hentry⟩ := exists_returns_of_toOption hentry
  rw [eq_of_single?_text hentry] at ho
  rw [hwritten, Flag.given, Value.put]
  exact ho

open Schemata.Configuration in
theorem handed_literal :
    (handed (literal "yes" true) path).Returns
      (some (.map (Flag.nonNulls.given [] [] (.bool true)))) := by
  have hentry : (single? <$> (handed (literal "yes" true) path).outcome).toOption =
      some (some ("require_non_nulls_by_default", .inr true)) := by
    decide +kernel
  obtain ⟨o, ho, hentry⟩ := exists_returns_of_toOption hentry
  rw [eq_of_single?_truth hentry] at ho
  rw [Flag.given, Value.put]
  exact ho

open Schemata.Configuration in
/-- A word for true means the same as the truth value. -/
theorem placeholder_yes : Truth.read "yes" = .ok true ∧
    loaded (placeholder "yes") path = loaded (literal "yes" true) path := by
  have hword : Truth.read "yes" = .ok true := by rfl
  have hname : (placeholder "yes").env.get? "FLAG" = some "yes" := by decide
  have hunset : ∀ name ∈ LogSettings.variableNames,
      (placeholder "yes").env.override? name = none := by decide +kernel
  have hregistry : (literal "yes" true).registry = (placeholder "yes").registry := rfl
  have henv : (literal "yes" true).env = (placeholder "yes").env := rfl
  obtain ⟨text, -, -, -, hnamed⟩ := Flag.placeholder_iff hregistry henv hunset hname hword
    handed_placeholder handed_literal
  exact ⟨hword, (hnamed (by decide) (by decide)).2.mpr (.inr rfl)⟩

open Schemata.Configuration in
/-- **A word for false turns the flag on**, while the truth value turns it off. -/
theorem placeholder_false :
    Truth.read "false" = .ok false ∧
      ((·.settings.requireNonNulls) <$> loaded (placeholder "false") path).toOption = some true ∧
      ((·.settings.requireNonNulls) <$> loaded (literal "false" false) path).toOption = some false ∧
      loaded (placeholder "false") path ≠ loaded (literal "false" false) path := by
  have hplaceholder : ((·.settings.requireNonNulls) <$>
      loaded (placeholder "false") path).toOption = some true := by decide +kernel
  have hliteral : ((·.settings.requireNonNulls) <$>
      loaded (literal "false" false) path).toOption = some false := by decide +kernel
  refine ⟨by rfl, hplaceholder, hliteral, fun h ↦ ?_⟩
  rw [h, hliteral] at hplaceholder
  exact absurd hplaceholder (by decide)

end FlagFile

end Schemata
