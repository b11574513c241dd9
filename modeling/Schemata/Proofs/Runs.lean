import Schemata.Proofs.DistinctNames
import Schemata.Proofs.LineEnds
import Schemata.Proofs.Preparation

/-!
# Runs write all or nothing

A run makes the whole text of a schema before it shows or writes anything (`Session.Drafts`). So a
run that fails shows no result and leaves every file but a new log file as it was, a run that
succeeds with a file to write to leaves exactly the text there, and the same run once more finds the
text and writes nothing, be it in the same process or in a new one: `Session.run_all_or_nothing`.
A run that is only asked for information touches nothing either.

Three things about the file to write to can spoil this, and the theorem excludes them
(`Session.Clear`). The lines that tell about the file quote its path as it is, so a path that the
console takes for tags that do not fit together makes the run fail after it has written
(`Runs.fails_after_writing`). A file that is there already is read as text, so a file with other
ends of lines counts as up to date. And a log that is kept in the same file starts it before
anything else can fail. The second run is the same one only if the first one left the places alike
where the configuration is looked for.
-/

namespace Schemata.CommandLine

open Traced
open Schemata.Configuration (SameSources)

/-! ## What is told -/

namespace Report

variable {console : String → Option String}

@[simp] theorem results_tell (r : Report) (line : String) :
    (r.tell console line).results = r.results := by
  unfold tell
  split <;> rfl

@[simp] theorem results_tellAll (r : Report) (lines : List String) :
    (r.tellAll console lines).results = r.results := by
  induction lines generalizing r with
  | nil => rfl
  | cons line lines ih =>
    rw [tellAll]
    split
    · rw [ih, results_tell]
    · exact results_tell r line

theorem exitCode_tell {r : Report} {line : String} (h : (console line).isSome) :
    (r.tell console line).exitCode = r.exitCode := by
  obtain ⟨text, htext⟩ := Option.isSome_iff_exists.mp h
  rw [tell, htext]

end Report

theorem Stop.report_fails (console : String → Option String) (stop : Stop) :
    (stop.report console).exitCode ≠ 0 ∧ (stop.report console).results = "" := by
  cases stop with
  | refused lines => exact ⟨by simp [report], Report.results_tellAll {} lines⟩
  | crashed failure => exact ⟨by simp [report], rfl⟩

/-! ## Delivering a text -/

section Delivery

variable {console : String → Option String} {files files' : FileStore} {output : Option String}
  {shown text : String} {r : Report}

/-- A report on what was written is made if it was written. -/
theorem put_of_reported {report : Report} {p : Path} (h : (match files.put p text with
      | .ok files => .ok (report, files)
      | .error e => .error (.crashed (.error e))) = (.ok (r, files') : Except Stop (Report × FileStore))) :
    files.put p text = .ok files' ∧ r = report := by
  split at h
  next hput =>
    obtain ⟨rfl, rfl⟩ := Prod.mk.inj (Except.ok.inj h)
    exact ⟨hput, rfl⟩
  · cases h

theorem deliver_eq_ok (h : deliver console files output shown text = .ok (r, files')) :
    output = none ∧ r = { results := shown } ∧ files' = files ∨
      ∃ path, output = some path ∧
        (files.put (Path.ofText path) text = .ok files' ∧
            r = Report.tell console {} (writtenLine (Path.ofText path)) ∨
          files.text (Path.ofText path) = .ok text ∧ files' = files ∧
            r = Report.tell console {} (upToDateLine (Path.ofText path))) := by
  unfold deliver at h
  split at h
  next =>
    obtain ⟨rfl, rfl⟩ := Prod.mk.inj (Except.ok.inj h)
    exact .inl ⟨rfl, rfl, rfl⟩
  next path =>
    refine .inr ⟨path, rfl, ?_⟩
    dsimp only at h
    split at h
    · split at h
      · cases h
      next found hfound =>
        split at h
        next heq =>
          obtain ⟨rfl, rfl⟩ := Prod.mk.inj (Except.ok.inj h)
          rw [← eq_of_beq heq]
          exact .inr ⟨hfound, rfl, rfl⟩
        · exact .inl (put_of_reported h)
    · exact .inl (put_of_reported h)

theorem deliver_of_text {path : String} (h : files.text (Path.ofText path) = .ok text) :
    deliver console files (some path) shown text =
      .ok (Report.tell console {} (upToDateLine (Path.ofText path)), files) := by
  have hthere : files.isThere (Path.ofText path) := by
    unfold FileStore.text at h
    cases hfile : files.file (Path.ofText path) with
    | error e =>
      rw [hfile] at h
      cases h
    | ok f => exact FileStore.isThere_of_file hfile
  unfold deliver
  dsimp only
  rw [if_pos hthere, h]
  dsimp only
  rw [if_pos (beq_self_eq_true text)]

theorem text_of_file {p : Path} {f : File} (h : files.file p = .ok f)
    (hfeeds : FeedsOnly f.content.toList) : files.text p = .ok f.content := by
  rw [FileStore.text, h]
  change Except.ok (String.ofList (plainLines f.content.toList)) = _
  rw [hfeeds.plainLines_eq, String.ofList_toList]

theorem fileAt?_deliver (h : deliver console files output shown text = .ok (r, files')) {l : Location}
    (hl : ∀ path, output = some path → l ≠ files.place (Path.ofText path)) :
    files'.fileAt? l = files.fileAt? l := by
  rcases deliver_eq_ok h with ⟨-, -, rfl⟩ | ⟨path, hpath, ⟨hput, -⟩ | ⟨-, rfl, -⟩⟩
  · rfl
  · exact FileStore.fileAt?_put hput (hl path hpath)
  · rfl

theorem continues_deliver (h : deliver console files output shown text = .ok (r, files')) :
    files'.Continues files := by
  rcases deliver_eq_ok h with ⟨-, -, rfl⟩ | ⟨path, -, ⟨hput, -⟩ | ⟨-, rfl, -⟩⟩
  · exact .refl _
  · exact FileStore.continues_put hput
  · exact .refl _

theorem results_deliver (h : deliver console files output shown text = .ok (r, files')) :
    r.results = if output.isNone then shown else "" := by
  rcases deliver_eq_ok h with ⟨rfl, rfl, -⟩ | ⟨path, rfl, ⟨-, rfl⟩ | ⟨-, -, rfl⟩⟩
  · rfl
  · exact Report.results_tell {} _
  · exact Report.results_tell {} _

/-- The file to write to holds the text, unless it only reads as the text. -/
theorem file_deliver {path : String} (h : deliver console files (some path) shown text = .ok (r, files'))
    (hfeeds : ∀ f, files.file (Path.ofText path) = .ok f → FeedsOnly f.content.toList) :
    ∃ time, files'.file (Path.ofText path) = .ok ⟨text, time⟩ := by
  rcases deliver_eq_ok h with ⟨hnone, -⟩ | ⟨path', hpath, ⟨hput, -⟩ | ⟨hread, rfl, -⟩⟩
  · cases hnone
  · obtain rfl := Option.some.inj hpath
    exact FileStore.file_put hput
  · obtain rfl := Option.some.inj hpath
    cases hfile : files'.file (Path.ofText path) with
    | error e =>
      rw [FileStore.text, hfile] at hread
      cases hread
    | ok f =>
      rw [text_of_file hfile (hfeeds f hfile)] at hread
      obtain rfl := Except.ok.inj hread
      exact ⟨f.modified, rfl⟩

/-- A text that is in the file needs no second delivery. -/
theorem exists_deliver_again (htext : FeedsOnly text.toList)
    (hfile : ∀ path, output = some path →
      ∃ time, files.file (Path.ofText path) = .ok ⟨text, time⟩) :
    ∃ r, deliver console files output shown text = .ok (r, files) := by
  cases output with
  | none => exact ⟨_, rfl⟩
  | some path =>
    obtain ⟨time, hfile⟩ := hfile path rfl
    exact ⟨_, deliver_of_text (text_of_file hfile htext)⟩

end Delivery

/-! ## The text of a schema -/

theorem feedsOnly_endLine {text : String} (h : FeedsOnly text.toList) :
    FeedsOnly (endLine text).toList := by
  unfold endLine
  split
  · exact h
  · rw [String.toList_append]
    exact h.append (by decide)

theorem getLast?_endLine (text : String) : (endLine text).toList.getLast? = some '\n' := by
  unfold endLine
  split
  next h => exact eq_of_beq h
  · rw [String.toList_append]
    exact List.getLast?_concat

theorem text_eq_ok_iff {s : Session} {c : Configuration} {command : Command} {text : String} :
    s.text c command = .ok text ↔ ∃ schema plain, (s.schema c command.task).Returns schema ∧
      Output.format (.map schema) command.format = .ok (.text plain) ∧ text = endLine plain := by
  unfold Session.text
  rw [bind_eq_ok_iff]
  refine exists_congr fun schema ↦ ?_
  rw [valueOf_eq_ok_iff, schemaText]
  constructor
  · rintro ⟨hschema, h⟩
    split at h
    next plain hplain => exact ⟨plain, hschema, hplain, (Except.ok.inj h).symm⟩
    all_goals cases h
  · rintro ⟨plain, hschema, hplain, rfl⟩
    rw [hplain]
    exact ⟨hschema, rfl⟩

/-! ## Runs -/

/-- What a run has made before it shows or writes anything. -/
structure Draft where
  /-- The general options. -/
  options : OptionValues
  /-- The command. -/
  command : Command
  /-- The configuration. -/
  configuration : Configuration
  /-- The session with the log set up. -/
  session : Session
  /-- The schema. -/
  schema : Entries
  /-- The schema in its format. -/
  text : String

/-- The general options and the command of a command line. -/
def ordered? (args : List String) : Option (OptionValues × Command) := do
  let (options, rest) ← (readGeneral args).toOption
  let command ← (readCommand rest).toOption
  return (options, command)

/-- The path of the file that a command line asks to write to. -/
def outputPath? (args : List String) : Option Path :=
  (ordered? args).bind fun (_, command) ↦ command.output.map Path.ofText

/-- The general options of a command line that asks for no information. -/
def generalOptions? (args : List String) : Option OptionValues :=
  (readGeneral args).toOption.map (·.1)

/-- A run gets as far as a draft. -/
structure Session.Drafts (s : Session) (args : List String) (d : Draft) : Prop where
  /-- The arguments are read. -/
  ordered : ordered? args = some (d.options, d.command)
  /-- The configuration is loaded and the log set up. -/
  prepared : ∃ r, Prepared s d.options d.configuration r d.session
  /-- The types are found and the schema is made. -/
  made : (d.session.schema d.configuration d.command.task).Returns d.schema
  /-- The format is one for files. -/
  formatted : Output.format (.map d.schema) d.command.format = .ok (.text d.text)

section Runs

variable {s t after : Session} {args : List String} {d : Draft}

theorem toOption_eq_some_iff {ε α : Type} {x : Except ε α} {a : α} :
    x.toOption = some a ↔ x = .ok a := by
  cases x <;> simp [Except.toOption]

theorem ordered?_eq_some_iff {options : OptionValues} {command : Command} :
    ordered? args = some (options, command) ↔
      ∃ rest, readGeneral args = .ok (options, rest) ∧ readCommand rest = .ok command := by
  constructor
  · intro h
    obtain ⟨⟨_, rest⟩, hgeneral, h⟩ := Option.bind_eq_some_iff.mp h
    obtain ⟨_, hcommand, h⟩ := Option.bind_eq_some_iff.mp h
    obtain ⟨rfl, rfl⟩ := Prod.mk.inj (Option.some.inj h)
    exact ⟨rest, toOption_eq_some_iff.mp hgeneral, toOption_eq_some_iff.mp hcommand⟩
  · rintro ⟨rest, hgeneral, hcommand⟩
    exact Option.bind_eq_some_iff.mpr ⟨(options, rest), toOption_eq_some_iff.mpr hgeneral,
      Option.bind_eq_some_iff.mpr ⟨command, toOption_eq_some_iff.mpr hcommand, rfl⟩⟩

/-- The text of a command is made and delivered. -/
theorem carryOut_eq_ok_iff {c : Configuration} {command : Command} {report : Report}
    {s' : Session} : s.carryOut c command = .ok (report, s') ↔
      ∃ text files, s.text c command = .ok text ∧
        deliver s.console s.world.files command.output (s.shown command text) text =
          .ok (report, files) ∧
        s' = { s with world := { s.world with files } } := by
  unfold Session.carryOut
  rw [bind_eq_ok_iff]
  constructor
  · rintro ⟨text, htext, h⟩
    obtain ⟨⟨_, files⟩, hdeliver, h⟩ := bind_eq_ok_iff.mp h
    obtain ⟨rfl, rfl⟩ := Prod.mk.inj (Except.ok.inj h)
    exact ⟨text, files, htext, hdeliver, rfl⟩
  · rintro ⟨text, files, htext, hdeliver, rfl⟩
    exact ⟨text, htext, bind_eq_ok_iff.mpr ⟨(report, files), hdeliver, rfl⟩⟩

/-- A run delivers its draft. -/
theorem run_of_drafts (h : s.Drafts args d) {report : Report} {files : FileStore}
    (hdeliver : deliver d.session.console d.session.world.files d.command.output
      (d.session.shown d.command (endLine d.text)) (endLine d.text) = .ok (report, files)) :
    s.run args = (report, { d.session with world := { d.session.world with files } }) := by
  obtain ⟨rest, hgeneral, hcommand⟩ := ordered?_eq_some_iff.mp h.ordered
  have htext : d.session.text d.configuration d.command = .ok (endLine d.text) :=
    text_eq_ok_iff.mpr ⟨d.schema, d.text, h.made, h.formatted, rfl⟩
  rw [Session.run, hgeneral]
  dsimp only
  rw [prepare_eq_ok_iff.mpr h.prepared]
  dsimp only
  rw [hcommand]
  dsimp only
  rw [carryOut_eq_ok_iff.mpr ⟨endLine d.text, files, htext, hdeliver, rfl⟩]

/-- A run gets as far as a draft and delivers it. -/
structure Session.Delivers (s : Session) (args : List String) (d : Draft) (report : Report)
    (after : Session) : Prop where
  /-- The draft is made. -/
  drafts : s.Drafts args d
  /-- Its text is delivered. -/
  deliver : deliver d.session.console d.session.world.files d.command.output
    (d.session.shown d.command (endLine d.text)) (endLine d.text) = .ok (report, after.world.files)
  /-- Nothing else happens. -/
  rest : after = { d.session with world := { d.session.world with files := after.world.files } }

/-- A run stops before it is prepared or after that. -/
def Session.StopsAt (s : Session) (args : List String) (after : Session) : Prop :=
  after = s ∨ ∃ options rest c r,
    readGeneral args = .ok (options, rest) ∧ Prepared s options c r after

/-- The arguments of a run turn out to be no command, at once or when it has been prepared. -/
inductive Session.Turns (s : Session) (args : List String) (detour : Detour) : Session → Prop where
  | atOnce (h : readGeneral args = .error detour) : s.Turns args detour s
  | prepared {options rest c r after} (hgeneral : readGeneral args = .ok (options, rest))
      (h : Prepared s options c r after) (hrest : readCommand rest = .error detour) :
      s.Turns args detour after

theorem Session.Turns.stopsAt {detour : Detour} (h : s.Turns args detour after) :
    s.StopsAt args after := by
  cases h with
  | atOnce => exact .inl rfl
  | prepared hgeneral h => exact .inr ⟨_, _, _, _, hgeneral, h⟩

theorem Session.Turns.run_eq {detour : Detour} (h : s.Turns args detour after) :
    s.run args = (after.answer detour, after) := by
  cases h with
  | atOnce h => rw [Session.run, h]
  | prepared hgeneral h hrest =>
    rw [Session.run, hgeneral]
    dsimp only
    rw [prepare_eq_ok_iff.mpr ⟨_, h⟩]
    dsimp only
    rw [hrest]

theorem Session.Turns.ordered?_eq {detour : Detour} (h : s.Turns args detour after) :
    ordered? args = none := by
  cases h with
  | atOnce h => simp [ordered?, h, Except.toOption]
  | prepared hgeneral _ hrest => simp [ordered?, hgeneral, hrest, Except.toOption]

theorem Session.Turns.outputPath?_eq {detour : Detour} (h : s.Turns args detour after) :
    outputPath? args = none := by
  rw [outputPath?, h.ordered?_eq]
  rfl

theorem Session.Turns.information_eq {detour : Detour} (h : s.Turns args detour after) :
    s.information = after.information := by
  cases h with
  | atOnce => rfl
  | prepared _ h => rw [h.rest]

/-- A run delivers a draft, or its arguments are no command, or it stops; unless it delivers it has
been prepared at most. -/
theorem run_cases {report : Report} (hrun : s.run args = (report, after)) :
    (∃ d, s.Delivers args d report after) ∨
      (∃ detour, report = after.answer detour ∧ s.Turns args detour after) ∨
      (∃ (console : String → Option String) (stop : Stop), report = stop.report console) ∧
        s.StopsAt args after := by
  unfold Session.run at hrun
  cases hgeneral : readGeneral args with
  | error detour =>
    rw [hgeneral] at hrun
    obtain ⟨rfl, rfl⟩ := Prod.mk.inj hrun
    exact .inr (.inl ⟨detour, rfl, .atOnce hgeneral⟩)
  | ok general =>
    obtain ⟨options, rest⟩ := general
    rw [hgeneral] at hrun
    dsimp only at hrun
    cases hprepare : s.prepare options with
    | error stop =>
      rw [hprepare] at hrun
      obtain ⟨rfl, rfl⟩ := Prod.mk.inj hrun
      exact .inr (.inr ⟨⟨_, stop, rfl⟩, .inl rfl⟩)
    | ok prepared =>
      obtain ⟨c, s'⟩ := prepared
      obtain ⟨r, hprepared⟩ := prepare_eq_ok_iff.mp hprepare
      rw [hprepare] at hrun
      dsimp only at hrun
      cases hcommand : readCommand rest with
      | error detour =>
        rw [hcommand] at hrun
        obtain ⟨rfl, rfl⟩ := Prod.mk.inj hrun
        exact .inr (.inl ⟨detour, rfl, .prepared hgeneral hprepared hcommand⟩)
      | ok command =>
        rw [hcommand] at hrun
        dsimp only at hrun
        cases hresult : s'.carryOut c command with
        | error stop =>
          rw [hresult] at hrun
          obtain ⟨rfl, rfl⟩ := Prod.mk.inj hrun
          exact .inr (.inr ⟨⟨_, stop, rfl⟩, .inr ⟨options, rest, c, r, hgeneral, hprepared⟩⟩)
        | ok result =>
          rw [hresult] at hrun
          dsimp only at hrun
          obtain ⟨text, files, htext, hdeliver, hafter⟩ :=
            carryOut_eq_ok_iff.mp (hresult.trans (congrArg Except.ok hrun))
          obtain ⟨schema, plain, hmade, hformatted, rfl⟩ := text_eq_ok_iff.mp htext
          have hordered := ordered?_eq_some_iff.mpr ⟨rest, hgeneral, hcommand⟩
          subst hafter
          exact .inl ⟨⟨options, command, c, s', schema, plain⟩,
            ⟨hordered, ⟨r, hprepared⟩, hmade, hformatted⟩, hdeliver, rfl⟩

theorem schema_congr {c : Configuration} {task : Task} (htable : t.table = s.table)
    (hregistry : t.world.registry = s.world.registry) : t.schema c task = s.schema c task := by
  unfold Session.schema Session.objects
  rw [htable, hregistry]

end Runs

/-! ## All or nothing -/

/-- The place of the file that the log of a run is kept in. -/
def Session.logPlace? (s : Session) (args : List String) : Option Location := do
  let options ← generalOptions? args
  let (c, _) ← (s.prepare options).toOption
  let r ← (requestOf options c).toOption
  let path ← r.normal.outputFile
  return s.world.files.place (Path.ofText path)

/-- A run leaves a file as it was, unless its log is kept there. -/
def Session.Spares (s : Session) (args : List String) (after : Session) (l : Location) : Prop :=
  s.logPlace? args ≠ some l → after.world.files.fileAt? l = s.world.files.fileAt? l

/-- Nothing about the file to write to spoils the run. -/
structure Session.Clear (s : Session) (args : List String) (p : Path) : Prop where
  /-- The console can print that the file was written. -/
  written : (s.console (writtenLine p)).isSome
  /-- The console can print that the file is left alone. -/
  upToDate : (s.console (upToDateLine p)).isSome
  /-- A file that is there ends its lines with line feeds. -/
  feeds : ∀ f, s.world.files.fileAt? (s.world.files.place p) = some f → FeedsOnly f.content.toList
  /-- The log is kept elsewhere. -/
  apart : s.logPlace? args ≠ some (s.world.files.place p)

/-- A session in which a run is done once more with the files as they were left: in the same
process, or in a new one that starts as the first one did. -/
inductive Session.Repeats (s after : Session) : Session → Prop where
  | same : s.Repeats after after
  | new : s.Repeats after { s with world := after.world }

section AllOrNothing

variable {s t after : Session} {args : List String} {d : Draft} {report : Report}

/-- A prepared run has changed no file but that of its log, which may have been started. -/
theorem Prepared.fileAt?_cases {options : OptionValues} {rest : List String} {c : Configuration}
    {r : LogRequest} (hgeneral : readGeneral args = .ok (options, rest))
    (h : Prepared s options c r after) (l : Location) :
    after.world.files.fileAt? l = s.world.files.fileAt? l ∨
      s.logPlace? args = some l ∧ ∃ time, after.world.files.fileAt? l = some ⟨"", time⟩ := by
  rcases h.fileAt?_eq l with hsame | ⟨⟨path, hpath, rfl⟩, hnew⟩
  · exact .inl hsame
  · refine .inr ⟨?_, hnew⟩
    have hprepare := prepare_eq_ok_iff.mpr ⟨r, h⟩
    simp [Session.logPlace?, generalOptions?, hgeneral, hprepare, h.request, hpath,
      Except.toOption]

/-- A delivery that nothing spoils succeeds. -/
theorem exitCode_deliver {console : String → Option String} {files files' : FileStore}
    {output : Option String} {shown text : String}
    (htold : ∀ path, output = some path → (console (writtenLine (Path.ofText path))).isSome ∧
      (console (upToDateLine (Path.ofText path))).isSome)
    (h : deliver console files output shown text = .ok (report, files')) :
    report.exitCode = 0 := by
  rcases deliver_eq_ok h with ⟨-, rfl, -⟩ | ⟨path, hpath, ⟨-, rfl⟩ | ⟨-, -, rfl⟩⟩
  · rfl
  · rw [Report.exitCode_tell (htold path hpath).1]
  · rw [Report.exitCode_tell (htold path hpath).2]

theorem Session.StopsAt.spares (h : s.StopsAt args after) (l : Location) :
    s.Spares args after l := by
  intro hlog
  rcases h with rfl | ⟨options, rest, c, r, hgeneral, hprepared⟩
  · rfl
  · rcases hprepared.fileAt?_cases hgeneral l with hsame | ⟨hl, -⟩
    · exact hsame
    · exact absurd hl hlog

/-- A run that is repeated is prepared in the same way. -/
theorem Prepared.repeated {options : OptionValues} {c : Configuration} {r : LogRequest}
    {s' : Session} {files : FileStore} (h : Prepared s options c r s')
    (hsources : SameSources files s.world (configPath options))
    (hlater : files.Continues s'.world.files)
    (ht : s.Repeats { s' with world := { s'.world with files } } t) :
    ∃ cache log, Prepared t options c r
      { s' with cache, log, world := { s'.world with files } } := by
  have hrest : ∀ cache log, { s' with cache, log, world := { s'.world with files } } =
      { s with cache, log, world := { s.world with files } } := by
    intro cache log
    rw [h.rest]
  have hworld : { s'.world with files } = { s.world with files } := by
    rw [h.rest]
  simp only [hrest]
  cases ht with
  | same =>
    rw [hworld]
    exact h.again hsources
  | new =>
    dsimp only
    rw [hworld]
    exact h.again_new hsources hlater

/-- A run that is repeated makes the same draft. -/
theorem Session.Drafts.again {files : FileStore} (h : s.Drafts args d)
    (hsources : SameSources files s.world (configPath d.options))
    (hlater : files.Continues d.session.world.files)
    (ht : s.Repeats { d.session with world := { d.session.world with files } } t) :
    ∃ cache log, t.Drafts args { d with session := { d.session with
      cache, log, world := { d.session.world with files } } } := by
  obtain ⟨r, hprepared⟩ := h.prepared
  obtain ⟨cache, log, ht'⟩ := hprepared.repeated hsources hlater ht
  exact ⟨cache, log, h.ordered, ⟨r, ht'⟩, (schema_congr rfl rfl).symm ▸ h.made, h.formatted⟩

namespace Session.Delivers

theorem outputPath?_eq (h : s.Delivers args d report after) :
    outputPath? args = d.command.output.map Path.ofText := by
  rw [outputPath?, h.drafts.ordered]
  rfl

theorem outputPath?_of_output (h : s.Delivers args d report after) {path : String}
    (hpath : d.command.output = some path) : outputPath? args = some (Path.ofText path) := by
  rw [h.outputPath?_eq, hpath]
  rfl

theorem console_eq (h : s.Delivers args d report after) : d.session.console = s.console := by
  obtain ⟨r, hprepared⟩ := h.drafts.prepared
  rw [hprepared.rest]

theorem results_eq (h : s.Delivers args d report after) : report.results =
    if (outputPath? args).isNone then d.session.shown d.command (endLine d.text) else "" := by
  rw [results_deliver h.deliver, h.outputPath?_eq, Option.isNone_map]

/-- What is told of the file to write to can be told. -/
theorem told (h : s.Delivers args d report after)
    (hclear : ∀ p, outputPath? args = some p → s.Clear args p) {path : String}
    (hpath : d.command.output = some path) :
    (d.session.console (writtenLine (Path.ofText path))).isSome ∧
      (d.session.console (upToDateLine (Path.ofText path))).isSome := by
  have hclear := hclear _ (h.outputPath?_of_output hpath)
  rw [h.console_eq]
  exact ⟨hclear.written, hclear.upToDate⟩

theorem exitCode_eq (h : s.Delivers args d report after)
    (hclear : ∀ p, outputPath? args = some p → s.Clear args p) : report.exitCode = 0 :=
  exitCode_deliver (fun _ ↦ h.told hclear) h.deliver

theorem place_eq (h : s.Delivers args d report after) (p : Path) :
    d.session.world.files.place p = s.world.files.place p := by
  obtain ⟨r, hprepared⟩ := h.drafts.prepared
  exact FileStore.place_congr hprepared.continues.here p

theorem fileAt?_cases (h : s.Delivers args d report after) (l : Location) :
    d.session.world.files.fileAt? l = s.world.files.fileAt? l ∨
      s.logPlace? args = some l ∧ ∃ time, d.session.world.files.fileAt? l = some ⟨"", time⟩ := by
  obtain ⟨r, hprepared⟩ := h.drafts.prepared
  obtain ⟨rest, hgeneral, -⟩ := ordered?_eq_some_iff.mp h.drafts.ordered
  exact hprepared.fileAt?_cases hgeneral l

theorem spares (h : s.Delivers args d report after) {l : Location}
    (hl : ∀ p, outputPath? args = some p → l ≠ s.world.files.place p) : s.Spares args after l := by
  intro hlog
  have hdelivered : after.world.files.fileAt? l = d.session.world.files.fileAt? l := by
    refine fileAt?_deliver h.deliver fun path hpath ↦ ?_
    rw [h.place_eq]
    exact hl _ (h.outputPath?_of_output hpath)
  rcases h.fileAt?_cases l with hsame | ⟨hl, -⟩
  · exact hdelivered.trans hsame
  · exact absurd hl hlog

theorem file_eq (h : s.Delivers args d report after) {path : String}
    (hpath : d.command.output = some path) (hclear : s.Clear args (Path.ofText path)) :
    ∃ time, after.world.files.file (Path.ofText path) = .ok ⟨endLine d.text, time⟩ := by
  have hdeliver := h.deliver
  rw [hpath] at hdeliver
  refine file_deliver hdeliver fun f hf ↦ ?_
  have hat := FileStore.fileAt?_of_file hf
  rw [h.place_eq] at hat
  rcases h.fileAt?_cases (s.world.files.place (Path.ofText path)) with hsame | ⟨hlog, -⟩
  · exact hclear.feeds f (hsame.symm.trans hat)
  · exact absurd hlog hclear.apart

/-- The run delivers nothing new when it is repeated: the text is shown again, or found in the
file. -/
theorem again (h : s.Delivers args d report after)
    (hclear : ∀ p, outputPath? args = some p → s.Clear args p)
    (hsources : SameSources after.world.files s.world (configPath d.options))
    (ht : s.Repeats after t) : (t.run args).1.exitCode = 0 ∧
      (t.run args).1.results = report.results ∧ (t.run args).2.world = after.world := by
  rw [h.rest] at ht
  obtain ⟨cache, log, ht'⟩ := h.drafts.again hsources (continues_deliver h.deliver) ht
  have htext : FeedsOnly (endLine d.text).toList :=
    feedsOnly_endLine (Output.feedsOnly_format h.drafts.formatted)
  obtain ⟨report', hagain⟩ : ∃ report', CommandLine.deliver d.session.console after.world.files
      d.command.output (d.session.shown d.command (endLine d.text)) (endLine d.text) =
        .ok (report', after.world.files) :=
    exists_deliver_again htext fun path hpath ↦
      h.file_eq hpath (hclear _ (h.outputPath?_of_output hpath))
  rw [run_of_drafts ht' hagain]
  refine ⟨exitCode_deliver (fun _ ↦ h.told hclear) hagain, ?_, ?_⟩
  · exact (results_deliver hagain).trans (results_deliver h.deliver).symm
  · dsimp only
    rw [h.rest]

end Session.Delivers

/-- Information that is asked for once more is given once more. -/
theorem Session.Turns.again {detour : Detour} (h : s.Turns args detour after)
    (hsources : ∀ options, generalOptions? args = some options →
      SameSources after.world.files s.world (configPath options))
    (ht : s.Repeats after t) :
    ∃ t', t.Turns args detour t' ∧ t'.world = after.world ∧ t'.information = after.information := by
  cases h with
  | atOnce h => cases ht <;> exact ⟨_, .atOnce h, rfl, rfl⟩
  | @prepared options rest c r _ hgeneral hprepared hrest =>
    have hoptions : generalOptions? args = some options := by
      simp [generalOptions?, hgeneral, Except.toOption]
    obtain ⟨cache, log, ht'⟩ := hprepared.repeated (hsources options hoptions) (.refl _) ht
    exact ⟨_, .prepared hgeneral ht' hrest, rfl, rfl⟩

/-- **Runs write all or nothing, once.** A run that fails shows no result and leaves every file as
it was, but for a log file that it may have started. A run that succeeds gives the information that
it is asked for and leaves every file alone in the same way, or it has made its draft, and shows it,
or leaves exactly its text in the file to write to and nothing else. The same run once more succeeds
again, shows the same and changes nothing. -/
theorem Session.run_all_or_nothing (s : Session) (args : List String)
    (hclear : ∀ p, outputPath? args = some p → s.Clear args p)
    (hrun : s.run args = (report, after)) :
    (report.exitCode ≠ 0 → report.results = "" ∧ (∀ l, s.Spares args after l) ∧
      ∀ p, outputPath? args = some p → after.world.files.fileAt? (s.world.files.place p) =
        s.world.files.fileAt? (s.world.files.place p)) ∧
    (report.exitCode = 0 →
      ((∃ topic, s.Turns args (.asks topic) after ∧ report.results = s.information topic ∧
          ordered? args = none ∧ ∀ l, s.Spares args after l) ∨
        ∃ d, s.Drafts args d ∧
          (outputPath? args = none →
            report.results = d.session.shown d.command (endLine d.text) ∧
              ∀ l, s.Spares args after l) ∧
          ∀ p, outputPath? args = some p →
            report.results = "" ∧
              (∃ time, after.world.files.file p = .ok ⟨endLine d.text, time⟩) ∧
              (endLine d.text).toList.getLast? = some '\n' ∧
              ∀ l, l ≠ s.world.files.place p → s.Spares args after l) ∧
      ((∀ options, generalOptions? args = some options →
          SameSources after.world.files s.world (configPath options)) →
        ∀ t, s.Repeats after t → (t.run args).1.exitCode = 0 ∧
          (t.run args).1.results = report.results ∧ (t.run args).2.world = after.world)) := by
  rcases run_cases hrun with ⟨d, hd⟩ | ⟨detour, rfl, hturns⟩ | ⟨⟨console, stop, rfl⟩, hstops⟩
  · have hsuccess := hd.exitCode_eq hclear
    refine ⟨fun hfails ↦ absurd hsuccess hfails, fun _ ↦ ⟨.inr ⟨d, hd.drafts, ?_, ?_⟩, ?_⟩⟩
    · intro hnone
      refine ⟨?_, fun l ↦ hd.spares fun p hp ↦ ?_⟩
      · rw [hd.results_eq, hnone]
        rfl
      · rw [hnone] at hp
        cases hp
    · intro p hp
      obtain ⟨path, hpath, rfl⟩ := Option.map_eq_some_iff.mp (hd.outputPath?_eq.symm.trans hp)
      refine ⟨?_, hd.file_eq hpath (hclear _ hp), getLast?_endLine d.text, fun l hl ↦ ?_⟩
      · rw [hd.results_eq, hp]
        rfl
      · refine hd.spares fun p' hp' ↦ ?_
        obtain rfl := Option.some.inj (hp.symm.trans hp')
        exact hl
    · intro hsources t ht
      obtain ⟨rest, hgeneral, -⟩ := ordered?_eq_some_iff.mp hd.drafts.ordered
      refine hd.again hclear (hsources d.options ?_) ht
      simp [generalOptions?, hgeneral, Except.toOption]
  · have hspares := hturns.stopsAt.spares
    cases detour with
    | misfit =>
      refine ⟨fun _ ↦ ⟨rfl, hspares, fun p hp ↦ ?_⟩, fun hsuccess ↦ nomatch hsuccess⟩
      exact nomatch hturns.outputPath?_eq.symm.trans hp
    | asks topic =>
      refine ⟨fun hfails ↦ absurd rfl hfails, fun _ ↦
        ⟨.inl ⟨topic, hturns, ?_, ?_, hspares⟩, fun hsources t ht ↦ ?_⟩⟩
      · rw [hturns.information_eq]
        rfl
      · exact hturns.ordered?_eq
      · obtain ⟨t', ht', hworld, hinformation⟩ := hturns.again hsources ht
        rw [ht'.run_eq]
        refine ⟨rfl, ?_, hworld⟩
        change t'.information topic = after.information topic
        rw [hinformation]
  · obtain ⟨hfails, hresults⟩ := stop.report_fails console
    exact ⟨fun _ ↦ ⟨hresults, hstops.spares, fun p hp ↦ hstops.spares _ (hclear p hp).apart⟩,
      fun hsuccess ↦ absurd hsuccess hfails⟩

end AllOrNothing

/-! ## Runs on a class with one field -/

namespace Runs

/-- A class with a field. -/
def declarations : List ClassSource := [
  { name := ⟨"app", "Day"⟩, kind := .record
    fields := [{ name := "n", hint := .named ⟨"builtins", "int"⟩ }] }]

/-- The table of the class. -/
def table : ClassTable := ClassTable.declared { moduleName := "app" } declarations

/-- A session with the class. -/
def session (files : FileStore) : Session where
  world := { registry := [table.asModule], files }
  table

/-- The arguments that ask to write the schema of the class to a file. -/
def argsFor (path : String) : List String := ["schema", "json", "app:Day", "-o", path]

/-- The file of a project that keeps a log. -/
def project : File := ⟨"[tool.typeschema.logging]\noutput_file = \"run.log\"\n", 1⟩

/-- The files of the project, with an old file where a schema is to be written. -/
def projectFiles : FileStore where
  files := [(["work", "pyproject.toml"], project),
    (["work", "schemas", "day.json"], ⟨"\x7b\x7d\n", 2⟩)]
  here := ["work"]
  newest := 2

/-- The run that writes the schema into the project. -/
def projectRun : Report × Session := (session projectFiles).run (argsFor "schemas/day.json")

/-- The schema as text. -/
def dayText : String :=
  "\x7b\n" ++
  "  \"$schema\": \"http://json-schema.org/draft-07/schema#\",\n" ++
  "  \"type\": \"object\",\n" ++
  "  \"additionalProperties\": false,\n" ++
  "  \"properties\": \x7b\n" ++
  "    \"n\": \x7b\n" ++
  "      \"type\": \"integer\"\n" ++
  "    \x7d\n" ++
  "  \x7d,\n" ++
  "  \"required\": [\n" ++
  "    \"n\"\n" ++
  "  ]\n" ++
  "\x7d\n"

/-- The files after the run. -/
def writtenFiles : FileStore where
  files := [(["work", "schemas", "day.json"], ⟨dayText, 4⟩), (["work", "run.log"], ⟨"", 3⟩),
    (["work", "pyproject.toml"], project)]
  here := ["work"]
  newest := 4

theorem projectRun_eq : (projectRun.1.exitCode, projectRun.1.results, projectRun.1.messages,
    projectRun.2.world.files) = (0, "", "✓ Wrote schemas/day.json\n", writtenFiles) := by
  decide +kernel

theorem clear_project {p : Path} (hp : outputPath? (argsFor "schemas/day.json") = some p) :
    (session projectFiles).Clear (argsFor "schemas/day.json") p := by
  have hpath : outputPath? (argsFor "schemas/day.json") =
      some (Path.ofText "schemas/day.json") := by
    decide +kernel
  obtain rfl := Option.some.inj (hpath.symm.trans hp)
  have hfile : projectFiles.fileAt? (projectFiles.place (Path.ofText "schemas/day.json")) =
      some ⟨"\x7b\x7d\n", 2⟩ := by
    decide +kernel
  refine ⟨by decide +kernel, by decide +kernel, fun f hf ↦ ?_, by decide +kernel⟩
  obtain rfl := Option.some.inj (hfile.symm.trans hf)
  decide

theorem sameSources_project {options : OptionValues}
    (h : generalOptions? (argsFor "schemas/day.json") = some options) :
    SameSources writtenFiles (session projectFiles).world (configPath options) := by
  have hoptions : generalOptions? (argsFor "schemas/day.json") = some [] := by decide +kernel
  obtain rfl := Option.some.inj (hoptions.symm.trans h)
  have hlooked : Configuration.lookedAt (session projectFiles).world none =
      [⟨false, ["pyproject.toml"]⟩, ⟨true, ["work", "pyproject.toml"]⟩] := by
    decide +kernel
  refine ⟨rfl, fun p hp ↦ ?_⟩
  change p ∈ Configuration.lookedAt _ none at hp
  rw [hlooked] at hp
  rcases List.mem_pair.mp hp with rfl | rfl
  · exact ⟨rfl, rfl, rfl⟩
  · exact ⟨rfl, rfl, rfl⟩

/-- The schema takes the place of the old file, and the same run once more writes nothing. -/
theorem project_writes_once : projectRun.1.exitCode = 0 ∧
    projectRun.1.messages = "✓ Wrote schemas/day.json\n" ∧
    (∃ d, (session projectFiles).Drafts (argsFor "schemas/day.json") d ∧
      ∃ time, writtenFiles.file (Path.ofText "schemas/day.json") = .ok ⟨endLine d.text, time⟩) ∧
    ∀ t, (session projectFiles).Repeats projectRun.2 t →
      (t.run (argsFor "schemas/day.json")).1.exitCode = 0 ∧
        (t.run (argsFor "schemas/day.json")).2.world = projectRun.2.world := by
  have hpath : outputPath? (argsFor "schemas/day.json") =
      some (Path.ofText "schemas/day.json") := by
    decide +kernel
  have hrun : projectRun = (projectRun.1, projectRun.2) := (Prod.eta projectRun).symm
  obtain ⟨hsucceeds, hreport⟩ := Prod.mk.inj projectRun_eq
  obtain ⟨-, hreport⟩ := Prod.mk.inj hreport
  obtain ⟨hmessages, hfiles⟩ := Prod.mk.inj hreport
  obtain ⟨-, hsuccess⟩ := Session.run_all_or_nothing (session projectFiles)
    (argsFor "schemas/day.json") (fun p hp ↦ clear_project hp) hrun
  rw [hfiles] at hsuccess
  obtain ⟨hdone, hagain⟩ := hsuccess hsucceeds
  obtain ⟨d, hd, -, hwritten⟩ := hdone.resolve_left fun ⟨_, _, _, hnone, _⟩ ↦ by
    rw [outputPath?, hnone] at hpath
    cases hpath
  obtain ⟨-, hfile, -⟩ := hwritten _ hpath
  refine ⟨hsucceeds, hmessages, ⟨d, hd, hfile⟩, fun t ht ↦ ?_⟩
  obtain ⟨hcode, -, hworld⟩ := hagain (fun _ ↦ sameSources_project) t ht
  exact ⟨hcode, hworld⟩

/-- The files of a directory with nothing in it. -/
def scratch : FileStore where
  here := ["work"]
  folders := [["work"]]

/-- **A run can fail after it has written.** The path ends in what looks like a tag that closes
nothing; so the line about the file cannot be told, and the run fails, but the file is there. -/
theorem fails_after_writing :
    outputPath? (argsFor "x[/red].json") = some (Path.ofText "x[/red].json") ∧
      ((session scratch).run (argsFor "x[/red].json")).1.exitCode ≠ 0 ∧
      ((session scratch).run (argsFor "x[/red].json")).1.escaped.isSome ∧
      scratch.fileAt? (scratch.place (Path.ofText "x[/red].json")) = none ∧
      ((session scratch).run (argsFor "x[/red].json")).2.world.files.fileAt?
          (scratch.place (Path.ofText "x[/red].json")) = some ⟨dayText, 1⟩ := by
  decide +kernel

end Runs

end Schemata.CommandLine
