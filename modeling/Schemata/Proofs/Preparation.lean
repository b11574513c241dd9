import Schemata.CommandLine.Run
import Schemata.Proofs.FileEffects
import Schemata.Proofs.Handlers
import Schemata.Proofs.Reloading

/-!
# The preparation of a run

Before it reads its command, a run loads the configuration and sets the log up. What this settles
is stated by `Prepared`: the configuration is one that loading returns, the log is set up for it,
and no file has changed but the log file, which may be new (`Prepared.fileAt?_eq`).

The preparation can be repeated where the sources of the configuration look the same: in the same
process, where the configuration is cached and the log has nothing to do (`Prepared.again`), and in
a new one, where both start as they did before and find the log file as it was left
(`Prepared.again_new`). Neither changes a file.
-/

namespace Schemata.CommandLine

open Traced
open Schemata.Configuration (SameSources)

variable {s s' : Session} {options : OptionValues} {c : Configuration} {r : LogRequest}

/-- The path that the options name for the configuration. -/
def configPath (options : OptionValues) : Option Path := (options.get? .config).map Path.ofText

/-- What is known of a run once it is prepared. -/
structure Prepared (s : Session) (options : OptionValues) (c : Configuration) (r : LogRequest)
    (s' : Session) : Prop where
  /-- The configuration is loaded. -/
  load : ∃ l, (s.cache.load s.world (configPath options)).Returns (l, s'.cache) ∧
    l.configuration = c
  /-- It says what is wanted of the log. -/
  request : requestOf options c = .ok r
  /-- The log is set up. -/
  log : s.log.configure (openLog s.world.files) false r = (.ok (), s'.log)
  /-- Nothing else happens but that the log file may be started. -/
  rest : s' = { s with
    cache := s'.cache, log := s'.log, world := { s.world with files := s.filesFor r } }

theorem valueOf_eq_ok_iff {α : Type} {isTold : Error → Bool} {x : Traced α} {a : α} :
    valueOf isTold x = .ok a ↔ x.Returns a := by
  unfold valueOf Returns
  cases x.outcome with
  | ok b => simp
  | error f => cases f <;> simp

theorem prepare_eq_ok_iff :
    s.prepare options = .ok (c, s') ↔ ∃ r, Prepared s options c r s' := by
  unfold Session.prepare
  rw [bind_eq_ok_iff]
  constructor
  · rintro ⟨⟨l, cache⟩, hload, h⟩
    obtain ⟨made, hmade, h⟩ := bind_eq_ok_iff.mp h
    obtain ⟨rfl, rfl⟩ := Prod.mk.inj (Except.ok.inj h)
    unfold Session.setUpLog at hmade
    split at hmade
    · cases hmade
    next r hr =>
      split at hmade
      · cases hmade
      next log hlog =>
        obtain rfl := Except.ok.inj hmade
        exact ⟨r, ⟨l, valueOf_eq_ok_iff.mp hload, rfl⟩, hr, hlog, rfl⟩
  · rintro ⟨r, ⟨l, hload, rfl⟩, hr, hlog, hrest⟩
    refine ⟨(l, s'.cache), valueOf_eq_ok_iff.mpr hload, ?_⟩
    refine bind_eq_ok_iff.mpr ⟨s', ?_, rfl⟩
    unfold Session.setUpLog
    dsimp only
    rw [hr]
    dsimp only
    rw [hlog]
    exact congrArg Except.ok hrest.symm

/-! ## What the log needs of the files -/

theorem channels_congr (openFile openFile' : String → Except Error Location) (r : LogRequest)
    (sinks : List Sink) :
    r.channels { openFile := openFile' } sinks = r.channels { openFile } sinks := by
  induction sinks with
  | nil => rfl
  | cons sink sinks ih =>
    rw [LogRequest.channels, LogRequest.channels, ih]
    rfl

theorem installed_congr {openFile openFile' : String → Except Error Location}
    (h : ∀ path, r.normal.outputFile = some path → openFile' path = openFile path) :
    r.installed { openFile := openFile' } = r.installed { openFile } := by
  have hchannels : r.channels { openFile := openFile' } = r.channels { openFile } :=
    funext (channels_congr openFile openFile' r)
  unfold LogRequest.installed
  cases hfile : r.normal.outputFile with
  | none => simp only [hchannels]
  | some path => simp only [hchannels, h path hfile]

/-! ## Preparing again -/

namespace Prepared

/-- The log file is there, unless the log needed no work. -/
theorem keep_eq_ok (h : Prepared s options c r s') (hdone : ¬s.log.isDone false r) {path : String}
    (hpath : r.normal.outputFile = some path) :
    ∃ l, s.world.files.keep (Path.ofText path) = .ok (s'.world.files, l) := by
  have hlog := congrArg Prod.fst h.log
  rw [LogState.configure, LogState.carryOut_eq, if_neg hdone] at hlog
  have hopen : ∃ l, openLog s.world.files path = .ok l := by
    dsimp only at hlog
    unfold LogRequest.installed at hlog
    split at hlog
    · cases hlog
    · rw [hpath] at hlog
      dsimp only at hlog
      split at hlog
      · cases hlog
      next l hl => exact ⟨l, hl⟩
  obtain ⟨l, hl⟩ := hopen
  unfold openLog at hl
  cases hkeep : s.world.files.keep (Path.ofText path) with
  | error e =>
    rw [hkeep] at hl
    cases hl
  | ok kept =>
    refine ⟨kept.2, ?_⟩
    rw [h.rest]
    dsimp only
    rw [Session.filesFor, if_neg hdone, withLogFile, hpath]
    dsimp only
    rw [hkeep]

theorem files_eq (h : Prepared s options c r s') : s'.world.files = s.filesFor r := by
  rw [h.rest]

theorem continues (h : Prepared s options c r s') :
    s'.world.files.Continues s.world.files := by
  by_cases hdone : s.log.isDone false r
  · rw [h.files_eq, Session.filesFor, if_pos hdone]
    exact .refl _
  cases hpath : r.normal.outputFile with
  | none =>
    rw [h.files_eq, Session.filesFor, if_neg hdone, withLogFile, hpath]
    exact .refl _
  | some path =>
    obtain ⟨_, hkeep⟩ := h.keep_eq_ok hdone hpath
    exact FileStore.continues_keep hkeep

/-- Setting the log up starts at most the log file. -/
theorem fileAt?_eq (h : Prepared s options c r s') (l : Location) :
    s'.world.files.fileAt? l = s.world.files.fileAt? l ∨
      (∃ path, r.normal.outputFile = some path ∧ l = s.world.files.place (Path.ofText path)) ∧
        ∃ time, s'.world.files.fileAt? l = some ⟨"", time⟩ := by
  by_cases hdone : s.log.isDone false r
  · rw [h.files_eq, Session.filesFor, if_pos hdone]
    exact .inl rfl
  cases hpath : r.normal.outputFile with
  | none =>
    rw [h.files_eq, Session.filesFor, if_neg hdone, withLogFile, hpath]
    exact .inl rfl
  | some path =>
    obtain ⟨_, hkeep⟩ := h.keep_eq_ok hdone hpath
    rcases FileStore.fileAt?_keep hkeep l with hsame | ⟨hl, -, hnew⟩
    · exact .inl hsame
    · exact .inr ⟨⟨path, rfl, hl⟩, hnew⟩

theorem again {files : FileStore} (h : Prepared s options c r s')
    (hsources : SameSources files s.world (configPath options)) :
    ∃ cache log, Prepared { s' with world := { s.world with files } } options c r
      { s with cache, log, world := { s.world with files } } := by
  obtain ⟨l, hload, hl⟩ := h.load
  obtain ⟨l', cache, hagain, hl'⟩ := Cache.exists_load_again hload
  have hremembered := LogState.remembered_carryOut_of_ok (congrArg Prod.fst h.log)
  change (s.log.configure _ false r).2.remembered = _ at hremembered
  rw [h.log] at hremembered
  have hdone : s'.log.isDone false r := LogState.isDone_iff.mpr ⟨rfl, hremembered⟩
  refine ⟨cache, s'.log, ⟨l', ?_, hl'.trans hl⟩, h.request, ?_, ?_⟩
  · exact (Cache.outcome_load_congr hsources).trans hagain
  · change s'.log.configure _ false r = (.ok (), s'.log)
    rw [LogState.configure, LogState.carryOut, if_pos hdone]
  · rw [Session.filesFor, if_pos hdone, h.rest]

/-- Another run in a new process sets the log up in the same way. -/
theorem again_new {files : FileStore} (h : Prepared s options c r s')
    (hsources : SameSources files s.world (configPath options))
    (hlater : files.Continues s'.world.files) :
    ∃ cache log, Prepared { s with world := { s.world with files } } options c r
      { s with cache, log, world := { s.world with files } } := by
  obtain ⟨l, hload, hl⟩ := h.load
  let new : Session := { s with world := { s.world with files } }
  have hlog : new.log.configure (openLog files) false r = (.ok (), s'.log) ∧
      new.filesFor r = files := by
    change s.log.configure (openLog files) false r = _ ∧
      (if s.log.isDone false r then files else withLogFile files r) = files
    by_cases hdone : s.log.isDone false r
    · rw [if_pos hdone, ← h.log, LogState.configure, LogState.configure, LogState.carryOut,
        LogState.carryOut, if_pos hdone, if_pos hdone]
      exact ⟨rfl, rfl⟩
    · have hkept {path : String} (hpath : r.normal.outputFile = some path) :
          ∃ l, s.world.files.keep (Path.ofText path) = .ok (s'.world.files, l) ∧
            files.keep (Path.ofText path) = .ok (files, l) := by
        obtain ⟨l, hkeep⟩ := h.keep_eq_ok hdone hpath
        exact ⟨l, hkeep, FileStore.keep_again hkeep hlater⟩
      constructor
      · have hinstalled : r.installed { openFile := openLog files } =
            r.installed { openFile := openLog s.world.files } := by
          refine installed_congr fun path hpath ↦ ?_
          obtain ⟨l, hfirst, hsecond⟩ := hkept hpath
          rw [openLog, openLog, hfirst, hsecond]
          rfl
        rw [← h.log, LogState.configure, LogState.configure, LogState.carryOut_eq,
          LogState.carryOut_eq, hinstalled]
      · rw [if_neg hdone, withLogFile]
        split
        · rfl
        next path hpath =>
          obtain ⟨l, -, hsecond⟩ := hkept hpath
          rw [hsecond]
  obtain ⟨hlog, hfiles⟩ := hlog
  refine ⟨s'.cache, s'.log, ⟨l, ?_, hl⟩, h.request, hlog, ?_⟩
  · exact (Cache.outcome_load_congr hsources).trans hload
  · rw [hfiles]

end Prepared

end Schemata.CommandLine
