import Schemata.Configuration.Standard
import Schemata.Proofs.Outcome
import Schemata.Proofs.Paths
import Schemata.Proofs.Variables

/-!
# Loading through the cache

A session loads configurations through one cache while the environment and the files change around
it, and may clear the cache in between. The cache is keyed by the text of a path and the time of the
file. What it keeps was parsed at some load since it was cleared last, from the file at that path
with that time, and in the environment of that load (`Kept`); every event keeps it so, whatever is
dropped for want of room.

So a cached configuration is always one that parsing would have given at such a load. It is the one
that parsing gives now if the time of the file has settled its content since then, and the variables
that parsing it looks at are the same. The key knows nothing of the environment, so the second
condition cannot be left out: `stale_after_change` is a session that loads the settings of an
environment that is gone.
-/

namespace Schemata

open Traced
open Environment (AgreeOn)

/-! ## The file that is loaded -/

namespace Configuration

/-- The file that is loaded for a path: the one at the path, or else the one that is found. -/
def found (world : World) : Option Path → Traced (Option Path)
  | some p => some <$> ofExcept (explicitFile world.files p)
  | none => discover world

/-- The paths at which a configuration is looked for. -/
def lookedAt (world : World) : Option Path → List Path
  | some p => [p]
  | none => ((world.env.override? "TYPESCHEMA_CONFIG_PATH").map Path.ofText).toList ++
      Path.ofText projectFile ::
        (ancestors world.files.here).map fun l ↦ { isAbsolute := true, parts := l ++ [projectFile] }

variable {world : World} {p : Path}

theorem mem_of_nearestProject {files : FileStore} {ls : List Location}
    (h : nearestProject files ls = .ok (some p)) :
    p ∈ ls.map fun l ↦ ({ isAbsolute := true, parts := l ++ [projectFile] } : Path) := by
  induction ls with
  | nil => exact nomatch h
  | cons l ls ih =>
    rw [nearestProject] at h
    split at h
    · obtain ⟨f, -, h⟩ := bind_eq_ok_iff.mp h
      split at h
      · exact nomatch h
      · obtain ⟨own, -, h⟩ := bind_eq_ok_iff.mp h
        split at h
        · obtain rfl := Option.some.inj (Except.ok.inj h)
          exact List.mem_cons_self
        · exact List.mem_cons_of_mem _ (ih h)
    · exact List.mem_cons_of_mem _ (ih h)

theorem mem_of_namedFile (h : (namedFile world).Returns (some p)) :
    (world.env.override? "TYPESCHEMA_CONFIG_PATH").map Path.ofText = some p := by
  unfold namedFile at h
  split at h
  · cases returns_pure.mp h
  next text htext =>
    rw [htext]
    dsimp only at h
    split at h
    · obtain ⟨-, -, h⟩ := returns_bind.mp h
      exact returns_pure.mp h
    · obtain ⟨-, -, h⟩ := returns_bind.mp h
      cases returns_pure.mp h

theorem mem_lookedAt {path : Option Path} (h : (found world path).Returns (some p)) :
    p ∈ lookedAt world path := by
  cases path with
  | some q =>
    obtain ⟨r, hr, hp⟩ := returns_map.mp h
    rw [returns_ofExcept, explicitFile] at hr
    split at hr
    · rw [← Option.some.inj hp, ← Except.ok.inj hr]
      exact List.mem_cons_self
    · exact nomatch hr
  | none =>
    obtain ⟨named, hnamed, h⟩ := returns_bind.mp h
    cases named with
    | some q =>
      obtain rfl := Option.some.inj (returns_pure.mp h)
      exact List.mem_append_left _ (Option.mem_toList.mpr (mem_of_namedFile hnamed))
    | none =>
      apply List.mem_append_right
      dsimp only at h
      split at h
      · obtain rfl := Option.some.inj (returns_pure.mp h)
        exact List.mem_cons_self
      · rw [returns_ofExcept] at h
        exact List.mem_cons_of_mem _ (mem_of_nearestProject h)

theorem isName_of_mem_ancestors {here l : Location} (hhere : ∀ part ∈ here, Path.IsName part)
    (hl : l ∈ ancestors here) : ∀ part ∈ l, Path.IsName part := by
  obtain ⟨n, -, rfl⟩ := List.mem_map.mp hl
  exact fun part hpart ↦ hhere part (List.mem_of_mem_take hpart)

theorem isName_projectFile : Path.IsName projectFile :=
  ⟨by decide, by decide, by decide⟩

theorem wellFormed_of_mem_lookedAt {path : Option String}
    (hhere : ∀ part ∈ world.files.here, Path.IsName part)
    (h : p ∈ lookedAt world (path.map Path.ofText)) : p.WellFormed := by
  cases path with
  | some text =>
    rw [List.mem_singleton.mp h]
    exact Path.wellFormed_ofText text
  | none =>
    rcases List.mem_append.mp h with h | h
    · obtain ⟨text, -, rfl⟩ := Option.map_eq_some_iff.mp (Option.mem_toList.mp h)
      exact Path.wellFormed_ofText text
    rcases List.mem_cons.mp h with rfl | h
    · exact Path.wellFormed_ofText projectFile
    · obtain ⟨l, hl, rfl⟩ := List.mem_map.mp h
      intro part hpart
      rcases List.mem_append.mp hpart with hpart | hpart
      · exact isName_of_mem_ancestors hhere hl part hpart
      · rw [List.mem_singleton.mp hpart]
        exact isName_projectFile

theorem wellFormed_of_found {path : Option String}
    (hhere : ∀ part ∈ world.files.here, Path.IsName part)
    (h : (found world (path.map Path.ofText)).Returns (some p)) : p.WellFormed :=
  wellFormed_of_mem_lookedAt hhere (mem_lookedAt h)

end Configuration

/-! ## One load -/

namespace Cache

variable {cache cache' : Cache} {world : World} {p : Path} {l : Loaded}

/-- Loading is finding the file and then loading it through the cache. -/
theorem outcome_load (cache : Cache) (world : World) (path : Option Path) :
    (cache.load world path).outcome = (Configuration.found world path).outcome >>= fun o ↦
      match o with
      | some p => (cache.loadFile world p).outcome
      | none => .ok (cache.count {}) := by
  cases path with
  | some p =>
    unfold load Configuration.found
    rw [outcome_bind, outcome_map]
    cases (ofExcept (Configuration.explicitFile world.files p)).outcome <;> rfl
  | none =>
    unfold load Configuration.found
    rw [outcome_bind]
    refine bind_congr fun o ↦ ?_
    cases o <;> rfl

/-- The time under which a file is looked up. -/
def timeOf (world : World) (p : Path) : Int :=
  match world.files.file p with
  | .ok f => f.modified
  | .error _ => 0

/-- The key of a file that is loaded: its path from the root and its time. -/
def keyOf (world : World) (p : Path) : String × Int :=
  ((p.fromRoot world.files.here).text, timeOf world (p.fromRoot world.files.here))

/-- A file is loaded by looking up its key, and by parsing it if that fails. -/
theorem outcome_loadFile (cache : Cache) (world : World) (p : Path) :
    (cache.loadFile world p).outcome =
      match cache.kept.find? (·.1 == keyOf world p) with
      | some (_, l) => .ok (l, cache.touch (keyOf world p) l)
      | none => (Configuration.ofFile world (p.fromRoot world.files.here)).outcome >>= fun c ↦
          .ok (cache.add (keyOf world p) c) := by
  have hload : cache.loadFile world p =
      match cache.kept.find? (·.1 == keyOf world p) with
      | some (_, l) => pure (l, cache.touch (keyOf world p) l)
      | none => Configuration.ofFile world (p.fromRoot world.files.here) >>= fun c ↦
          pure (cache.add (keyOf world p) c) := rfl
  rw [hload]
  cases cache.kept.find? (·.1 == keyOf world p) with
  | some kept => rfl
  | none => exact outcome_bind _ _

/-! ## What is kept -/

/-- The entry was made by parsing a file at its path and with its time, in one of these worlds. -/
def Kept (past : List World) (entry : (String × Int) × Loaded) : Prop :=
  ∃ w ∈ past, ∃ p f, p.WellFormed ∧ w.files.file p = .ok f ∧ entry.1 = (p.text, f.modified) ∧
    (Configuration.ofFile w p).outcome = .ok entry.2.configuration

theorem Kept.mono {past past' : List World} {entry : (String × Int) × Loaded}
    (h : Kept past entry) (hsub : past ⊆ past') : Kept past' entry := by
  obtain ⟨w, hw, h⟩ := h
  exact ⟨w, hsub hw, h⟩

/-- What is parsed from a file is kept for it. -/
theorem kept_of_ofFile {c : Configuration} {serial : Nat}
    (hhere : ∀ part ∈ world.files.here, Path.IsName part) (hp : p.WellFormed)
    (h : (Configuration.ofFile world (p.fromRoot world.files.here)).outcome = .ok c) :
    Kept [world] (keyOf world p, ⟨serial, c⟩) := by
  have hfile : ∃ f, world.files.file (p.fromRoot world.files.here) = .ok f := by
    rw [Configuration.outcome_ofFile] at h
    obtain ⟨f, hf, -⟩ := bind_eq_ok_iff.mp h
    exact ⟨f, returns_ofExcept.mp hf⟩
  obtain ⟨f, hf⟩ := hfile
  refine ⟨world, List.mem_cons_self, p.fromRoot world.files.here, f,
    Path.wellFormed_fromRoot hp hhere, hf, ?_, h⟩
  rw [keyOf, timeOf, hf]

theorem kept_of_loadFile (hhere : ∀ part ∈ world.files.here, Path.IsName part)
    (hp : p.WellFormed) (h : (cache.loadFile world p).Returns (l, cache')) :
    ∀ entry ∈ cache'.kept, entry ∈ cache.kept ∨ Kept [world] entry := by
  rw [Returns, outcome_loadFile] at h
  intro entry hentry
  split at h
  next key l' hfind =>
    -- a hit moves its entry to the front
    obtain ⟨rfl, rfl⟩ := Prod.mk.inj (Except.ok.inj h)
    rcases List.mem_cons.mp hentry with rfl | hentry
    · have hbeq := List.find?_some hfind
      have hkey : key = keyOf world p := eq_of_beq hbeq
      rw [← hkey]
      exact .inl (List.mem_of_find?_eq_some hfind)
    · exact .inl (List.mem_filter.mp hentry).1
  next =>
    obtain ⟨c, hc, h⟩ := bind_eq_ok_iff.mp h
    obtain ⟨-, rfl⟩ := Prod.mk.inj (Except.ok.inj h)
    rcases List.mem_cons.mp (List.mem_of_mem_take hentry) with rfl | hentry
    · exact .inr (kept_of_ofFile hhere hp hc)
    · exact .inl hentry

theorem kept_of_load {path : Option String}
    (hhere : ∀ part ∈ world.files.here, Path.IsName part)
    (h : (cache.load world (path.map Path.ofText)).Returns (l, cache')) :
    ∀ entry ∈ cache'.kept, entry ∈ cache.kept ∨ Kept [world] entry := by
  rw [Returns, outcome_load] at h
  obtain ⟨o, ho, h⟩ := bind_eq_ok_iff.mp h
  cases o with
  | some p => exact kept_of_loadFile hhere (Configuration.wellFormed_of_found hhere ho) h
  | none =>
    obtain ⟨-, rfl⟩ := Prod.mk.inj (Except.ok.inj h)
    exact fun entry hentry ↦ .inl hentry

/-! ## Sessions -/

/-- What happens in a session. -/
inductive Event where
  /-- A configuration is loaded, at a path or where one is found. -/
  | load (path : Option String)
  /-- The cache is cleared. -/
  | clear
  /-- The environment and the files become others. -/
  | change (env : Environment) (files : FileStore)

/-- The working directory stays a place that a path can lead to. -/
def Event.Proper : Event → Prop
  | change _ files => ∀ part ∈ files.here, Path.IsName part
  | _ => True

/-- A session, with what has been as far as it matters to the cache. -/
structure Session where
  /-- The cache. -/
  cache : Cache := {}
  /-- The world around it. -/
  world : World
  /-- The worlds in which something was loaded since the cache was cleared. -/
  past : List World := []
  /-- The stores of files there have been, the present one first. -/
  stores : List FileStore := [world.files]

namespace Session

variable {s : Session} {events : List Event} {path : Option String} {f : File}

/-- The path that a text names; the empty text names none. -/
def target (path : Option String) : Option Path := (path.filter (· ≠ "")).map Path.ofText

/-- Loads a configuration through the cache. -/
def load (s : Session) (path : Option String) : Traced (Loaded × Cache) :=
  s.cache.load s.world (target path)

/-- The session after an event; a load that fails leaves the cache as it is. -/
def step (s : Session) : Event → Session
  | .load path =>
    { s with
      cache := match (s.load path).outcome with
        | .ok (_, cache) => cache
        | .error _ => s.cache
      past := s.world :: s.past }
  | .clear => { s with cache := s.cache.clear, past := [] }
  | .change env files =>
    { s with world := { s.world with env, files }, stores := files :: s.stores }

/-- The session after several events. -/
def run (s : Session) (events : List Event) : Session := events.foldl step s

/-- The cache keeps what was parsed since it was cleared. -/
structure Sound (s : Session) : Prop where
  here : ∀ part ∈ s.world.files.here, Path.IsName part
  kept : ∀ entry ∈ s.cache.kept, Kept s.past entry
  registry : ∀ w ∈ s.past, w.registry = s.world.registry
  present : s.world.files ∈ s.stores
  stores : ∀ w ∈ s.past, w.files ∈ s.stores

theorem sound_start {world : World} (hhere : ∀ part ∈ world.files.here, Path.IsName part) :
    Sound { world } where
  here := hhere
  kept _ h := absurd h List.not_mem_nil
  registry _ h := absurd h List.not_mem_nil
  present := List.mem_cons_self
  stores _ h := absurd h List.not_mem_nil

theorem Sound.step_load (h : s.Sound) (path : Option String) : (s.step (.load path)).Sound where
  here := h.here
  kept := by
    have hold : ∀ entry ∈ s.cache.kept, Kept (s.world :: s.past) entry :=
      fun entry hentry ↦ (h.kept entry hentry).mono (List.subset_cons_self _ _)
    have hnew : ∀ entry, Kept [s.world] entry → Kept (s.world :: s.past) entry :=
      fun entry hentry ↦ hentry.mono (by simp)
    rw [step]
    dsimp only
    split
    next l cache hload =>
      intro entry hentry
      exact (kept_of_load h.here hload entry hentry).elim (hold entry) (hnew entry)
    · exact hold
  registry := List.forall_mem_cons.mpr ⟨rfl, h.registry⟩
  present := h.present
  stores := List.forall_mem_cons.mpr ⟨h.present, h.stores⟩

/-- **Events keep the cache sound.** -/
theorem Sound.step (h : s.Sound) {event : Event} (hevent : event.Proper) :
    (s.step event).Sound := by
  cases event with
  | load path => exact h.step_load path
  | clear =>
    refine ⟨h.here, fun _ hentry ↦ ?_, fun _ hw ↦ ?_, h.present, fun _ hw ↦ ?_⟩
    · exact absurd hentry List.not_mem_nil
    · exact absurd hw List.not_mem_nil
    · exact absurd hw List.not_mem_nil
  | change env files =>
    exact ⟨hevent, h.kept, h.registry, List.mem_cons_self,
      fun w hw ↦ List.mem_cons_of_mem files (h.stores w hw)⟩

theorem Sound.run (h : s.Sound) (hevents : ∀ e ∈ events, e.Proper) : (s.run events).Sound := by
  induction events generalizing s with
  | nil => exact h
  | cons event events ih =>
    obtain ⟨hevent, hevents⟩ := List.forall_mem_cons.mp hevents
    exact ih (h.step hevent) hevents

/-! ## What a load gives -/

/-- **A load gives what was parsed in one world**: in the present one, or at a load since the cache
was cleared, when the file had its present time. -/
theorem Sound.load_cases (h : s.Sound)
    (hfound : (Configuration.found s.world (target path)).Returns (some p))
    (hfile : s.world.files.file (p.fromRoot s.world.files.here) = .ok f) :
    ∃ w, (w = s.world ∨ w ∈ s.past) ∧
      (∃ f₀, w.files.file (p.fromRoot s.world.files.here) = .ok f₀ ∧ f₀.modified = f.modified) ∧
      (fun r ↦ r.1.configuration) <$> (s.load path).outcome =
        (Configuration.ofFile w (p.fromRoot s.world.files.here)).outcome := by
  have hload : (s.load path).outcome = (s.cache.loadFile s.world p).outcome := by
    rw [load, outcome_load,
      show (Configuration.found s.world (target path)).outcome = _ from hfound]
    rfl
  have hkey : keyOf s.world p = ((p.fromRoot s.world.files.here).text, f.modified) := by
    rw [keyOf, timeOf, hfile]
  rw [hload, outcome_loadFile]
  cases hfind : s.cache.kept.find? (·.1 == keyOf s.world p) with
  | none =>
    refine ⟨s.world, .inl rfl, ⟨f, hfile, rfl⟩, ?_⟩
    dsimp only
    rw [map_bind]
    exact bind_pure _
  | some entry =>
    obtain ⟨w, hw, q, f₀, hwell, hf₀, hentry, hparsed⟩ :=
      h.kept entry (List.mem_of_find?_eq_some hfind)
    have hbeq := List.find?_some hfind
    have hboth : (q.text, f₀.modified) = ((p.fromRoot s.world.files.here).text, f.modified) := by
      rw [← hentry, ← hkey]
      exact eq_of_beq hbeq
    obtain ⟨htext, htime⟩ := Prod.mk.inj hboth
    have hp : (p.fromRoot s.world.files.here).WellFormed :=
      Path.wellFormed_fromRoot (Configuration.wellFormed_of_found h.here hfound) h.here
    obtain rfl := Path.text_injective hwell hp htext
    exact ⟨w, .inr hw, ⟨f₀, hf₀, htime⟩, hparsed.symm⟩

/-! ## When it is what parsing gives now -/

/-- In no two of the stores does a file have the same time and another content. -/
def Stamped (stores : List FileStore) : Prop :=
  ∀ a ∈ stores, ∀ b ∈ stores, ∀ l f g, a.fileAt? l = some f → b.fileAt? l = some g →
    f.modified = g.modified → f.content = g.content

/-- The stores, the latest one first, come about by writing files with times that are new to
them. -/
inductive Dated : List FileStore → Prop where
  /-- There is one store. -/
  | start (store : FileStore) : Dated [store]
  /-- A file stays as it is, or has a time that no file had in its place before. -/
  | write {store new : FileStore} {stores : List FileStore} (h : Dated (store :: stores))
      (hnew : ∀ l f, new.fileAt? l = some f → store.fileAt? l = some f ∨
        ∀ earlier ∈ store :: stores, ∀ g, earlier.fileAt? l = some g → g.modified ≠ f.modified) :
      Dated (new :: store :: stores)

/-- Times that are new whenever a file is written settle the contents. -/
theorem Dated.stamped {stores : List FileStore} (h : Dated stores) : Stamped stores := by
  induction h with
  | start store =>
    intro a ha b hb l f g hf hg _
    obtain rfl := List.mem_singleton.mp ha
    obtain rfl := List.mem_singleton.mp hb
    rw [Option.some.inj (hf.symm.trans hg)]
  | @write store new stores _ hnew ih =>
    have hpast : ∀ b ∈ store :: stores, ∀ l f g, new.fileAt? l = some f → b.fileAt? l = some g →
        f.modified = g.modified → f.content = g.content := by
      intro b hb l f g hf hg htime
      rcases hnew l f hf with hstays | htimes
      · exact ih store List.mem_cons_self b hb l f g hstays hg htime
      · exact absurd htime.symm (htimes b hb g hg)
    intro a ha b hb l f g hf hg htime
    rcases List.mem_cons.mp ha with rfl | hold
    · rcases List.mem_cons.mp hb with rfl | hb
      · rw [Option.some.inj (hf.symm.trans hg)]
      · exact hpast b hb l f g hf hg htime
    · rcases List.mem_cons.mp hb with rfl | hb
      · exact (hpast a hold l g f hg hf htime.symm).symm
      · exact ih a hold b hb l f g hf hg htime

/-- Since the cache was cleared, nothing was loaded, while the file had its present time, under
other values of the variables that parsing it looks at. -/
def SameVariables (s : Session) (p : Path) (f : File) : Prop :=
  ∀ w ∈ s.past, ∀ f₀, w.files.file p = .ok f₀ → f₀.modified = f.modified →
    AgreeOn (Configuration.variableNames p f.content) w.env s.world.env

/-- **Cached configurations are the parsed ones**, as far as files and environment allow it. In a
session in which the time of a file settles its content, loading a file through the cache gives the
configuration, or fails with the error, that parsing the file gives in the present world, if the
variables it looks at are what they were at the loads since the cache was cleared. -/
theorem load_eq_parsed {world : World} (hhere : ∀ part ∈ world.files.here, Path.IsName part)
    (hevents : ∀ e ∈ events, e.Proper) (hs : s = run { world } events) (hstamped : Stamped s.stores)
    (hfound : (Configuration.found s.world (target path)).Returns (some p))
    (hfile : s.world.files.file (p.fromRoot s.world.files.here) = .ok f)
    (hvariables : s.SameVariables (p.fromRoot s.world.files.here) f) :
    (fun r ↦ r.1.configuration) <$> (s.load path).outcome =
      (Configuration.ofFile s.world (p.fromRoot s.world.files.here)).outcome := by
  have hsound : s.Sound := by
    rw [hs]
    exact (sound_start hhere).run hevents
  obtain ⟨w, hw, ⟨f₀, hf₀, htime⟩, hload⟩ := hsound.load_cases hfound hfile
  rw [hload]
  rcases hw with rfl | hw
  · rfl
  · obtain ⟨l, hl⟩ :=
      FileStore.exists_fileAt_of_file (Path.isAbsolute_fromRoot p s.world.files.here)
    have hcontent : f₀.content = f.content := hstamped w.files (hsound.stores w hw) s.world.files
      hsound.present l f₀ f (hl _ _ hf₀) (hl _ _ hfile) htime
    refine (Configuration.outcome_ofFile_congr (hsound.registry w hw).symm hf₀ hfile
      hcontent.symm ?_).symm
    rw [hcontent]
    exact hvariables w hw f₀ hf₀ htime

end Session

/-! ## An empty file

The file stays empty, while the environment comes to name a log file. -/

namespace EmptyFile

/-- The store. -/
def files : FileStore where
  files := [(["app", "c.toml"], ⟨"", 1⟩)]
  folders := [["app"]]
  here := ["app"]

/-- The world before the environment changes. -/
def before : World := { registry := Registry.standard, files }

/-- The path of the file. -/
def path : Path := (Path.ofText "c.toml").fromRoot files.here

/-- The session in which the file is loaded before a variable is set. -/
def session (name value : String) : Session :=
  Session.run { world := before } [.load (some "c.toml"), .change [(name, value)] files]

theorem stamped_session (name value : String) : Session.Stamped (session name value).stores :=
  Session.Dated.stamped (.write (.start files) fun _ _ h ↦ .inl h)

theorem isName_of_mem_here {part : String} (h : part ∈ files.here) : Path.IsName part := by
  obtain rfl := List.mem_singleton.mp h
  exact ⟨by decide, by decide, by decide⟩

theorem found_session (name value : String) :
    (Configuration.found (session name value).world (Session.target (some "c.toml"))).Returns
      (some (Path.ofText "c.toml")) := rfl

theorem file_session (name value : String) :
    (session name value).world.files.file path = .ok ⟨"", 1⟩ := rfl

/-- A variable that is not the log's has no part in parsing an empty file. -/
theorem sameVariables_session {name : String} (hname : name ∉ LogSettings.variableNames)
    (value : String) : (session name value).SameVariables path ⟨"", 1⟩ := by
  intro w hw f₀ _ _ other hother
  obtain rfl := List.mem_singleton.mp hw
  have hlog : other ∈ LogSettings.variableNames := hother
  have hne : (name == other) = false := by
    rw [beq_eq_false_iff_ne]
    exact fun h ↦ hname (h ▸ hlog)
  change (List.find? _ [(name, value)]).map _ = none
  rw [List.find?_singleton, if_neg (by simp [hne])]
  rfl

/-- An empty file is loaded through the cache as it is parsed, whatever else is set. -/
theorem load_eq_parsed_empty :
    let s := session "HOME" "/root"
    (fun r ↦ r.1.configuration) <$> (s.load (some "c.toml")).outcome =
        (Configuration.ofFile s.world path).outcome ∧
      (fun r ↦ r.1.serial) <$> (s.load (some "c.toml")).outcome = .ok 0 := by
  refine ⟨?_, rfl⟩
  have hevents : ∀ e ∈ [Event.load (some "c.toml"), .change [("HOME", "/root")] files],
      e.Proper := by
    intro e he
    rcases List.mem_cons.mp he with rfl | he
    · exact trivial
    · obtain rfl := List.mem_singleton.mp he
      exact fun part ↦ isName_of_mem_here
  have hname : "HOME" ∉ LogSettings.variableNames := by decide +kernel
  exact Session.load_eq_parsed (fun part ↦ isName_of_mem_here) hevents rfl
    (stamped_session "HOME" "/root") (found_session _ _) (file_session _ _)
    (sameVariables_session hname "/root")

/-- **A load after a change of the environment gives the settings of the one before**: no log file,
where parsing the file gives the one that is named. -/
theorem stale_after_change :
    let s := session "TYPESCHEMA_LOG_FILE" "a.log"
    Session.Stamped s.stores ∧ s.world.files.file path = .ok ⟨"", 1⟩ ∧
      (fun r ↦ r.1.configuration.logging.outputFile) <$> (s.load (some "c.toml")).outcome =
        .ok .null ∧
      (·.logging.outputFile) <$> (Configuration.ofFile s.world path).outcome =
        .ok (.str "a.log") :=
  ⟨stamped_session _ _, file_session _ _, rfl, rfl⟩

end EmptyFile

end Cache

end Schemata
