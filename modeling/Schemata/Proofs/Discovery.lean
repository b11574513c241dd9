import Mathlib.Data.List.Induction
import Schemata.Proofs.CachedLoading

/-!
# Which file is discovered

Without an explicit path, the file to load should be the one that the environment names, or else the
project file of the working directory, or else the project file of the nearest directory above it
that has a table of the configuration: `Configuration.eligible`. `Configuration.discover` finds it
by looking whether something is there at a path, and by going up from the working directory until a
project file does more than say nothing about the configuration.

The two agree where the walk does not miss the file (`Configuration.discover_eligible_iff`). It does
if a directory stands where a file is looked for, if it meets a project file that neither has the
table nor can be passed over, and if the nearest table is in the root, where the walk does not go.
-/

namespace Schemata

open Traced

theorem FileStore.isThere_of_file {files : FileStore} {p : Path} {f : File}
    (h : files.file p = .ok f) : files.isThere p := by
  unfold FileStore.file at h
  unfold FileStore.isThere
  cases hlocate : files.locate? p with
  | none =>
    rw [hlocate] at h
    exact nomatch h
  | some l =>
    rw [hlocate] at h
    dsimp only at h ⊢
    cases hfile : files.fileAt? l with
    | none =>
      rw [hfile] at h
      exact nomatch h
    | some g => rfl

theorem FileStore.follow_here {files : FileStore} {l : Location} {parts rest : List String}
    (hparts : ∀ part ∈ parts, part ≠ "..") (hhere : l ++ parts <+: files.here) :
    files.follow l (parts ++ rest) = files.follow (l ++ parts) rest := by
  induction parts generalizing l with
  | nil => rw [List.nil_append, List.append_nil]
  | cons part parts ih =>
    obtain ⟨hpart, hparts⟩ := List.forall_mem_cons.mp hparts
    have hfolder : files.isFolder l := by
      have hl : l.isPrefixOf files.here := by
        rw [List.isPrefixOf_iff_prefix]
        exact (List.prefix_append l _).trans hhere
      rw [isFolder, hl]
      rfl
    rw [List.append_cons] at hhere ⊢
    rw [List.cons_append, follow, hfolder, if_neg (by simp), if_neg (by simpa using hpart)]
    exact ih hparts hhere

namespace Configuration

variable {files : FileStore} {world : World} {here l : Location} {ls : List Location} {p : Path}

/-! ## The file to load -/

/-- Whether a file is at the end of a path. -/
def isFile (files : FileStore) (p : Path) : Bool := (files.file p).isOk

/-- The project file of a directory. -/
def projectAt (l : Location) : Path := { isAbsolute := true, parts := l ++ [projectFile] }

/-- What the project file of a directory reads as; nothing if it is no document. -/
def projectDocument (files : FileStore) (l : Location) : Except Error (Option Value) :=
  (files.file (projectAt l)).map fun f ↦ Toml.read? f.content

/-- Whether a document has a table of the configuration. -/
def holdsTable : Value → Bool
  | .map document =>
    match Value.lookup (.str "tool") document with
    | some (.map tools) =>
      match Value.lookup (.str "typeschema") tools with
      | some (.map _) => true
      | _ => false
    | _ => false
  | _ => false

/-- Whether the project file of a directory has a table of the configuration. -/
def hasTable (files : FileStore) (l : Location) : Bool :=
  match projectDocument files l with
  | .ok (some document) => holdsTable document
  | _ => false

/-- The directories above a location, the nearest one first and the root last. -/
def above : Location → List Location
  | [] => []
  | part :: parts => (part :: parts).dropLast :: above (part :: parts).dropLast
termination_by l => l.length

/-- The path that the environment names. -/
def named? (world : World) : Option Path :=
  (world.env.override? "TYPESCHEMA_CONFIG_PATH").map Path.ofText

/-- The file to load without an explicit path; nothing if there is none. -/
def eligible (world : World) : Option Path :=
  ((named? world).filter (isFile world.files)).or <|
    ((some (Path.ofText projectFile)).filter (isFile world.files)).or <|
      ((above world.files.here).find? (hasTable world.files)).map projectAt

/-! ## Where the walk misses it -/

/-- Whether the project file of a directory says anything under the name of the table; it is a
fault if that cannot be told. -/
def mentionsTable (files : FileStore) (l : Location) : Except Error Bool := do
  match ← projectDocument files l with
  | none => throw .malformedTable
  | some document => hasOwnTable document

/-- Whether the walk goes on from a directory: it has no project file, or one that says nothing
under the name of the table. -/
def passedOver (files : FileStore) (l : Location) : Bool :=
  if files.isThere (projectAt l) then
    match mentionsTable files l with
    | .ok own => !own
    | .error _ => false
  else true

/-- The first directory above the working directory that the walk does not go on from. -/
def firstStop? (world : World) : Option Location :=
  (above world.files.here).find? (!passedOver world.files ·)

/-- What is looked at is not the file to load. -/
inductive Misses (world : World) : Prop where
  /-- The environment names something that is no file. -/
  | named {p : Path} (hnamed : named? world = some p) (hthere : world.files.isThere p)
      (hfile : ¬isFile world.files p)
  /-- The project file of the working directory is no file. -/
  | project (hnamed : ∀ p, named? world = some p → ¬world.files.isThere p)
      (hthere : world.files.isThere (Path.ofText projectFile))
      (hfile : ¬isFile world.files (Path.ofText projectFile))
  /-- The walk is stopped by a project file without the table: it is a directory or no document, its
  tools are a number, a truth value or a date, or the name is met and no table under it. -/
  | walk {l : Location} (hnamed : ∀ p, named? world = some p → ¬world.files.isThere p)
      (hproject : ¬world.files.isThere (Path.ofText projectFile))
      (hstop : firstStop? world = some l) (hroot : l ≠ []) (htable : ¬hasTable world.files l)
  /-- The walk ends before the root, which has the table. -/
  | root (hnamed : ∀ p, named? world = some p → ¬world.files.isThere p)
      (hproject : ¬world.files.isThere (Path.ofText projectFile))
      (hstop : firstStop? world = some []) (htable : hasTable world.files [])

/-! ## The directories of the walk -/

theorem above_append (l : Location) (part : String) : above (l ++ [part]) = l :: above l := by
  cases l with
  | nil => simp only [List.nil_append, above, List.dropLast_singleton]
  | cons first rest =>
    rw [List.cons_append, above, ← List.cons_append, List.dropLast_concat]

theorem ancestors_append (l : Location) (part : String) :
    ancestors (l ++ [part]) = (l ++ [part]) :: ancestors l := by
  have hlength : List.length (l ++ [part]) = List.length l + 1 := List.length_append
  unfold ancestors
  rw [hlength, List.range_succ_eq_map, List.map_cons, List.map_map]
  refine congrArg₂ List.cons ?_ (List.map_congr_left fun n _ ↦ ?_)
  · rw [Nat.sub_zero, ← hlength, List.take_length]
  · have hshort : List.length l + 1 - (n + 1) = List.length l - n := by omega
    rw [Function.comp_apply, Nat.succ_eq_add_one, hshort,
      List.take_append_of_le_length (Nat.sub_le _ _)]

theorem cons_above (l : Location) : l :: above l = ancestors l ++ [[]] := by
  induction l using List.reverseRecOn with
  | nil => rw [above]; rfl
  | append_singleton l part ih => rw [above_append, ancestors_append, List.cons_append, ← ih]

theorem ne_nil_of_mem_ancestors (h : l ∈ ancestors here) : l ≠ [] := by
  obtain ⟨n, hn, rfl⟩ := List.mem_map.mp h
  have hlt := List.mem_range.mp hn
  intro hnil
  have hlength := congrArg List.length hnil
  rw [List.length_take, List.length_nil] at hlength
  omega

/-! ## One step of the walk -/

theorem hasOwnTable_of_holdsTable {document : Value} (h : holdsTable document) :
    hasOwnTable document = .ok true := by
  unfold holdsTable at h
  split at h
  · next document =>
    split at h
    · next tools htools =>
      split at h
      · next table htable => simp [hasOwnTable, htools, Value.hasKey, htable]
      · exact absurd h Bool.false_ne_true
    · exact absurd h Bool.false_ne_true
  · exact absurd h Bool.false_ne_true

theorem exists_of_hasTable (h : hasTable files l) : ∃ f document,
    files.file (projectAt l) = .ok f ∧ projectDocument files l = .ok (some document) ∧
      holdsTable document := by
  unfold hasTable at h
  cases hfile : files.file (projectAt l) with
  | error e =>
    rw [projectDocument, hfile] at h
    exact nomatch h
  | ok f =>
    split at h
    · next document hread => exact ⟨f, document, rfl, hread, h⟩
    · exact nomatch h

theorem isFile_of_hasTable (h : hasTable files l) : isFile files (projectAt l) := by
  obtain ⟨f, document, hfile, -, -⟩ := exists_of_hasTable h
  rw [isFile, hfile]
  rfl

theorem mentionsTable_of_hasTable (h : hasTable files l) :
    files.isThere (projectAt l) ∧ mentionsTable files l = .ok true := by
  obtain ⟨f, document, hfile, hread, htable⟩ := exists_of_hasTable h
  refine ⟨FileStore.isThere_of_file hfile, ?_⟩
  rw [mentionsTable, hread]
  exact hasOwnTable_of_holdsTable htable

theorem nearestProject_cons (files : FileStore) (l : Location) (ls : List Location) :
    nearestProject files (l :: ls) =
      if files.isThere (projectAt l) then
        mentionsTable files l >>= fun own ↦
          if own then .ok (some (projectAt l)) else nearestProject files ls
      else nearestProject files ls := by
  rw [nearestProject]
  change (if files.isThere (projectAt l) then _ else _) = _
  refine if_congr Iff.rfl ?_ rfl
  rw [mentionsTable, projectDocument]
  change files.file (projectAt l) >>= _ = _
  cases files.file (projectAt l) with
  | error e => rfl
  | ok f =>
    change (match Toml.read? f.content with | none => _ | some document => _) =
      (match Toml.read? f.content with | none => _ | some document => _) >>= _
    cases Toml.read? f.content with
    | none => rfl
    | some document => rfl

theorem passedOver_iff : passedOver files l ↔
    (files.isThere (projectAt l) → mentionsTable files l = .ok false) := by
  rw [passedOver]
  by_cases hthere : files.isThere (projectAt l)
  · rw [if_pos hthere, forall_prop_of_true hthere]
    rcases mentionsTable files l with e | own
    · exact iff_of_false Bool.false_ne_true nofun
    · cases own <;> simp
  · rw [if_neg hthere]
    exact iff_of_true rfl fun h ↦ absurd h hthere

theorem nearestProject_of_passedOver (h : passedOver files l) (ls : List Location) :
    nearestProject files (l :: ls) = nearestProject files ls := by
  rw [nearestProject_cons]
  split
  · next hthere =>
    rw [passedOver_iff.mp h hthere]
    rfl
  · rfl

/-- A directory that the walk does not go on from has the only file that it can still find. -/
theorem nearestProject_of_not_passedOver (h : ¬passedOver files l) (ls : List Location) :
    nearestProject files (l :: ls) = (mentionsTable files l).map fun _ ↦ some (projectAt l) := by
  rw [passedOver_iff, Classical.not_imp] at h
  obtain ⟨hthere, hown⟩ := h
  rw [nearestProject_cons, if_pos hthere]
  rcases hmentions : mentionsTable files l with e | own
  · rfl
  · cases own with
    | false => exact absurd hmentions hown
    | true => rfl

theorem not_passedOver_of_hasTable (h : hasTable files l) : ¬passedOver files l := by
  obtain ⟨hthere, hown⟩ := mentionsTable_of_hasTable h
  intro hpassed
  exact nomatch hown.symm.trans (passedOver_iff.mp hpassed hthere)

/-! ## The whole walk -/

/-- **The walk goes on to the first directory that it does not pass over**, and what follows is not
looked at. -/
theorem nearestProject_eq (files : FileStore) (ls : List Location) :
    nearestProject files ls =
      match ls.find? (!passedOver files ·) with
      | none => .ok none
      | some l => (mentionsTable files l).map fun _ ↦ some (projectAt l) := by
  induction ls with
  | nil => rfl
  | cons l ls ih =>
    by_cases hpassed : passedOver files l
    · rw [nearestProject_of_passedOver hpassed, ih, List.find?_cons_of_neg (by simp [hpassed])]
    · rw [nearestProject_of_not_passedOver hpassed, List.find?_cons_of_pos (by simp [hpassed])]

/-- The nearest table is where the walk stops, if it is anywhere so near. -/
theorem find?_hasTable_of_stop (hstop : ls.find? (!passedOver files ·) = some l)
    (htable : hasTable files l) : ls.find? (hasTable files) = some l := by
  obtain ⟨-, near, far, hls, hnear⟩ := List.find?_eq_some_iff_append.mp hstop
  refine List.find?_eq_some_iff_append.mpr ⟨htable, near, far, hls, fun l' hl' ↦ ?_⟩
  have hpassed : passedOver files l' := by simpa using hnear l' hl'
  rw [Bool.not_eq_true']
  exact Bool.eq_false_iff.mpr fun htable' ↦ not_passedOver_of_hasTable htable' hpassed

theorem find?_hasTable_of_no_stop (hstop : ls.find? (!passedOver files ·) = none) :
    ls.find? (hasTable files) = none := by
  refine List.find?_eq_none.mpr fun l hl htable ↦ ?_
  have hpassed : passedOver files l := by simpa using List.find?_eq_none.mp hstop l hl
  exact not_passedOver_of_hasTable htable hpassed

theorem projectAt_injective : Function.Injective projectAt := fun _ _ h ↦
  List.append_cancel_right (congrArg Path.parts h)

/-- **The walk finds the nearest table** unless it is stopped before by something else, or the table
is in the root. Nothing is there for the walk in the working directory, where it starts. -/
theorem nearestProject_ancestors_iff (hstart : passedOver files here) :
    nearestProject files (ancestors here) =
        .ok (((above here).find? (hasTable files)).map projectAt) ↔
      ∀ l, (above here).find? (!passedOver files ·) = some l → (hasTable files l ↔ l ≠ []) := by
  have hcons := cons_above here
  cases hancestors : ancestors here with
  | nil =>
    rw [hancestors, List.nil_append] at hcons
    rw [(List.cons.inj hcons).2]
    exact iff_of_true rfl fun l hl ↦ nomatch hl
  | cons first mid =>
    rw [hancestors, List.cons_append] at hcons
    obtain ⟨rfl, habove⟩ := List.cons.inj hcons
    have hmid : ∀ l ∈ mid, l ≠ [] := by
      intro l hl
      exact ne_nil_of_mem_ancestors (hancestors ▸ List.mem_cons_of_mem _ hl)
    rw [nearestProject_of_passedOver hstart, nearestProject_eq, habove]
    simp only [List.find?_append]
    cases hstop : mid.find? (!passedOver files ·) with
    | none =>
      rw [find?_hasTable_of_no_stop hstop]
      by_cases htable : hasTable files []
      · have hpassed := not_passedOver_of_hasTable htable
        simp [htable, hpassed]
      · simp [htable]
    | some l =>
      have hne : l ≠ [] := hmid l (List.mem_of_find?_eq_some hstop)
      by_cases htable : hasTable files l
      · rw [find?_hasTable_of_stop hstop htable]
        simp [(mentionsTable_of_hasTable htable).2, Except.map, htable, hne]
      · refine iff_of_false (fun h ↦ ?_) fun h ↦ htable ((h l rfl).mpr hne)
        rw [← List.find?_append] at h
        dsimp only at h
        cases hown : mentionsTable files l with
        | error e =>
          rw [hown] at h
          exact nomatch h
        | ok own =>
          rw [hown] at h
          obtain ⟨l', hl', heq⟩ := Option.map_eq_some_iff.mp (Except.ok.inj h).symm
          rw [projectAt_injective heq] at hl'
          exact htable (List.find?_some hl')

theorem isThere_projectAt_here (hhere : ∀ part ∈ files.here, part ≠ "..") :
    files.isThere (projectAt files.here) = files.isThere (Path.ofText projectFile) := by
  have hproject : Path.ofText projectFile = { isAbsolute := false, parts := [projectFile] } := by
    decide
  have hlocate : files.locate? (projectAt files.here) =
      files.locate? (Path.ofText projectFile) := by
    rw [hproject]
    exact FileStore.follow_here hhere (List.prefix_refl _)
  rw [FileStore.isThere, FileStore.isThere, hlocate]

/-! ## Discovery -/

theorem isThere_of_isFile (h : isFile files p) : files.isThere p := by
  unfold isFile at h
  cases hfile : files.file p with
  | error e =>
    rw [hfile] at h
    exact nomatch h
  | ok f => exact FileStore.isThere_of_file hfile

theorem isFile_of_eligible (h : eligible world = some p) : isFile world.files p := by
  rcases Option.or_eq_some_iff.mp h with h | ⟨-, h⟩
  · exact (Option.filter_eq_some_iff.mp h).2
  rcases Option.or_eq_some_iff.mp h with h | ⟨-, h⟩
  · exact (Option.filter_eq_some_iff.mp h).2
  · obtain ⟨l, hl, rfl⟩ := Option.map_eq_some_iff.mp h
    exact isFile_of_hasTable (List.find?_some hl)

theorem returns_namedFile (world : World) :
    (namedFile world).Returns ((named? world).filter world.files.isThere) := by
  unfold namedFile named?
  cases world.env.override? "TYPESCHEMA_CONFIG_PATH" with
  | none => rfl
  | some text =>
    dsimp only
    rw [Option.map_some, Option.filter_some]
    by_cases hthere : world.files.isThere (Path.ofText text)
    · rw [if_pos hthere, if_pos hthere]
      rfl
    · rw [if_neg hthere, if_neg hthere]
      rfl

theorem outcome_discover (world : World) : (discover world).outcome =
    match (named? world).filter world.files.isThere with
    | some p => .ok (some p)
    | none =>
      if world.files.isThere (Path.ofText projectFile) then .ok (some (Path.ofText projectFile))
      else (ofExcept (nearestProject world.files (ancestors world.files.here))).outcome := by
  rw [discover, outcome_bind, returns_namedFile]
  cases (named? world).filter world.files.isThere with
  | some p => rfl
  | none => exact apply_ite Traced.outcome _ _ _

/-! ### What the environment names -/

section Named

variable (hp : named? world = some p)

include hp

theorem eligible_of_named : some p = eligible world ↔ isFile world.files p := by
  constructor
  · exact fun h ↦ isFile_of_eligible h.symm
  · intro hfile
    rw [eligible, hp, Option.filter_some, if_pos hfile]
    rfl

variable (hthere : world.files.isThere p)

include hthere

theorem returns_discover_of_named {o : Option Path} :
    (discover world).Returns o ↔ some p = o := by
  rw [Returns, outcome_discover, hp, Option.filter_some, if_pos hthere]
  dsimp only
  rw [Except.ok.injEq]

theorem misses_of_named : Misses world ↔ ¬isFile world.files p := by
  constructor
  · rintro (⟨hp', -, hfile⟩ | ⟨hnot, -⟩ | ⟨hnot, -⟩ | ⟨hnot, -⟩)
    · rwa [Option.some.inj (hp.symm.trans hp')]
    all_goals exact absurd hthere (hnot p hp)
  · exact .named hp hthere

end Named

section Unnamed

variable (hnamed : ∀ p, named? world = some p → ¬world.files.isThere p)

include hnamed

theorem filter_named?_isThere : (named? world).filter world.files.isThere = none :=
  Option.filter_eq_none_iff.mpr hnamed

theorem filter_named?_isFile : (named? world).filter (isFile world.files) = none :=
  Option.filter_eq_none_iff.mpr fun p hp hfile ↦ hnamed p hp (isThere_of_isFile hfile)

theorem eligible_of_project : some (Path.ofText projectFile) = eligible world ↔
    isFile world.files (Path.ofText projectFile) := by
  constructor
  · exact fun h ↦ isFile_of_eligible h.symm
  · intro hfile
    rw [eligible, filter_named?_isFile hnamed, Option.filter_some, if_pos hfile]
    rfl

/-! ### The project file of the working directory -/

section Project

variable (hproject : world.files.isThere (Path.ofText projectFile))

include hproject

theorem returns_discover_of_project {o : Option Path} :
    (discover world).Returns o ↔ some (Path.ofText projectFile) = o := by
  rw [Returns, outcome_discover, filter_named?_isThere hnamed]
  dsimp only
  rw [if_pos hproject, Except.ok.injEq]

theorem misses_of_project : Misses world ↔ ¬isFile world.files (Path.ofText projectFile) := by
  constructor
  · rintro (⟨hp, hthere, -⟩ | ⟨-, -, hfile⟩ | ⟨-, hnot, -⟩ | ⟨-, hnot, -⟩)
    · exact absurd hthere (hnamed _ hp)
    · exact hfile
    all_goals exact absurd hproject hnot
  · exact .project hnamed hproject

end Project

/-! ### The directories above -/

section Walk

variable (hproject : ¬world.files.isThere (Path.ofText projectFile))

include hproject

theorem returns_discover_of_walk {o : Option Path} : (discover world).Returns o ↔
    nearestProject world.files (ancestors world.files.here) = .ok o := by
  rw [Returns, outcome_discover, filter_named?_isThere hnamed]
  dsimp only
  rw [if_neg hproject]
  exact returns_ofExcept

theorem eligible_of_walk : eligible world =
    ((above world.files.here).find? (hasTable world.files)).map projectAt := by
  have hfile : ¬isFile world.files (Path.ofText projectFile) := mt isThere_of_isFile hproject
  rw [eligible, filter_named?_isFile hnamed, Option.filter_some, if_neg hfile, Option.none_or,
    Option.none_or]

theorem misses_of_walk : Misses world ↔
    ¬∀ l, firstStop? world = some l → (hasTable world.files l ↔ l ≠ []) := by
  constructor
  · rintro (⟨hp, hthere, -⟩ | ⟨-, hthere, -⟩ | ⟨-, -, hstop, hroot, htable⟩ |
      ⟨-, -, hstop, htable⟩)
    · exact absurd hthere (hnamed _ hp)
    · exact absurd hthere hproject
    · exact fun h ↦ htable ((h _ hstop).mpr hroot)
    · exact fun h ↦ (h _ hstop).mp htable rfl
  · intro h
    obtain ⟨l, h⟩ := not_forall.mp h
    obtain ⟨hstop, h⟩ := Classical.not_imp.mp h
    by_cases hroot : l = []
    · subst hroot
      exact .root hnamed hproject hstop (by simpa using h)
    · exact .walk hnamed hproject hstop hroot (by simpa [hroot] using h)

end Walk

end Unnamed

/-- **Discovery finds the file to load** exactly if it does not miss it; then a load uses the file,
or the defaults if there is none. -/
theorem discover_eligible_iff (hhere : ∀ part ∈ world.files.here, part ≠ "..") :
    ((discover world).Returns (eligible world) ↔ ¬Misses world) ∧
      (¬Misses world → ∀ cache : Cache, (cache.load world none).outcome =
        match eligible world with
        | some p => (cache.loadFile world p).outcome
        | none => .ok (cache.count {})) := by
  have hiff : (discover world).Returns (eligible world) ↔ ¬Misses world := by
    by_cases hnamed : ∃ p, named? world = some p ∧ world.files.isThere p
    · obtain ⟨p, hp, hthere⟩ := hnamed
      rw [returns_discover_of_named hp hthere, eligible_of_named hp,
        misses_of_named hp hthere, not_not]
    replace hnamed : ∀ p, named? world = some p → ¬world.files.isThere p :=
      fun p hp hthere ↦ hnamed ⟨p, hp, hthere⟩
    by_cases hproject : world.files.isThere (Path.ofText projectFile)
    · rw [returns_discover_of_project hnamed hproject, eligible_of_project hnamed,
        misses_of_project hnamed hproject, not_not]
    · have hstart : passedOver world.files world.files.here := by
        rw [passedOver_iff, isThere_projectAt_here hhere]
        exact fun hthere ↦ absurd hthere hproject
      rw [returns_discover_of_walk hnamed hproject, eligible_of_walk hnamed hproject,
        misses_of_walk hnamed hproject, not_not, firstStop?]
      exact nearestProject_ancestors_iff hstart
  refine ⟨hiff, fun hmisses cache ↦ ?_⟩
  have hfound : (found world none).outcome = .ok (eligible world) := hiff.mpr hmisses
  rw [Cache.outcome_load, hfound]
  rfl

end Configuration

/-! ## Three working directories -/

namespace Projects

open Schemata.Configuration

/-- A working directory, and files with their contents. -/
def world (here : Location) (contents : List (Location × String)) : World where
  registry := Registry.standard
  files := { files := contents.map fun (l, content) ↦ (l, ⟨content, 1⟩), folders := [here], here }

/-- A project without the table, inside of a directory that has it. -/
def nested : World :=
  world ["home", "app", "src"]
    [(["home", "pyproject.toml"], "[tool.typeschema]"),
      (["home", "app", "pyproject.toml"], "[project]")]

/-- The project without the table is passed over. -/
theorem discover_nested : (∀ part ∈ nested.files.here, part ≠ "..") ∧
    eligible nested = some (projectAt ["home"]) ∧ ¬Misses nested := by
  have hhere : ∀ part ∈ nested.files.here, part ≠ ".." := by decide
  have heligible : eligible nested = some (projectAt ["home"]) := by decide +kernel
  have hdiscover : (discover nested).outcome.toOption.map id = some (eligible nested) := by
    decide +kernel
  obtain ⟨o, ho, rfl⟩ := exists_returns_of_map hdiscover
  exact ⟨hhere, heligible, (discover_eligible_iff hhere).1.mp ho⟩

/-- A directory inside of one whose project file has the name and no table. -/
def named : World :=
  world ["session", "sub"] [(["session", "pyproject.toml"], "[tool]\ntypeschema = false\n")]

/-- A directory at the root, which has the table. -/
def rooted : World := world ["srv"] [(["pyproject.toml"], "[tool.typeschema]")]

/-- **The walk is stopped by a name without a table, and does not come to the root.** There is no
file to load in the first case and one in the second; the load fails, and the file is not found. -/
theorem not_discovered :
    (eligible named = none ∧ (({} : Cache).load named none).outcome.toOption.isNone) ∧
      eligible rooted = some (projectAt []) ∧ (discover rooted).outcome.toOption = some none := by
  decide +kernel

end Projects

end Schemata
