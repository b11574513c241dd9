import Schemata.Proofs.CachedLoading
import Schemata.Proofs.Discovery

/-!
# Loading once more

Loading looks at a few paths only: the explicit one, or else the one that the environment names, the
project file in the working directory and those of the directories above (`lookedAt`). Where these
look the same, the files may have changed otherwise: loading finds the same file and has the same
outcome (`Cache.outcome_load_congr`). The cache that a load leaves behind gives the configuration
that was loaded once more, since its entry is the one that was used last
(`Cache.exists_load_again`).
-/

namespace Schemata

open Traced

/-- What is at a path looks the same in two stores. -/
structure FileStore.SameAt (files' files : FileStore) (p : Path) : Prop where
  /-- Whether anything is there. -/
  isThere : files'.isThere p = files.isThere p
  /-- The file that is there. -/
  file : files'.file p = files.file p
  /-- The file that is there when the path is written from the root. -/
  fromRoot : files'.file (p.fromRoot files.here) = files.file (p.fromRoot files.here)

namespace Configuration

variable {world : World} {files : FileStore} {path : Option Path} {p : Path}

/-- Loading looks at the same working directory and the same files. -/
structure SameSources (files : FileStore) (world : World) (path : Option Path) : Prop where
  /-- The working directory is the same. -/
  here : files.here = world.files.here
  /-- What is looked at looks the same. -/
  sameAt : ∀ p ∈ lookedAt world path, files.SameAt world.files p

theorem nearestProject_congr {ls : List Location}
    (h : ∀ l ∈ ls, files.SameAt world.files (projectAt l)) :
    nearestProject files ls = nearestProject world.files ls := by
  induction ls with
  | nil => rfl
  | cons l ls ih =>
    obtain ⟨hl, hls⟩ := List.forall_mem_cons.mp h
    rw [nearestProject_cons, nearestProject_cons, hl.isThere, mentionsTable, mentionsTable,
      projectDocument, projectDocument, hl.file, ih hls]

theorem namedFile_congr
    (h : ∀ p, named? world = some p → files.isThere p = world.files.isThere p) :
    namedFile { world with files } = namedFile world := by
  unfold namedFile
  dsimp only
  cases htext : world.env.override? "TYPESCHEMA_CONFIG_PATH" with
  | none => rfl
  | some text =>
    dsimp only
    rw [h (Path.ofText text) (by rw [named?, htext]; rfl)]

theorem found_congr (h : SameSources files world path) :
    found { world with files } path = found world path := by
  cases path with
  | some p =>
    have hthere := (h.sameAt p List.mem_cons_self).isThere
    rw [found, found, explicitFile, explicitFile, hthere]
  | none =>
    have hproject := h.sameAt (Path.ofText projectFile)
      (List.mem_append_right _ List.mem_cons_self)
    have hnamed : namedFile { world with files } = namedFile world :=
      namedFile_congr fun p hp ↦
        (h.sameAt p (List.mem_append_left _ (Option.mem_toList.mpr hp))).isThere
    have hnearest : nearestProject files (ancestors world.files.here) =
        nearestProject world.files (ancestors world.files.here) :=
      nearestProject_congr fun l hl ↦ h.sameAt (projectAt l)
        (List.mem_append_right _ (List.mem_cons_of_mem _ (List.mem_map_of_mem hl)))
    rw [found, found, discover, discover, hnamed]
    dsimp only
    rw [hproject.isThere, h.here, hnearest]

theorem ofFile_congr (h : files.file p = world.files.file p) :
    ofFile { world with files } p = ofFile world p := by
  unfold ofFile
  rw [h]
  rfl

end Configuration

namespace Cache

open Schemata.Configuration

variable {cache cache' : Cache} {world : World} {files : FileStore} {path : Option Path}
variable {l : Loaded}

theorem outcome_loadFile_congr {p : Path} (hhere : files.here = world.files.here)
    (h : files.SameAt world.files p) :
    (cache.loadFile { world with files } p).outcome = (cache.loadFile world p).outcome := by
  have hkey : keyOf { world with files } p = keyOf world p := by
    rw [keyOf, keyOf, timeOf, timeOf]
    dsimp only
    rw [hhere, h.fromRoot]
  rw [outcome_loadFile, outcome_loadFile, hkey]
  dsimp only
  rw [hhere, ofFile_congr h.fromRoot]

theorem outcome_load_congr (h : SameSources files world path) :
    (cache.load { world with files } path).outcome = (cache.load world path).outcome := by
  rw [outcome_load, outcome_load, found_congr h]
  refine bind_congr_of_ok fun o ho ↦ ?_
  cases o with
  | none => rfl
  | some p => exact outcome_loadFile_congr h.here (h.sameAt p (mem_lookedAt ho))

theorem find?_touch (cache : Cache) (key : String × Int) (l : Loaded) :
    (cache.touch key l).kept.find? (·.1 == key) = some (key, l) :=
  List.find?_cons_of_pos (beq_self_eq_true key)

theorem find?_add (cache : Cache) (key : String × Int) (c : Configuration) :
    (cache.add key c).2.kept.find? (·.1 == key) = some (key, (cache.add key c).1) :=
  List.find?_cons_of_pos (beq_self_eq_true key)

theorem exists_loadFile_again {p : Path} (h : (cache.loadFile world p).Returns (l, cache')) :
    ∃ again, (cache'.loadFile world p).Returns (l, again) := by
  rw [Returns, outcome_loadFile] at h
  have hfind : cache'.kept.find? (·.1 == keyOf world p) = some (keyOf world p, l) := by
    split at h
    next l' _ =>
      obtain ⟨rfl, rfl⟩ := Prod.mk.inj (Except.ok.inj h)
      exact find?_touch cache _ _
    next =>
      obtain ⟨c, -, h⟩ := bind_eq_ok_iff.mp h
      obtain ⟨rfl, rfl⟩ := Prod.mk.inj (Except.ok.inj h)
      exact find?_add cache _ c
  refine ⟨cache'.touch (keyOf world p) l, ?_⟩
  rw [Returns, outcome_loadFile, hfind]

/-- Loading once more gives the same configuration. -/
theorem exists_load_again (h : (cache.load world path).Returns (l, cache')) :
    ∃ l' again, (cache'.load world path).Returns (l', again) ∧
      l'.configuration = l.configuration := by
  rw [Returns, outcome_load] at h
  obtain ⟨o, ho, h⟩ := bind_eq_ok_iff.mp h
  cases o with
  | some p =>
    obtain ⟨again, hagain⟩ := exists_loadFile_again h
    refine ⟨l, again, ?_, rfl⟩
    rw [Returns, outcome_load, ho]
    exact hagain
  | none =>
    obtain ⟨rfl, -⟩ := Prod.mk.inj (Except.ok.inj h)
    refine ⟨(cache'.count {}).1, (cache'.count {}).2, ?_, rfl⟩
    rw [Returns, outcome_load, ho]
    rfl

end Cache

end Schemata
