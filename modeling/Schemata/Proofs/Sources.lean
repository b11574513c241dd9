import Schemata.Proofs.CachedLoading

/-!
# What a configuration is read from

A load from an empty cache finds a file or none, and reads what the file hands over, with its
placeholders filled. `Configuration.source` is the value that is read; there is none where the
defaults are taken without reading anything, `Configuration.TakesDefaults`: no file was found, or a
project file has no table of its own. By `Cache.outcome_load_start` such a load is the source
followed by the reading of it, so statements about loads split into one on where a value comes from
and one on what a value spells out.
-/

namespace Schemata

open Traced

variable {env : Environment} {world : World} {path : Option Path} {p : Path} {v : Value}

/-! ## Filling always succeeds -/

namespace Placeholder

theorem exists_returns_fillPieces (env : Environment) (ps : List Piece) :
    ∃ s, (fillPieces env ps).Returns s := by
  induction ps with
  | nil => exact ⟨"", returns_pure.mpr rfl⟩
  | cons piece ps ih =>
    have hpiece : ∃ s, (fillPiece env piece).Returns s := by
      cases piece with
      | char c => exact ⟨_, returns_pure.mpr rfl⟩
      | placeholder name =>
        rw [fillPiece]
        cases env.get? (String.ofList name) <;> exact ⟨_, rfl⟩
    obtain ⟨first, hfirst⟩ := hpiece
    obtain ⟨rest, hrest⟩ := ih
    exact ⟨first ++ rest,
      returns_bind.mpr ⟨first, hfirst, returns_bind.mpr ⟨rest, hrest, returns_pure.mpr rfl⟩⟩⟩

mutual

theorem exists_returns_fill (env : Environment) (v : Value) : ∃ w, (fill env v).Returns w := by
  cases v with
  | str s =>
    obtain ⟨t, ht⟩ := exists_returns_fillPieces env (pieces s.toList)
    exact ⟨.str t, returns_bind.mpr ⟨t, ht, returns_pure.mpr rfl⟩⟩
  | list items =>
    obtain ⟨ws, hws⟩ := exists_returns_fillAll env items
    exact ⟨.list ws, returns_bind.mpr ⟨ws, hws, returns_pure.mpr rfl⟩⟩
  | map entries =>
    obtain ⟨es, hes⟩ := exists_returns_fillEntries env entries
    exact ⟨.map es, returns_bind.mpr ⟨es, hes, returns_pure.mpr rfl⟩⟩
  | _ => exact ⟨_, returns_pure.mpr rfl⟩

theorem exists_returns_fillAll (env : Environment) (vs : List Value) :
    ∃ ws, (fillAll env vs).Returns ws := by
  cases vs with
  | nil => exact ⟨[], returns_pure.mpr rfl⟩
  | cons v vs =>
    obtain ⟨w, hw⟩ := exists_returns_fill env v
    obtain ⟨ws, hws⟩ := exists_returns_fillAll env vs
    exact ⟨w :: ws, returns_bind.mpr ⟨w, hw, returns_bind.mpr ⟨ws, hws, returns_pure.mpr rfl⟩⟩⟩

theorem exists_returns_fillEntries (env : Environment) (es : List (Value × Value)) :
    ∃ ws, (fillEntries env es).Returns ws := by
  cases es with
  | nil => exact ⟨[], returns_pure.mpr rfl⟩
  | cons e es =>
    obtain ⟨w, hw⟩ := exists_returns_fill env e.2
    obtain ⟨ws, hws⟩ := exists_returns_fillEntries env es
    exact ⟨(e.1, w) :: ws,
      returns_bind.mpr ⟨w, hw, returns_bind.mpr ⟨ws, hws, returns_pure.mpr rfl⟩⟩⟩

end

end Placeholder

namespace Configuration

/-! ## Sources -/

/-- What is read of a file with this content, with its placeholders filled; nothing if the defaults
hold. -/
def filledHanding (env : Environment) (p : Path) (content : String) : Traced (Option Value) := do
  match ← handing p content with
  | some v => some <$> Placeholder.fill env v
  | none => return none

/-- What is read for a path; nothing if the defaults are taken. -/
def source (world : World) (path : Option Path) : Traced (Option Value) := do
  match ← found world path with
  | some p => do
    let f ← ofExcept (world.files.file (p.fromRoot world.files.here))
    filledHanding world.env (p.fromRoot world.files.here) f.content
  | none => return none

/-- The configuration that a source spells out. -/
def ofSource (registry : Registry) (env : Environment) : Option Value → Traced Configuration
  | some v => ofValue registry env v
  | none => return {}

theorem outcome_readHanded (registry : Registry) (p : Path) (content : String) :
    ((handing p content).outcome >>= fun v ↦ (readHanded registry env v).outcome) =
      (filledHanding env p content).outcome >>= fun v ↦ (ofSource registry env v).outcome := by
  unfold filledHanding
  rw [outcome_bind, bind_assoc]
  refine bind_congr fun v ↦ ?_
  cases v with
  | none => rfl
  | some v =>
    change (read registry env v).outcome = _
    rw [read, outcome_bind, outcome_map, map_eq_pure_bind, bind_assoc]
    rfl

/-! ## Where nothing is read -/

/-- The defaults are taken without anything being read. -/
inductive TakesDefaults (world : World) (path : Option Path) : Prop where
  /-- No file is found. -/
  | nothing (hfound : (found world path).Returns none)
  /-- The file that is found is a project file without a table of its own. -/
  | project {p : Path} {f : File} {document : Value} (hfound : (found world path).Returns (some p))
      (hfile : world.files.file (p.fromRoot world.files.here) = .ok f)
      (hname : (p.fromRoot world.files.here).name = projectFile)
      (hread : Toml.read? f.content = some document) (htable : ownTable document = .ok none)

/-- The file is a manifest. -/
def IsManifest (p : Path) : Prop := p.suffix = ".yaml" ∨ p.suffix = ".yml"

theorem isManifest_iff : (p.suffix == ".yaml" || p.suffix == ".yml") = true ↔ IsManifest p := by
  rw [IsManifest, Bool.or_eq_true, beq_iff_eq, beq_iff_eq]

theorem not_isManifest_of_name (hname : p.name = projectFile) : ¬ IsManifest p := by
  have hsuffix : p.suffix = ".toml" := by
    rw [Path.suffix, hname]
    rfl
  rw [IsManifest, hsuffix]
  decide

theorem IsManifest.not_returns_handing_none {content : String} (hmanifest : IsManifest p) :
    ¬ (handing p content).Returns none := by
  intro h
  rw [handing, if_pos (isManifest_iff.mpr hmanifest)] at h
  split at h
  · cases h
  · cases h
  · obtain ⟨spec, -, h⟩ := returns_bind.mp h
    cases returns_pure.mp h

theorem returns_handing_none {content : String} : (handing p content).Returns none ↔
    p.name = projectFile ∧
      ∃ document, Toml.read? content = some document ∧ ownTable document = .ok none := by
  by_cases hmanifest : IsManifest p
  · refine iff_of_false hmanifest.not_returns_handing_none ?_
    rintro ⟨hname, -⟩
    exact not_isManifest_of_name hname hmanifest
  rw [handing, if_neg fun h ↦ hmanifest (isManifest_iff.mp h)]
  cases Toml.read? content with
  | none =>
    refine iff_of_false (fun h ↦ ?_) ?_
    · cases h
    · rintro ⟨-, document, h, -⟩
      cases h
  | some document =>
    simp only [returns_bind, returns_ofExcept, Option.some.injEq, exists_eq_left']
    constructor
    · rintro ⟨table, htable, h⟩
      cases table with
      | some table => cases returns_pure.mp h
      | none =>
        dsimp only at h
        split at h
        next hname => exact ⟨eq_of_beq hname, htable⟩
        · cases returns_pure.mp h
    · rintro ⟨hname, htable⟩
      refine ⟨none, htable, ?_⟩
      simp [hname]

theorem returns_filledHanding_none {content : String} :
    (filledHanding env p content).Returns none ↔ (handing p content).Returns none := by
  unfold filledHanding
  rw [returns_bind]
  constructor
  · rintro ⟨v, hv, h⟩
    cases v with
    | some v =>
      obtain ⟨w, -, h⟩ := returns_map.mp h
      exact nomatch h
    | none => exact hv
  · exact fun h ↦ ⟨none, h, returns_pure.mpr rfl⟩

/-- The defaults are taken exactly where there is no source. -/
theorem returns_source_none : (source world path).Returns none ↔ TakesDefaults world path := by
  unfold source
  rw [returns_bind]
  constructor
  · rintro ⟨o, hfound, h⟩
    cases o with
    | none => exact .nothing hfound
    | some p =>
      obtain ⟨f, hfile, h⟩ := returns_bind.mp h
      obtain ⟨hname, document, hread, htable⟩ :=
        returns_handing_none.mp (returns_filledHanding_none.mp h)
      exact .project hfound (returns_ofExcept.mp hfile) hname hread htable
  · rintro (hfound | ⟨hfound, hfile, hname, hread, htable⟩)
    · exact ⟨none, hfound, returns_pure.mpr rfl⟩
    · refine ⟨_, hfound, returns_bind.mpr ⟨_, returns_ofExcept.mpr hfile, ?_⟩⟩
      exact returns_filledHanding_none.mpr (returns_handing_none.mpr ⟨hname, _, hread, htable⟩)

end Configuration

/-! ## Loads from an empty cache -/

open Schemata.Configuration in
/-- **A load from an empty cache reads its source.** -/
theorem Cache.outcome_load_start (world : World) (path : Option Path) :
    (fun r ↦ r.1.configuration) <$> (({} : Cache).load world path).outcome =
      (source world path).outcome >>= fun v ↦
        (ofSource world.registry world.env v).outcome := by
  rw [outcome_load, source, outcome_bind, map_bind, bind_assoc]
  refine bind_congr fun o ↦ ?_
  cases o with
  | none => rfl
  | some p =>
    have hparse : (fun r ↦ r.1.configuration) <$> (({} : Cache).loadFile world p).outcome =
        (ofFile world (p.fromRoot world.files.here)).outcome := by
      -- nothing is kept yet, so the file is parsed
      rw [outcome_loadFile]
      change _ <$> ((ofFile world (p.fromRoot world.files.here)).outcome >>= fun c ↦
        .ok (add {} (keyOf world p) c)) = _
      rw [map_bind]
      exact bind_pure _
    dsimp only
    rw [hparse, outcome_ofFile, outcome_bind, bind_assoc]
    exact bind_congr fun f ↦ outcome_readHanded world.registry _ f.content

end Schemata
