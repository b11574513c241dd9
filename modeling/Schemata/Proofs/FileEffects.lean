import Schemata.Proofs.Discovery
import Schemata.Proofs.Paths

/-!
# What writing does to a store

A file is written in three steps: the directories of its path are made, the path is followed, and
the place it leads to gets the text. The place is settled by the path and the working directory
(`place_eq_of_locate?`), and nothing but the file at this place changes (`fileAt?_put`).

Whatever is written, directories stay directories and files stay files (`Continues`): a directory is
made only where nothing is, and a file is written only where no directory is and all directories
above are there already. So a path that was written leads to its text (`file_put`), and a path that
was prepared once needs no more work after anything else was written (`keep_again`).
-/

namespace Schemata

namespace FileStore

variable {store store' store'' : FileStore} {l l' : Location} {p : Path} {content : String}

/-! ## One file -/

theorem fileAt?_write_self (modified : Option Int) :
    (store.write l content modified).fileAt? l =
      some ⟨content, modified.getD (store.newest + 1)⟩ := by
  rw [fileAt?, write, List.find?_cons_of_pos (by simp)]
  rfl

theorem fileAt?_write_of_ne (modified : Option Int) (h : l' ≠ l) :
    (store.write l content modified).fileAt? l' = store.fileAt? l' := by
  have hpred : (fun entry : Location × File ↦ decide (entry.1 != l ∧ entry.1 == l')) =
      fun entry ↦ entry.1 == l' := by
    funext entry
    by_cases hentry : entry.1 = l'
    · simp [hentry, h]
    · simp [hentry]
  rw [fileAt?, fileAt?, write, List.find?_cons_of_neg (by simpa using h.symm), List.find?_filter]
  exact congrArg (fun pred ↦ (store.files.find? pred).map (·.2)) hpred

/-! ## Directories -/

theorem isFolder_iff : store.isFolder l ↔
    l <+: store.here ∨ (∃ folder ∈ store.folders, l <+: folder) ∨
      ∃ entry ∈ store.files, l <+: entry.1 ∧ l ≠ entry.1 := by
  unfold isFolder
  simp only [Bool.or_eq_true, List.any_eq_true, Bool.and_eq_true, List.isPrefixOf_iff_prefix,
    bne_iff_ne, or_assoc]

theorem isFolder_of_above (h : store.isFolder l) (habove : l' <+: l) : store.isFolder l' := by
  rw [isFolder_iff] at h ⊢
  rcases h with h | ⟨folder, hfolder, h⟩ | ⟨entry, hentry, h, hne⟩
  · exact .inl (habove.trans h)
  · exact .inr (.inl ⟨folder, hfolder, habove.trans h⟩)
  · refine .inr (.inr ⟨entry, hentry, habove.trans h, ?_⟩)
    rintro rfl
    exact hne (h.eq_of_length (Nat.le_antisymm h.length_le habove.length_le))

theorem isFolder_dropLast (h : store.isFolder l) : store.isFolder l.dropLast :=
  isFolder_of_above h <| List.dropLast_prefix l

/-- The directories above a location are there. -/
def Reaches (store : FileStore) (l : Location) : Prop :=
  ∀ l', l' <+: l → l' ≠ l → store.isFolder l'

theorem reaches_of_isFolder (h : store.isFolder l) : store.Reaches l :=
  fun _ habove _ ↦ isFolder_of_above h habove

theorem reaches_append (h : store.isFolder l) (part : String) : store.Reaches (l ++ [part]) := by
  intro l' habove hne
  rcases List.prefix_concat_iff.mp habove with rfl | habove
  · exact absurd rfl hne
  · exact isFolder_of_above h habove

theorem isFolder_write (modified : Option Int) (hreaches : store.Reaches l) :
    (store.write l content modified).isFolder l' = store.isFolder l' := by
  refine Bool.eq_iff_iff.mpr ⟨fun h ↦ ?_, fun h ↦ ?_⟩
  · rcases isFolder_iff.mp h with h | h | ⟨entry, hentry, habove, hne⟩
    · exact isFolder_iff.mpr (.inl h)
    · exact isFolder_iff.mpr (.inr (.inl h))
    · rcases List.mem_cons.mp hentry with rfl | hentry
      · exact hreaches l' habove hne
      · exact isFolder_iff.mpr
          (.inr (.inr ⟨entry, (List.mem_filter.mp hentry).1, habove, hne⟩))
  · rcases isFolder_iff.mp h with h | h | ⟨entry, hentry, habove, hne⟩
    · exact isFolder_iff.mpr (.inl h)
    · exact isFolder_iff.mpr (.inr (.inl h))
    · apply isFolder_iff.mpr
      right
      right
      by_cases hl : entry.1 = l
      · rw [hl] at habove hne
        exact ⟨_, List.mem_cons_self, habove, hne⟩
      · have hkept : entry ∈ store.files.filter (·.1 != l) :=
          List.mem_filter.mpr ⟨hentry, by simpa using hl⟩
        exact ⟨entry, List.mem_cons_of_mem _ hkept, habove, hne⟩

/-! ## What stays -/

/-- Directories stay directories and files stay files. -/
structure Continues (store' store : FileStore) : Prop where
  /-- The working directory is the same. -/
  here : store'.here = store.here
  /-- Directories stay. -/
  isFolder : ∀ l, store.isFolder l → store'.isFolder l
  /-- No file is put in the place of a directory. -/
  fileAt? : ∀ l, store.isFolder l → store'.fileAt? l = store.fileAt? l
  /-- Files stay, whatever they hold. -/
  isSome : ∀ l, (store.fileAt? l).isSome → (store'.fileAt? l).isSome
  /-- No directory is made in the place of a file. -/
  notFolder : ∀ l, (store.fileAt? l).isSome → store'.isFolder l → store.isFolder l

namespace Continues

theorem refl (store : FileStore) : store.Continues store :=
  ⟨rfl, fun _ h ↦ h, fun _ _ ↦ rfl, fun _ h ↦ h, fun _ _ h ↦ h⟩

theorem trans (h' : store''.Continues store') (h : store'.Continues store) :
    store''.Continues store where
  here := h'.here.trans h.here
  isFolder l hl := h'.isFolder l (h.isFolder l hl)
  fileAt? l hl := (h'.fileAt? l (h.isFolder l hl)).trans (h.fileAt? l hl)
  isSome l hl := h'.isSome l (h.isSome l hl)
  notFolder l hl hfolder := h.notFolder l hl (h'.notFolder l (h.isSome l hl) hfolder)

end Continues

theorem continues_addFolder (hfree : store.fileAt? l = none) (hreaches : store.Reaches l) :
    Continues { store with folders := l :: store.folders } store where
  here := rfl
  isFolder l' h := by
    unfold FileStore.isFolder at h ⊢
    simp only [List.any_cons, Bool.or_eq_true] at h ⊢
    tauto
  fileAt? _ _ := rfl
  isSome _ h := h
  notFolder l' hfile h := by
    rcases isFolder_iff.mp h with hhere | ⟨folder, hfolder, habove⟩ | hbelow
    · exact isFolder_iff.mpr (.inl hhere)
    · rcases List.mem_cons.mp hfolder with rfl | hfolder
      · refine hreaches l' habove ?_
        rintro rfl
        rw [hfree] at hfile
        cases hfile
      · exact isFolder_iff.mpr (.inr (.inl ⟨folder, hfolder, habove⟩))
    · exact isFolder_iff.mpr (.inr (.inr hbelow))

theorem continues_write (modified : Option Int) (hfree : ¬store.isFolder l)
    (hreaches : store.Reaches l) : Continues (store.write l content modified) store where
  here := rfl
  isFolder l' h := (isFolder_write modified hreaches).trans h
  fileAt? l' h := by
    refine fileAt?_write_of_ne modified ?_
    rintro rfl
    exact hfree h
  isSome l' h := by
    by_cases hl : l' = l
    · rw [hl, fileAt?_write_self]
      rfl
    · rwa [fileAt?_write_of_ne modified hl]
  notFolder l' _ h := (isFolder_write modified hreaches).symm.trans h

/-! ## Making directories -/

section Folders

variable {parts : List String}

theorem files_makeFolders (h : store.makeFolders l parts = .ok store') :
    store'.files = store.files := by
  induction parts generalizing store l with
  | nil =>
    obtain rfl := Except.ok.inj h
    rfl
  | cons part parts ih =>
    rw [makeFolders] at h
    generalize (if part == ".." then l.dropLast else l ++ [part]) = next at h
    split at h
    · cases h
    split at h
    · exact ih h
    · have hnext := ih h
      exact hnext

theorem continues_makeFolders (hl : store.isFolder l)
    (h : store.makeFolders l parts = .ok store') : store'.Continues store := by
  induction parts generalizing store l with
  | nil =>
    obtain rfl := Except.ok.inj h
    exact .refl _
  | cons part parts ih =>
    have hnext : store.Reaches (if part == ".." then l.dropLast else l ++ [part]) := by
      split
      · exact reaches_of_isFolder (isFolder_dropLast hl)
      · exact reaches_append hl part
    rw [makeFolders] at h
    generalize (if part == ".." then l.dropLast else l ++ [part]) = next at h hnext
    split at h
    · cases h
    next hfree =>
      split at h
      next hfolder => exact ih hfolder h
      next =>
        have hfree := Option.not_isSome_iff_eq_none.mp hfree
        refine (ih ?_ h).trans (continues_addFolder hfree hnext)
        exact isFolder_iff.mpr (.inr (.inl ⟨next, List.mem_cons_self, List.prefix_refl next⟩))

theorem isFolder_addFolder : isFolder { store with folders := l :: store.folders } l :=
  isFolder_iff.mpr (.inr (.inl ⟨l, List.mem_cons_self, List.prefix_refl l⟩))

theorem makeFolders_again (h : store.makeFolders l parts = .ok store')
    (hlater : store''.Continues store') : store''.makeFolders l parts = .ok store'' := by
  induction parts generalizing store l with
  | nil => rfl
  | cons part parts ih =>
    rw [makeFolders] at h ⊢
    generalize (if part == ".." then l.dropLast else l ++ [part]) = next at h ⊢
    split at h
    · cases h
    next hfree =>
      -- the rest is made in a store where the next directory is there
      have hmade : ∃ made : FileStore, made.makeFolders next parts = .ok store' ∧
          made.isFolder next ∧ made.fileAt? next = none := by
        have hfree := Option.not_isSome_iff_eq_none.mp hfree
        split at h
        next hfolder => exact ⟨store, h, hfolder, hfree⟩
        next => exact ⟨_, h, isFolder_addFolder, hfree⟩
      obtain ⟨made, hmade, hfolder, hfree⟩ := hmade
      have hfolder' := (continues_makeFolders hfolder hmade).isFolder next hfolder
      have hfree' : store''.fileAt? next = none := by
        rw [hlater.fileAt? next hfolder', FileStore.fileAt?, files_makeFolders hmade]
        exact hfree
      rw [hfree', if_neg (by simp), if_pos (hlater.isFolder next hfolder')]
      exact ih hmade

end Folders

/-! ## The place of a path -/

theorem place_eq_of_locate? (h : store.locate? p = some l) : l = store.place p := follow_eq_some h

theorem place_congr (h : store'.here = store.here) (p : Path) : store'.place p = store.place p := by
  rw [place, place, h]

theorem isFolder_start (store : FileStore) (p : Path) :
    store.isFolder (if p.isAbsolute then [] else store.here) := by
  apply isFolder_iff.mpr
  left
  split
  · exact List.nil_prefix
  · exact List.prefix_refl _

theorem reaches_of_follow {parts : List String} (hl : store.Reaches l)
    (h : store.follow l parts = some l') : store.Reaches l' := by
  induction parts generalizing l with
  | nil =>
    obtain rfl := Option.some.inj h
    exact hl
  | cons part parts ih =>
    rw [follow] at h
    split at h
    · cases h
    next hfolder =>
      rw [Bool.not_eq_true, Bool.not_eq_false'] at hfolder
      refine ih ?_ h
      split
      · exact reaches_of_isFolder (isFolder_dropLast hfolder)
      · exact reaches_append hfolder part

/-- Following parts keeps to directories, so it leads to the same place where they stay. -/
theorem follow_again {parts : List String} (hlater : store'.Continues store)
    (h : store.follow l parts = some l') : store'.follow l parts = some l' := by
  induction parts generalizing l with
  | nil => exact h
  | cons part parts ih =>
    rw [follow] at h ⊢
    split at h
    · cases h
    next hfolder =>
      rw [Bool.not_eq_true, Bool.not_eq_false'] at hfolder
      rw [if_neg (by simp [hlater.isFolder l hfolder])]
      exact ih h

theorem locate?_again (hlater : store'.Continues store) (h : store.locate? p = some l) :
    store'.locate? p = some l := by
  rw [locate?, hlater.here]
  exact follow_again hlater h

/-! ## Preparing a path -/

/-- What is there once a path was prepared. -/
structure Prepared (store' store : FileStore) (p : Path) (l : Location) : Prop where
  /-- The directories of the path could be made. -/
  made : store.makeFolders (if p.isAbsolute then [] else store.here) p.parent.parts = .ok store'
  /-- The path leads to a location. -/
  locate? : store'.locate? p = some l
  /-- No directory is there. -/
  free : ¬store'.isFolder l

theorem prepare_eq_ok_iff : store.prepare p = .ok (store', l) ↔ store'.Prepared store p l := by
  unfold prepare
  rw [bind_eq_ok_iff]
  constructor
  · rintro ⟨made, hmade, h⟩
    split at h
    · cases h
    next place hplace =>
      split at h
      · cases h
      next hfree =>
        obtain ⟨rfl, rfl⟩ := Prod.mk.inj (Except.ok.inj h)
        exact ⟨hmade, hplace, hfree⟩
  · intro h
    refine ⟨store', h.made, ?_⟩
    rw [h.locate?]
    exact if_neg h.free

namespace Prepared

variable (h : store'.Prepared store p l)

include h

theorem continues : store'.Continues store := continues_makeFolders (isFolder_start store p) h.made

theorem fileAt?_eq (l' : Location) : store'.fileAt? l' = store.fileAt? l' := by
  rw [FileStore.fileAt?, FileStore.fileAt?, files_makeFolders h.made]

theorem eq_place : l = store.place p := by
  rw [place_eq_of_locate? h.locate?, place_congr h.continues.here]

theorem reaches : store'.Reaches l :=
  reaches_of_follow (reaches_of_isFolder (isFolder_start store' p)) h.locate?

theorem continues_write (modified : Option Int) :
    (store'.write l content modified).Continues store :=
  (FileStore.continues_write modified h.free h.reaches).trans h.continues

theorem again (hlater : store''.Continues store') (hfree : ¬store''.isFolder l) :
    store''.Prepared store'' p l where
  made := by
    have hmade := makeFolders_again h.made hlater
    rwa [hlater.here, h.continues.here]
  locate? := locate?_again hlater h.locate?
  free := hfree

end Prepared

/-! ## Writing a file -/

theorem put_eq_ok_iff : store.put p content = .ok store' ↔
    ∃ (made : FileStore) (l : Location), made.Prepared store p l ∧
      store' = made.write l content none := by
  unfold put
  rw [bind_eq_ok_iff]
  constructor
  · rintro ⟨⟨made, l⟩, hmade, h⟩
    exact ⟨made, l, prepare_eq_ok_iff.mp hmade, (Except.ok.inj h).symm⟩
  · rintro ⟨made, l, hmade, rfl⟩
    exact ⟨(made, l), prepare_eq_ok_iff.mpr hmade, rfl⟩

theorem continues_put (h : store.put p content = .ok store') : store'.Continues store := by
  obtain ⟨made, l, hmade, rfl⟩ := put_eq_ok_iff.mp h
  exact hmade.continues_write none

theorem fileAt?_put (h : store.put p content = .ok store') (hl : l ≠ store.place p) :
    store'.fileAt? l = store.fileAt? l := by
  obtain ⟨made, place, hmade, rfl⟩ := put_eq_ok_iff.mp h
  rw [← hmade.eq_place] at hl
  rw [fileAt?_write_of_ne none hl, hmade.fileAt?_eq]

theorem file_put (h : store.put p content = .ok store') :
    ∃ time, store'.file p = .ok ⟨content, time⟩ := by
  obtain ⟨made, place, hmade, rfl⟩ := put_eq_ok_iff.mp h
  refine ⟨made.newest + 1, ?_⟩
  rw [file, locate?_again (continues_write none hmade.free hmade.reaches) hmade.locate?]
  dsimp only
  rw [fileAt?_write_self]
  rfl

theorem fileAt?_of_file {f : File} (h : store.file p = .ok f) :
    store.fileAt? (store.place p) = some f := by
  unfold file at h
  split at h
  · cases h
  next l hl =>
    rw [← place_eq_of_locate? hl]
    split at h
    next g hg => rw [hg, Except.ok.inj h]
    · cases h

/-! ## Keeping a file -/

theorem keep_eq_ok_iff : store.keep p = .ok (store', l) ↔
    ∃ made : FileStore, made.Prepared store p l ∧
      store' = if (made.fileAt? l).isSome then made else made.write l "" none := by
  unfold keep
  rw [bind_eq_ok_iff]
  constructor
  · rintro ⟨⟨made, place⟩, hmade, h⟩
    obtain ⟨rfl, rfl⟩ := Prod.mk.inj (Except.ok.inj h)
    exact ⟨made, prepare_eq_ok_iff.mp hmade, rfl⟩
  · rintro ⟨made, hmade, rfl⟩
    exact ⟨(made, l), prepare_eq_ok_iff.mpr hmade, rfl⟩

theorem continues_keep (h : store.keep p = .ok (store', l)) : store'.Continues store := by
  obtain ⟨made, hmade, rfl⟩ := keep_eq_ok_iff.mp h
  split
  · exact hmade.continues
  · exact hmade.continues_write none

/-- No file changes, except that the one that is kept may be new. -/
theorem fileAt?_keep (h : store.keep p = .ok (store', l)) (l' : Location) :
    store'.fileAt? l' = store.fileAt? l' ∨ l' = store.place p ∧ store.fileAt? l' = none ∧
      ∃ time, store'.fileAt? l' = some ⟨"", time⟩ := by
  obtain ⟨made, hmade, rfl⟩ := keep_eq_ok_iff.mp h
  split
  · exact .inl (hmade.fileAt?_eq l')
  next hnone =>
    by_cases hl' : l' = l
    · subst hl'
      refine .inr ⟨hmade.eq_place, ?_, _, fileAt?_write_self none⟩
      rw [← hmade.fileAt?_eq]
      exact Option.not_isSome_iff_eq_none.mp hnone
    · exact .inl ((fileAt?_write_of_ne none hl').trans (hmade.fileAt?_eq l'))

theorem keep_again (h : store.keep p = .ok (store', l)) (hlater : store''.Continues store') :
    store''.keep p = .ok (store'', l) := by
  obtain ⟨made, hmade, hstore'⟩ := keep_eq_ok_iff.mp h
  have hkept : store'.Continues made ∧ (store'.fileAt? l).isSome ∧ ¬store'.isFolder l := by
    split at hstore'
    next hfile =>
      subst hstore'
      exact ⟨.refl _, hfile, hmade.free⟩
    next =>
      subst hstore'
      refine ⟨continues_write none hmade.free hmade.reaches, ?_, ?_⟩
      · rw [fileAt?_write_self]
        rfl
      · rw [isFolder_write none hmade.reaches]
        exact hmade.free
  obtain ⟨hcontinues, hfile, hfree⟩ := hkept
  have hagain := hmade.again (hlater.trans hcontinues) fun hl ↦ hfree (hlater.notFolder l hfile hl)
  exact keep_eq_ok_iff.mpr ⟨store'', hagain, (if_pos (hlater.isSome l hfile)).symm⟩

end FileStore

end Schemata
