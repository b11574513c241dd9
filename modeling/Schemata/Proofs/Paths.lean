import Schemata.Files

/-!
# Paths and their texts

The parts of a path that was read from a text are names: they are not empty, not a dot, and hold no
slash. Such a path can be read back from its own text, so different paths have different texts
(`Path.text_injective`), and a table that is keyed by texts is keyed by paths.

Where a path from the root leads does not depend on the store, as long as it leads anywhere.
-/

namespace Schemata

namespace Path

/-! ## Parts that are names -/

/-- A name of a file or directory, as it can stand in a path. -/
structure IsName (part : String) : Prop where
  ne_empty : part ≠ ""
  ne_dot : part ≠ "."
  no_slash : '/' ∉ part.toList

/-- All parts of the path are names. -/
def WellFormed (p : Path) : Prop := ∀ part ∈ p.parts, IsName part

theorem not_mem_of_mem_pieces {cs piece : List Char} (h : piece ∈ pieces cs) : '/' ∉ piece := by
  induction cs generalizing piece with
  | nil =>
    obtain rfl := List.mem_singleton.mp h
    exact List.not_mem_nil
  | cons c cs ih =>
    rw [pieces] at h
    split at h
    · rcases List.mem_cons.mp h with rfl | h
      · exact List.not_mem_nil
      · exact ih h
    next hc =>
      have hslash : '/' ≠ c := fun hslash ↦ hc hslash.symm
      split at h
      next first more hpieces =>
        rw [hpieces] at ih
        rcases List.mem_cons.mp h with rfl | h
        · exact List.not_mem_cons_of_ne_of_not_mem hslash (ih List.mem_cons_self)
        · exact ih (List.mem_cons_of_mem first h)
      · obtain rfl := List.mem_singleton.mp h
        exact List.not_mem_cons_of_ne_of_not_mem hslash List.not_mem_nil

theorem wellFormed_ofText (s : String) : (ofText s).WellFormed := by
  intro part hpart
  obtain ⟨hmem, hname⟩ := List.mem_filter.mp hpart
  obtain ⟨piece, hpiece, rfl⟩ := List.mem_map.mp hmem
  simp only [ne_eq, decide_not, Bool.and_eq_true, Bool.not_eq_true', decide_eq_false_iff_not]
    at hname
  refine ⟨hname.1, hname.2, ?_⟩
  rw [String.toList_ofList]
  exact not_mem_of_mem_pieces hpiece

theorem wellFormed_fromRoot {p : Path} {here : Location} (hp : p.WellFormed)
    (hhere : ∀ part ∈ here, IsName part) : (p.fromRoot here).WellFormed := by
  unfold fromRoot
  split
  · exact hp
  · exact fun part hpart ↦ (List.mem_append.mp hpart).elim (hhere part) (hp part)

theorem isAbsolute_fromRoot (p : Path) (here : Location) :
    (p.fromRoot here).isAbsolute = true := by
  unfold fromRoot
  split
  next h => exact h
  · rfl

/-! ## Reading texts back -/

theorem pieces_of_not_mem {cs : List Char} (h : '/' ∉ cs) : pieces cs = [cs] := by
  induction cs with
  | nil => rfl
  | cons c cs ih =>
    have hc : c ≠ '/' := fun hc ↦ h (hc ▸ List.mem_cons_self)
    rw [pieces, if_neg hc, ih fun hcs ↦ h (List.mem_cons_of_mem c hcs)]

theorem pieces_append {cs : List Char} (h : '/' ∉ cs) (rest : List Char) :
    pieces (cs ++ '/' :: rest) = cs :: pieces rest := by
  induction cs with
  | nil => rw [List.nil_append, pieces, if_pos rfl]
  | cons c cs ih =>
    have hc : c ≠ '/' := fun hc ↦ h (hc ▸ List.mem_cons_self)
    rw [List.cons_append, pieces, if_neg hc, ih fun hcs ↦ h (List.mem_cons_of_mem c hcs)]

theorem pieces_joinWith {parts : List String} (hne : parts ≠ [])
    (h : ∀ part ∈ parts, '/' ∉ part.toList) :
    pieces (Text.joinWith "/" parts).toList = parts.map String.toList := by
  induction parts with
  | nil => exact absurd rfl hne
  | cons part parts ih =>
    obtain ⟨hpart, hparts⟩ := List.forall_mem_cons.mp h
    cases parts with
    | nil => exact pieces_of_not_mem hpart
    | cons next parts =>
      have hjoin : (Text.joinWith "/" (part :: next :: parts)).toList =
          part.toList ++ '/' :: (Text.joinWith "/" (next :: parts)).toList := by
        rw [Text.joinWith.eq_3 "/" part (next :: parts) nofun]
        simp [String.toList_append]
      rw [hjoin, pieces_append hpart, ih (List.cons_ne_nil _ _) hparts]
      rfl

theorem WellFormed.filter_parts {p : Path} (h : p.WellFormed) :
    p.parts.filter (fun part ↦ part ≠ "" && part ≠ ".") = p.parts := by
  refine List.filter_eq_self.mpr fun part hpart ↦ ?_
  simp [(h part hpart).ne_empty, (h part hpart).ne_dot]

theorem WellFormed.pieces_joinWith {p : Path} (h : p.WellFormed) (hne : p.parts ≠ []) :
    pieces (Text.joinWith "/" p.parts).toList = p.parts.map String.toList :=
  Path.pieces_joinWith hne fun part hpart ↦ (h part hpart).no_slash

/-- The parts of a text that was joined from names are these names. -/
theorem WellFormed.parts_ofText {p : Path} (h : p.WellFormed) :
    (ofText (Text.joinWith "/" p.parts)).parts = p.parts := by
  cases hparts : p.parts with
  | nil => rfl
  | cons part parts =>
    have hpieces := h.pieces_joinWith (by simp [hparts])
    rw [← hparts, ofText]
    dsimp only
    rw [hpieces, List.map_map, show String.ofList ∘ String.toList = id from
      funext fun s ↦ String.ofList_toList, List.map_id]
    exact h.filter_parts

theorem WellFormed.head?_joinWith {p : Path} (h : p.WellFormed) :
    ((Text.joinWith "/" p.parts).toList.head? == some '/') = false := by
  cases hparts : p.parts with
  | nil => rfl
  | cons part parts =>
    have hpieces := h.pieces_joinWith (by simp [hparts])
    rw [hparts] at hpieces
    cases hjoined : (Text.joinWith "/" (part :: parts)).toList with
    | nil => rfl
    | cons c cs =>
      by_cases hc : c = '/'
      · -- the first part would be empty
        rw [hjoined, pieces, if_pos hc, List.map_cons] at hpieces
        have hnil : part.toList = [] := (List.cons.inj hpieces).1.symm
        exact absurd (String.toList_eq_nil_iff.mp hnil) (h part (by simp [hparts])).ne_empty
      · simp [hc]

/-- **A well-formed path can be read back from its text.** -/
theorem ofText_text {p : Path} (h : p.WellFormed) : ofText p.text = p := by
  have hparts := h.parts_ofText
  obtain ⟨isAbsolute, parts⟩ := p
  cases isAbsolute with
  | true =>
    have hlist : ("/" ++ Text.joinWith "/" parts).toList =
        '/' :: (Text.joinWith "/" parts).toList := by
      simp [String.toList_append]
    rw [text, if_pos rfl, ofText, hlist, pieces, if_pos rfl, List.map_cons, List.filter_cons]
    exact congrArg (Path.mk true) hparts
  | false =>
    rw [text, if_neg Bool.false_ne_true]
    split
    next hempty =>
      -- nothing is joined, so there are no parts
      dsimp only at hempty hparts
      rw [String.isEmpty_iff.mp hempty] at hparts
      exact congrArg (Path.mk false) hparts
    next hempty =>
      rw [ofText, h.head?_joinWith]
      exact congrArg (Path.mk false) hparts

theorem text_injective {p q : Path} (hp : p.WellFormed) (hq : q.WellFormed)
    (h : p.text = q.text) : p = q := by
  rw [← ofText_text hp, h, ofText_text hq]

end Path

/-! ## Where paths from the root lead -/

namespace FileStore

theorem follow_eq_some {store : FileStore} {l l' : Location} {parts : List String}
    (h : store.follow l parts = some l') :
    l' = parts.foldl (fun l part ↦ if part == ".." then l.dropLast else l ++ [part]) l := by
  induction parts generalizing l with
  | nil => exact (Option.some.inj h).symm
  | cons part parts ih =>
    rw [follow] at h
    split at h
    · exact nomatch h
    · exact ih h

theorem exists_fileAt_of_file {p : Path} (hp : p.isAbsolute = true) : ∃ l, ∀ (store : FileStore) f,
    store.file p = .ok f → store.fileAt? l = some f := by
  refine ⟨p.parts.foldl (fun l part ↦ if part == ".." then l.dropLast else l ++ [part]) [],
    fun store f h ↦ ?_⟩
  rw [file, locate?, if_pos hp] at h
  split at h
  · exact nomatch h
  next l hl =>
    rw [← follow_eq_some hl]
    split at h
    next g hg => rw [hg, Except.ok.inj h]
    · exact nomatch h

end FileStore

end Schemata
