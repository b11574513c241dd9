import Mathlib.Data.List.DropRight
import Mathlib.Data.List.Infix
import Schemata.Text.Indent

/-!
# What trimming the indentation comes to

`Text.trimIndent` folds the indentations of the lines of a text into a margin, drops as many
characters from every line, and strips line feeds. Here the result is described line by line: the
margin is the longest common prefix of the indentations (`Text.IsMargin`), it is taken off every
line that is not blank, blank lines become empty, and empty lines at both ends go
(`Text.trimIndent_removes_margin`).

Two facts carry the rest. A list is a prefix of the folded margin exactly if it is a prefix of every
indentation (`Text.prefix_foldl_commonPrefix`), so whatever the remaining lines still had in common
would have been part of the margin. And stripping line feeds from joined lines is stripping empty
lines, since no line holds a line feed.
-/

namespace Schemata

namespace Text

variable {α : Type} {p a b m : List α} {lists : List (List α)}

/-! ## Longest common prefixes -/

/-- The list is the longest prefix that these lists have in common. Without any list, nothing is
asked of it. -/
structure IsLongestPrefix (lists : List (List α)) (m : List α) : Prop where
  common : ∀ l ∈ lists, m <+: l
  longest : ∀ p, lists ≠ [] → (∀ l ∈ lists, p <+: l) → p <+: m

theorem IsLongestPrefix.drop (h : IsLongestPrefix lists m) :
    IsLongestPrefix (lists.map (·.drop m.length)) [] where
  common _ _ := List.nil_prefix
  longest p hne hp := by
    have hall : ∀ l ∈ lists, m ++ p <+: l := by
      intro l hl
      obtain ⟨rest, rfl⟩ := h.common l hl
      have hrest := hp _ (List.mem_map_of_mem hl)
      rw [List.drop_left] at hrest
      exact (List.prefix_append_right_inj m).mpr hrest
    have hlists : lists ≠ [] := fun hnil ↦ hne (by rw [hnil, List.map_nil])
    have hlength := (h.longest (m ++ p) hlists hall).length_le
    rw [List.length_append] at hlength
    exact List.prefix_nil.mpr (List.eq_nil_of_length_eq_zero (by omega))

section Fold

variable [DecidableEq α]

theorem prefix_commonPrefix : p <+: commonPrefix a b ↔ p <+: a ∧ p <+: b := by
  induction a generalizing p b with
  | nil => simp +contextual [commonPrefix]
  | cons c as ih =>
    cases b with
    | nil => simp +contextual [commonPrefix]
    | cons d bs =>
      rw [commonPrefix]
      split
      next heq =>
        subst heq
        cases p with
        | nil => simp
        | cons e ps =>
          rw [List.cons_prefix_cons, List.cons_prefix_cons, List.cons_prefix_cons, ih]
          tauto
      next hne =>
        cases p with
        | nil => simp
        | cons e ps =>
          simp only [List.prefix_nil, reduceCtorEq, List.cons_prefix_cons, false_iff, not_and]
          rintro ⟨rfl, -⟩ rfl
          exact absurd rfl hne

theorem prefix_foldl_commonPrefix :
    p <+: lists.foldl commonPrefix a ↔ p <+: a ∧ ∀ l ∈ lists, p <+: l := by
  induction lists generalizing a with
  | nil => simp
  | cons b lists ih =>
    rw [List.foldl_cons, ih, prefix_commonPrefix, List.forall_mem_cons, and_assoc]

theorem isLongestPrefix_foldl (a : List α) (lists : List (List α)) :
    IsLongestPrefix (a :: lists) (lists.foldl commonPrefix a) where
  common := List.forall_mem_cons.mpr (prefix_foldl_commonPrefix.mp List.prefix_rfl)
  longest _ _ hp := prefix_foldl_commonPrefix.mpr (List.forall_mem_cons.mp hp)

end Fold

/-! ## Splitting and joining -/

section Separator

variable {sep : α} {line cs : List α}

theorem intercalate_concat (hne : lists ≠ []) :
    [sep].intercalate (lists ++ [line]) = [sep].intercalate lists ++ sep :: line := by
  induction lists with
  | nil => exact absurd rfl hne
  | cons first lists ih =>
    cases lists with
    | nil => simp [List.intercalate]
    | cons second lists =>
      have hrest : second :: lists ≠ [] := List.cons_ne_nil _ _
      have hmore : second :: lists ++ [line] ≠ [] := List.append_ne_nil_of_left_ne_nil hrest _
      rw [List.cons_append, List.intercalate_cons_of_ne_nil hmore, ih hrest,
        List.intercalate_cons_of_ne_nil hrest]
      simp

variable [DecidableEq α]

theorem not_mem_of_mem_splitOn (h : line ∈ cs.splitOn sep) : sep ∉ line := by
  induction cs generalizing line with
  | nil =>
    rw [List.splitOn_nil] at h
    obtain rfl := List.mem_singleton.mp h
    exact List.not_mem_nil
  | cons c cs ih =>
    rw [List.splitOn_cons_eq_if_modifyHead] at h
    split at h
    · rcases List.mem_cons.mp h with rfl | h
      · exact List.not_mem_nil
      · exact ih h
    next hc =>
      have hsep : sep ≠ c := fun hsep ↦ hc (beq_iff_eq.mpr hsep.symm)
      obtain ⟨first, rest, hsplit⟩ := List.exists_cons_of_ne_nil (List.splitOn_ne_nil sep cs)
      rw [hsplit, List.modifyHead_cons] at h
      rw [hsplit] at ih
      rcases List.mem_cons.mp h with rfl | h
      · exact List.not_mem_cons_of_ne_of_not_mem hsep (ih List.mem_cons_self)
      · exact ih (List.mem_cons_of_mem first h)

theorem dropWhile_intercalate (h : ∀ l ∈ lists, sep ∉ l) :
    ([sep].intercalate lists).dropWhile (· = sep) =
      [sep].intercalate (lists.dropWhile List.isEmpty) := by
  induction lists with
  | nil => rfl
  | cons l lists ih =>
    obtain ⟨hl, hlists⟩ := List.forall_mem_cons.mp h
    cases l with
    | nil =>
      rw [List.dropWhile_cons_of_pos rfl, ← ih hlists]
      cases lists with
      | nil => simp
      | cons l lists => simp [List.intercalate_cons_of_ne_nil]
    | cons c l =>
      have hc : c ≠ sep := fun hc ↦ hl (hc ▸ List.mem_cons_self)
      rw [List.dropWhile_cons_of_neg (by simp), List.intercalate_cons_cons_left,
        List.dropWhile_cons_of_neg (by simpa using hc)]

theorem rdropWhile_intercalate (h : ∀ l ∈ lists, sep ∉ l) :
    ([sep].intercalate lists).rdropWhile (· = sep) =
      [sep].intercalate (lists.rdropWhile List.isEmpty) := by
  induction lists using List.reverseRecOn with
  | nil => rfl
  | append_singleton lists l ih =>
    obtain ⟨hlists, hl⟩ := List.forall_mem_append.mp h
    have hsep : sep ∉ l := hl l (List.mem_singleton_self l)
    rcases List.eq_nil_or_concat' l with rfl | ⟨front, c, rfl⟩
    · rw [List.rdropWhile_concat_pos _ _ _ rfl, ← ih hlists]
      rcases eq_or_ne lists [] with rfl | hne
      · rfl
      · rw [intercalate_concat hne, List.rdropWhile_concat_pos _ _ _ (by simp)]
    · have hc : c ≠ sep := fun hc ↦ hsep (by simp [hc])
      rw [List.rdropWhile_concat_neg _ _ _ (by simp)]
      -- The joined text ends with the character that the last list ends with.
      obtain ⟨start, hjoined⟩ : ∃ start,
          [sep].intercalate (lists ++ [front ++ [c]]) = start ++ [c] := by
        rcases eq_or_ne lists [] with rfl | hne
        · exact ⟨front, List.intercalate_singleton⟩
        · exact ⟨[sep].intercalate lists ++ sep :: front, by simp [intercalate_concat hne]⟩
      rw [hjoined, List.rdropWhile_concat_neg _ _ _ (by simpa using hc)]

end Separator

/-! ## Lines -/

/-- The lines of a text. -/
def linesOf (s : String) : List (List Char) := s.toList.splitOn '\n'

/-- The text with these lines. -/
def ofLines (lines : List (List Char)) : String := String.ofList (['\n'].intercalate lines)

/-- Nothing but spaces and tabs is on the line. -/
def IsBlankLine (line : List Char) : Prop := ∀ c ∈ line, c = ' ' ∨ c = '\t'

instance (line : List Char) : Decidable (IsBlankLine line) :=
  List.decidableBAll (fun c : Char ↦ c = ' ' ∨ c = '\t') line

/-- The lines that are not blank. -/
def writtenLines (lines : List (List Char)) : List (List Char) :=
  lines.filter (¬IsBlankLine ·)

/-- The longest indentation that all lines have in common, blank lines apart. -/
def IsMargin (lines : List (List Char)) (m : List Char) : Prop :=
  IsLongestPrefix ((writtenLines lines).map indentOf) m

/-- The line without the margin; of a blank line nothing is left. -/
def outdented (m line : List Char) : List Char :=
  if IsBlankLine line then [] else line.drop m.length

/-- The lines without the empty ones at both ends. -/
def withoutEmptyEnds (lines : List (List Char)) : List (List Char) :=
  (lines.dropWhile List.isEmpty).rdropWhile List.isEmpty

/-- The first and the last of the lines are not blank. -/
structure WrittenEnds (lines : List (List Char)) : Prop where
  first : ∀ line ∈ lines.head?, ¬IsBlankLine line
  last : ∀ line ∈ lines.getLast?, ¬IsBlankLine line

variable {s : String} {m line : List Char} {lines : List (List Char)}

theorem mem_writtenLines : line ∈ writtenLines lines ↔ line ∈ lines ∧ ¬IsBlankLine line := by
  simp [writtenLines]

theorem isBlankLine_nil : IsBlankLine [] := List.forall_mem_nil _

theorem isBlankLine_iff : IsBlankLine line ↔ line.all isIndent = true := by
  simp [IsBlankLine, isIndent]

theorem blankLine_eq (line : List Char) :
    blankLine line = if IsBlankLine line then [] else line := by
  simp only [blankLine, isBlankLine_iff]

theorem splitLines_eq (cs : List Char) : splitLines cs = cs.splitOn '\n' := by
  induction cs with
  | nil => rfl
  | cons c cs ih =>
    rw [splitLines, List.splitOn_cons_eq_if_modifyHead, ih]
    obtain ⟨first, rest, hsplit⟩ := List.exists_cons_of_ne_nil (List.splitOn_ne_nil '\n' cs)
    simp [hsplit]

theorem joinLines_eq (lines : List (List Char)) : joinLines lines = ['\n'].intercalate lines := by
  fun_induction joinLines lines with
  | case1 => rfl
  | case2 line => exact List.intercalate_singleton.symm
  | case3 line lines hne ih =>
    rw [ih, List.intercalate_cons_of_ne_nil hne]
    simp

theorem linesOf_ofLines (hne : lines ≠ []) (h : ∀ l ∈ lines, '\n' ∉ l) :
    linesOf (ofLines lines) = lines := by
  rw [linesOf, ofLines, String.toList_ofList, List.splitOn_intercalate '\n' h hne]

theorem stripList_intercalate (h : ∀ l ∈ lines, '\n' ∉ l) :
    stripList (· = '\n') (['\n'].intercalate lines) =
      ['\n'].intercalate (withoutEmptyEnds lines) := by
  have hrest : ∀ l ∈ lines.dropWhile List.isEmpty, '\n' ∉ l := fun l hl ↦
    h l ((List.dropWhile_suffix _).subset hl)
  calc stripList (· = '\n') (['\n'].intercalate lines)
      = ((['\n'].intercalate lines).dropWhile (· = '\n')).rdropWhile (· = '\n') := rfl
    _ = _ := by rw [dropWhile_intercalate h, rdropWhile_intercalate hrest, withoutEmptyEnds]

/-! ## Empty ends -/

theorem exists_withoutEmptyEnds (lines : List (List Char)) : ∃ before after,
    lines = before ++ withoutEmptyEnds lines ++ after ∧ ∀ l ∈ before ++ after, l = [] := by
  refine ⟨lines.takeWhile List.isEmpty, (lines.dropWhile List.isEmpty).rtakeWhile List.isEmpty,
    ?_, ?_⟩
  · rw [withoutEmptyEnds, List.append_assoc, List.rdropWhile_append_rtakeWhile,
      List.takeWhile_append_dropWhile]
  · intro l hl
    rcases List.mem_append.mp hl with hl | hl
    · exact List.isEmpty_iff.mp (List.mem_takeWhile_imp hl)
    · exact List.isEmpty_iff.mp (List.mem_rtakeWhile_imp hl)

theorem withoutEmptyEnds_subset (lines : List (List Char)) : withoutEmptyEnds lines ⊆ lines :=
  fun _ hl ↦ (List.dropWhile_suffix _).subset ((List.rdropWhile_prefix _ _).subset hl)

theorem writtenLines_withoutEmptyEnds (lines : List (List Char)) :
    writtenLines (withoutEmptyEnds lines) = writtenLines lines := by
  obtain ⟨before, after, hlines, hempty⟩ := exists_withoutEmptyEnds lines
  have hnone : ∀ ls : List (List Char), (∀ l ∈ ls, l = []) → writtenLines ls = [] := by
    intro ls hls
    refine List.filter_eq_nil_iff.mpr fun l hl ↦ ?_
    simp [hls l hl, isBlankLine_nil]
  obtain ⟨hbefore, hafter⟩ := List.forall_mem_append.mp hempty
  conv_rhs => rw [hlines]
  rw [writtenLines, writtenLines, List.filter_append, List.filter_append, ← writtenLines,
    ← writtenLines, ← writtenLines, hnone before hbefore, hnone after hafter, List.nil_append,
    List.append_nil]

theorem withoutEmptyEnds_eq_self (h : WrittenEnds lines) : withoutEmptyEnds lines = lines := by
  have hblank : ∀ l : List Char, l.isEmpty = true → IsBlankLine l := by
    intro l hl
    rw [List.isEmpty_iff.mp hl]
    exact isBlankLine_nil
  have hdrop : lines.dropWhile List.isEmpty = lines := by
    refine List.dropWhile_eq_self_iff.mpr fun hl hempty ↦ h.first _ ?_ (hblank _ hempty)
    exact List.head?_eq_getElem? ▸ List.getElem?_eq_getElem hl
  rw [withoutEmptyEnds, hdrop]
  exact List.rdropWhile_eq_self_iff.mpr fun hne hempty ↦
    h.last _ (List.getLast?_eq_some_getLast hne) (hblank _ hempty)

theorem writtenEnds_withoutEmptyEnds (h : ∀ l ∈ lines, IsBlankLine l → l = []) :
    WrittenEnds (withoutEmptyEnds lines) := by
  have hfront : withoutEmptyEnds lines <+: lines.dropWhile List.isEmpty :=
    List.rdropWhile_prefix _ _
  have hempty : ∀ l ∈ withoutEmptyEnds lines, IsBlankLine l → l.isEmpty = true := fun l hl hblank ↦
    List.isEmpty_iff.mpr (h l (withoutEmptyEnds_subset lines hl) hblank)
  constructor
  · intro l hl hblank
    have hkept := hempty l (List.mem_of_mem_head? hl) hblank
    obtain ⟨rest, hrest⟩ := hfront
    have hhead : (lines.dropWhile List.isEmpty).head? = some l := by
      rw [← hrest, List.head?_append, Option.mem_def.mp hl, Option.some_or]
    have hfirst := List.head?_dropWhile_not List.isEmpty lines
    rw [hhead] at hfirst
    exact absurd hkept (by simp [hfirst])
  · intro l hl hblank
    have hkept := hempty l (List.mem_of_mem_getLast? hl) hblank
    obtain ⟨hne, rfl⟩ := List.mem_getLast?_eq_getLast hl
    exact List.rdropWhile_last_not _ _ hne hkept

/-! ## Margins -/

theorem isBlankLine_append {front rest : List Char} :
    IsBlankLine (front ++ rest) ↔ IsBlankLine front ∧ IsBlankLine rest :=
  List.forall_mem_append

theorem isBlankLine_of_prefix_indentOf (h : m <+: indentOf line) : IsBlankLine m := by
  rw [isBlankLine_iff, List.all_eq_true]
  exact fun c hc ↦ List.mem_takeWhile_imp (h.subset hc)

theorem isMargin_commonIndent (lines : List (List Char)) :
    IsMargin lines (commonIndent (lines.map blankLine)) := by
  have hwritten : (lines.map blankLine).filter (!·.isEmpty) = writtenLines lines := by
    induction lines with
    | nil => rfl
    | cons l lines ih =>
      rw [List.map_cons, writtenLines, List.filter_cons, List.filter_cons, ih, blankLine_eq]
      by_cases hl : IsBlankLine l
      · simp [hl, writtenLines]
      · have hne : l ≠ [] := fun hnil ↦ hl (hnil ▸ isBlankLine_nil)
        simp [hl, hne, writtenLines]
  rw [IsMargin, commonIndent, hwritten]
  cases (writtenLines lines).map indentOf with
  | nil => exact ⟨List.forall_mem_nil _, fun _ hne ↦ absurd rfl hne⟩
  | cons first rest => exact isLongestPrefix_foldl first rest

theorem IsMargin.prefix_indentOf (h : IsMargin lines m) (hline : line ∈ lines)
    (hblank : ¬IsBlankLine line) : m <+: indentOf line :=
  h.common _ (List.mem_map_of_mem (mem_writtenLines.mpr ⟨hline, hblank⟩))

theorem IsMargin.unique {m' : List Char} (h : IsMargin lines m) (h' : IsMargin lines m')
    (hline : line ∈ lines) (hblank : ¬IsBlankLine line) : m = m' := by
  have hne : (writtenLines lines).map indentOf ≠ [] :=
    List.ne_nil_of_mem (List.mem_map_of_mem (mem_writtenLines.mpr ⟨hline, hblank⟩))
  have hle := h'.longest m hne h.common
  exact hle.eq_of_length_le (h.longest m' hne h'.common).length_le

theorem append_outdented (hblank : ¬IsBlankLine line) (h : m <+: indentOf line) :
    m ++ outdented m line = line := by
  obtain ⟨rest, rfl⟩ := h.trans (List.takeWhile_prefix isIndent)
  rw [outdented, if_neg hblank, List.drop_left]

theorem indentOf_outdented (hblank : ¬IsBlankLine line) (h : m <+: indentOf line) :
    indentOf line = m ++ indentOf (outdented m line) := by
  have hm : ∀ c ∈ m, isIndent c = true :=
    List.all_eq_true.mp (isBlankLine_iff.mp (isBlankLine_of_prefix_indentOf h))
  conv_lhs => rw [← append_outdented hblank h]
  exact List.takeWhile_append_of_pos hm

theorem isBlankLine_outdented_iff (h : ¬IsBlankLine line → m <+: indentOf line) :
    IsBlankLine (outdented m line) ↔ IsBlankLine line := by
  by_cases hblank : IsBlankLine line
  · rw [outdented, if_pos hblank]
    exact iff_of_true isBlankLine_nil hblank
  · refine iff_of_false (fun hrest ↦ hblank ?_) hblank
    rw [← append_outdented hblank (h hblank)]
    exact isBlankLine_append.mpr ⟨isBlankLine_of_prefix_indentOf (h hblank), hrest⟩

theorem eq_nil_of_isBlankLine_outdented (h : ¬IsBlankLine line → m <+: indentOf line)
    (hblank : IsBlankLine (outdented m line)) : outdented m line = [] := by
  rw [outdented, if_pos ((isBlankLine_outdented_iff h).mp hblank)]

theorem IsMargin.map_outdented (h : IsMargin lines m) :
    IsMargin (lines.map (outdented m)) [] := by
  have hwritten : writtenLines (lines.map (outdented m)) =
      (writtenLines lines).map (outdented m) := by
    rw [writtenLines, List.filter_map, writtenLines]
    refine congrArg _ (List.filter_congr fun l hl ↦ ?_)
    simp [isBlankLine_outdented_iff (h.prefix_indentOf hl)]
  have hindents : (writtenLines (lines.map (outdented m))).map indentOf =
      ((writtenLines lines).map indentOf).map (·.drop m.length) := by
    rw [hwritten, List.map_map, List.map_map]
    refine List.map_congr_left fun l hl ↦ ?_
    obtain ⟨hl, hblank⟩ := mem_writtenLines.mp hl
    simp [indentOf_outdented hblank (h.prefix_indentOf hl hblank)]
  rw [IsMargin, hindents]
  exact h.drop

/-! ## Trimmed lines -/

/-- Lines as trimming leaves them: the blank ones are empty, none is at an end, and the others have
no margin. -/
structure Trimmed (lines : List (List Char)) : Prop where
  noBreak : ∀ l ∈ lines, '\n' ∉ l
  tidy : ∀ l ∈ lines, IsBlankLine l → l = []
  ends : WrittenEnds lines
  margin : IsMargin lines []

theorem dedentLines_eq (h : IsMargin lines m) : dedentLines lines = lines.map (outdented m) := by
  rw [dedentLines, List.map_map]
  refine List.map_congr_left fun l hl ↦ ?_
  rw [Function.comp_apply, blankLine_eq, outdented]
  split
  · exact List.drop_nil
  next hblank => rw [(isMargin_commonIndent lines).unique h hl hblank]

theorem not_mem_of_mem_map_outdented (h : ∀ l ∈ lines, '\n' ∉ l)
    (hline : line ∈ lines.map (outdented m)) : '\n' ∉ line := by
  obtain ⟨l, hl, rfl⟩ := List.mem_map.mp hline
  unfold outdented
  split
  · exact List.not_mem_nil
  · exact fun hmem ↦ h l hl (List.mem_of_mem_drop hmem)

/-- Trimming takes the margin off every line and drops the empty lines at both ends. -/
theorem trimIndent_eq (h : IsMargin (linesOf s) m) :
    trimIndent s = ofLines (withoutEmptyEnds ((linesOf s).map (outdented m))) := by
  have hbreak : ∀ l ∈ (linesOf s).map (outdented m), '\n' ∉ l := fun l hl ↦
    not_mem_of_mem_map_outdented (fun _ ↦ not_mem_of_mem_splitOn) hl
  rw [trimIndent, splitLines_eq, ← linesOf, dedentLines_eq h, joinLines_eq,
    stripList_intercalate hbreak, ofLines]

theorem trimmed_withoutEmptyEnds (h : IsMargin lines m) (hbreak : ∀ l ∈ lines, '\n' ∉ l) :
    Trimmed (withoutEmptyEnds (lines.map (outdented m))) := by
  have htidy : ∀ l ∈ lines.map (outdented m), IsBlankLine l → l = [] := by
    intro l hl hblank
    obtain ⟨line, hline, rfl⟩ := List.mem_map.mp hl
    exact eq_nil_of_isBlankLine_outdented (h.prefix_indentOf hline) hblank
  have hsub := withoutEmptyEnds_subset (lines.map (outdented m))
  refine ⟨fun l hl ↦ not_mem_of_mem_map_outdented hbreak (hsub hl), fun l hl ↦ htidy l (hsub hl),
    writtenEnds_withoutEmptyEnds htidy, ?_⟩
  rw [IsMargin, writtenLines_withoutEmptyEnds]
  exact h.map_outdented

theorem Trimmed.trimIndent_ofLines (h : Trimmed lines) :
    trimIndent (ofLines lines) = ofLines lines := by
  rcases eq_or_ne lines [] with rfl | hne
  · rfl
  have hlines : linesOf (ofLines lines) = lines := linesOf_ofLines hne h.noBreak
  have hsame : lines.map (outdented []) = lines := by
    refine (List.map_congr_left fun l hl ↦ ?_).trans lines.map_id
    rw [outdented]
    split
    next hblank => exact (h.tidy l hl hblank).symm
    · exact List.drop_zero
  rw [trimIndent_eq (hlines.symm ▸ h.margin), hlines, hsame, withoutEmptyEnds_eq_self h.ends]

theorem Trimmed.isMargin_linesOf (h : Trimmed lines) : IsMargin (linesOf (ofLines lines)) [] := by
  rcases eq_or_ne lines [] with rfl | hne
  · exact ⟨fun _ _ ↦ List.nil_prefix, fun _ hne ↦ absurd rfl hne⟩
  · exact (linesOf_ofLines hne h.noBreak).symm ▸ h.margin

theorem isBlankLine_of_withoutEmptyEnds_eq_nil (h : IsMargin lines m)
    (hnil : withoutEmptyEnds (lines.map (outdented m)) = []) (hline : line ∈ lines) :
    IsBlankLine line := by
  obtain ⟨before, after, hlines, hempty⟩ := exists_withoutEmptyEnds (lines.map (outdented m))
  rw [hnil, List.append_nil] at hlines
  have hout : outdented m line = [] := hempty _ (hlines ▸ List.mem_map_of_mem hline)
  exact (isBlankLine_outdented_iff (h.prefix_indentOf hline)).mp (hout ▸ isBlankLine_nil)

/-- **Trimming removes exactly the common indentation and the outer blank lines.** There is a
longest indentation that the lines of a text have in common, blank lines apart. It is taken off
these lines, blank lines become empty, and empty lines at the ends go. So lines keep their
indentation relative to each other; the result begins and ends with lines that are not blank, unless
there are none; it has no common indentation; and trimming it again changes nothing. -/
theorem trimIndent_removes_margin (s : String) :
    (∃ m, IsMargin (linesOf s) m) ∧
      (∀ m, IsMargin (linesOf s) m →
        trimIndent s = ofLines (withoutEmptyEnds ((linesOf s).map (outdented m))) ∧
          ∀ a ∈ writtenLines (linesOf s), a = m ++ outdented m a ∧
            ∀ b ∈ writtenLines (linesOf s), ∀ deeper,
              indentOf b = indentOf a ++ deeper ↔
                indentOf (outdented m b) = indentOf (outdented m a) ++ deeper) ∧
      (((∀ line ∈ linesOf s, IsBlankLine line) ∧ trimIndent s = "") ∨
        WrittenEnds (linesOf (trimIndent s))) ∧
      IsMargin (linesOf (trimIndent s)) [] ∧
      trimIndent (trimIndent s) = trimIndent s := by
  have hmargin := isMargin_commonIndent (linesOf s)
  have heq := trimIndent_eq hmargin
  have htrimmed := trimmed_withoutEmptyEnds hmargin fun l hl ↦ not_mem_of_mem_splitOn hl
  refine ⟨⟨_, hmargin⟩, fun m hm ↦ ⟨trimIndent_eq hm, fun a ha ↦ ?_⟩, ?_⟩
  · obtain ⟨ha, hablank⟩ := mem_writtenLines.mp ha
    have hap := hm.prefix_indentOf ha hablank
    refine ⟨(append_outdented hablank hap).symm, fun b hb deeper ↦ ?_⟩
    obtain ⟨hb, hbblank⟩ := mem_writtenLines.mp hb
    rw [indentOf_outdented hablank hap, indentOf_outdented hbblank (hm.prefix_indentOf hb hbblank),
      List.append_assoc, List.append_cancel_left_eq]
  · rw [heq]
    refine ⟨?_, htrimmed.isMargin_linesOf, htrimmed.trimIndent_ofLines⟩
    rcases eq_or_ne (withoutEmptyEnds ((linesOf s).map (outdented _))) [] with hnil | hne
    · exact .inl ⟨fun _ ↦ isBlankLine_of_withoutEmptyEnds_eq_nil hmargin hnil, by rw [hnil]; rfl⟩
    · exact .inr ((linesOf_ofLines hne htrimmed.noBreak).symm ▸ htrimmed.ends)

/-- The margin of these lines is a blank and a tab; the second line has one more tab, and the line
between them, of two tabs, is blank. -/
theorem trimIndent_removes_margin_tabs :
    let s := "\n \tfirst\n\t\t\n \t\tsecond\n \t"
    IsMargin (linesOf s) [' ', '\t'] ∧ trimIndent s = "first\n\n\tsecond" ∧
      ¬(∀ line ∈ linesOf s, IsBlankLine line) ∧ WrittenEnds (linesOf (trimIndent s)) := by
  intro s
  have hfold : commonIndent ((linesOf s).map blankLine) = [' ', '\t'] := by decide +kernel
  have hmargin : IsMargin (linesOf s) [' ', '\t'] := hfold ▸ isMargin_commonIndent (linesOf s)
  have hwritten : ¬∀ line ∈ linesOf s, IsBlankLine line := by decide +kernel
  obtain ⟨-, htrim, hends, -⟩ := trimIndent_removes_margin s
  refine ⟨hmargin, (htrim _ hmargin).1.trans ?_, hwritten, hends.resolve_left fun h ↦ hwritten h.1⟩
  decide +kernel

end Text

end Schemata
