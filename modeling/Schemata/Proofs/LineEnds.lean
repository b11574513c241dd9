import Schemata.Files
import Schemata.Output
import Schemata.Proofs.JsonRoundTrip
import Schemata.Proofs.Outcome

/-!
# Ends of lines

A file is read as text with every way to end a line taken for a line feed. So what was written is
what is read back if it holds no carriage return, and this is the case for every schema in a format
for files, whatever texts are in it: JSON escapes a carriage return, and so does YAML, since a text
with one in it is put in double quotes (`Output.feedsOnly_format`).

YAML is written with a pen that moves on in small steps. Each step keeps the text of the pen free of
carriage returns if what it writes is free of them; a node is then an induction over its value.
-/

namespace Schemata

/-- No character is a carriage return. -/
def FeedsOnly (cs : List Char) : Prop := ∀ c ∈ cs, c ≠ '\r'

instance (cs : List Char) : Decidable (FeedsOnly cs) :=
  List.decidableBAll (fun c : Char ↦ c ≠ '\r') cs

namespace FeedsOnly

variable {cs ds : List Char}

theorem nil : FeedsOnly [] := List.forall_mem_nil _

theorem append (hcs : FeedsOnly cs) (hds : FeedsOnly ds) : FeedsOnly (cs ++ ds) :=
  List.forall_mem_append.mpr ⟨hcs, hds⟩

theorem cons {c : Char} (hc : c ≠ '\r') (hcs : FeedsOnly cs) : FeedsOnly (c :: cs) :=
  List.forall_mem_cons.mpr ⟨hc, hcs⟩

theorem mono (h : FeedsOnly cs) (hsub : ds ⊆ cs) : FeedsOnly ds := fun c hc ↦ h c (hsub hc)

theorem replicate {c : Char} (hc : c ≠ '\r') (n : Nat) : FeedsOnly (List.replicate n c) :=
  fun _ hd ↦ List.eq_of_mem_replicate hd ▸ hc

theorem plainLines_eq (h : FeedsOnly cs) : plainLines cs = cs := by
  induction cs with
  | nil => rw [plainLines]
  | cons c cs ih =>
    obtain ⟨hc, hcs⟩ := List.forall_mem_cons.mp h
    rw [plainLines.eq_3 c cs (fun _ hreturn _ ↦ hc hreturn) hc, ih hcs]

end FeedsOnly

/-! ## Digits -/

theorem exists_of_mem_toDigits {b n : Nat} (hb : 1 < b) {c : Char} (h : c ∈ Nat.toDigits b n) :
    ∃ k < b, c = k.digitChar := by
  induction n using Nat.strongRecOn with
  | ind n ih =>
    rcases Nat.lt_or_ge n b with hlt | hge
    · rw [Nat.toDigits_of_lt_base hlt] at h
      exact ⟨n, hlt, List.mem_singleton.mp h⟩
    · rw [Nat.toDigits_of_base_le hb hge] at h
      rcases List.mem_append.mp h with h | h
      · exact ih (n / b) (Nat.div_lt_self (by omega) hb) h
      · exact ⟨n % b, Nat.mod_lt n (by omega), List.mem_singleton.mp h⟩

theorem feedsOnly_toDigits (n : Nat) : FeedsOnly (Nat.toDigits 10 n) := by
  intro c hc
  obtain ⟨k, hk, rfl⟩ := exists_of_mem_toDigits (by decide) hc
  have hall : ∀ k < 10, k.digitChar ≠ '\r' := by decide
  exact hall k hk

theorem feedsOnly_hexPadded (width n : Nat) : FeedsOnly (Text.hexPadded width n) := by
  refine .append (.replicate (by decide) _) fun c hc ↦ ?_
  obtain ⟨k, hk, rfl⟩ := exists_of_mem_toDigits (by decide) hc
  have hall : ∀ k < 16, k.digitChar ≠ '\r' := by decide
  exact hall k hk

theorem feedsOnly_toString (n : Int) : FeedsOnly (toString n).toList := by
  cases n with
  | ofNat n => exact (Nat.toList_repr (n := n)).symm ▸ feedsOnly_toDigits n
  | negSucc n =>
    change FeedsOnly ("-" ++ (n + 1).repr).toList
    rw [String.toList_append, Nat.toList_repr]
    exact .append (by decide) (feedsOnly_toDigits (n + 1))

namespace Binary64

theorem feedsOnly_layDigits (layout : FloatLayout) {digits : List Char} (h : FeedsOnly digits)
    (lead : Int) : FeedsOnly (layDigits layout digits lead) := by
  have hpadded (n : Nat) : FeedsOnly (digits ++ List.replicate n '0') :=
    h.append (.replicate (by decide) n)
  unfold layDigits
  split
  · split
    · exact .append (.append (by decide) (.replicate (by decide) _)) h
    · refine .append ((hpadded _).mono (List.take_subset _ _)) (.cons (by decide) ?_)
      split
      · decide
      · exact (hpadded _).mono (List.drop_subset _ _)
  · refine .append (.append (.append (h.mono (List.take_subset _ _)) ?_) ?_) ?_
    · split
      · split <;> decide
      · exact .cons (by decide) (h.mono (List.drop_subset _ _))
    · split <;> decide
    · split
      · exact .cons (by decide) (feedsOnly_toDigits _)
      · exact feedsOnly_toDigits _

theorem feedsOnly_render {layout : FloatLayout} (hinfinity : FeedsOnly layout.infinity.toList)
    (hnan : FeedsOnly layout.nan.toList) (x : Binary64) :
    FeedsOnly (x.render layout).toList := by
  unfold render
  split
  · exact hnan
  · extract_lets sign s digits
    have hsign : FeedsOnly sign.toList := by
      unfold sign
      split <;> decide
    split
    · rw [String.toList_append]
      exact hsign.append hinfinity
    · rw [String.toList_append, String.toList_ofList]
      exact hsign.append (feedsOnly_layDigits layout (feedsOnly_toDigits _) _)

end Binary64

/-! ## JSON -/

namespace Json

theorem feedsOnly_escapeChar (c : Char) : FeedsOnly (escapeChar c) := by
  rw [escapeChar]
  split_ifs with hquote hescape hnewline hreturn htab hfeed hback hprintable hsmall
  iterate 7 decide
  · exact .cons hreturn .nil
  · exact .cons (by decide) (.cons (by decide) (feedsOnly_hexPadded 4 _))
  · exact .append (.cons (by decide) (.cons (by decide) (feedsOnly_hexPadded 4 _)))
      (.cons (by decide) (.cons (by decide) (feedsOnly_hexPadded 4 _)))

theorem feedsOnly_stringText (s : String) : FeedsOnly (stringText s).toList := by
  rw [toList_stringText]
  refine .append (.cons (by decide) fun c hc ↦ ?_) (by decide)
  obtain ⟨d, -, hd⟩ := List.mem_flatMap.mp hc
  exact feedsOnly_escapeChar d c hd

theorem feedsOnly_keyText : ∀ {k : Value} {key : String}, keyText k = .ok key →
    FeedsOnly key.toList
  | .str _, _, h | .int _, _, h | .float _, _, h | .bool _, _, h | .null, _, h => by
    obtain rfl := Except.ok.inj h
    exact feedsOnly_stringText _
  | .declared _ v, _, h => feedsOnly_keyText (k := v) h

mutual

theorem feedsOnly_write {style : Style} : ∀ {v : Value} {level : Nat} {text : String},
    write style level v = .ok text → FeedsOnly text.toList
  | .null, _, _, h => by
    obtain rfl := Except.ok.inj h
    decide
  | .bool b, _, _, h => by
    obtain rfl := Except.ok.inj h
    cases b <;> decide
  | .int n, _, _, h => by
    obtain rfl := Except.ok.inj h
    exact feedsOnly_toString n
  | .float x, _, _, h => by
    obtain rfl := Except.ok.inj h
    exact Binary64.feedsOnly_render (by decide) (by decide) x
  | .str s, _, _, h => by
    obtain rfl := Except.ok.inj h
    exact feedsOnly_stringText s
  | .list items, level, text, h => by
    rw [write] at h
    obtain ⟨texts, htexts, h⟩ := bind_eq_ok_iff.mp h
    obtain rfl := Except.ok.inj h
    exact forall_mem_bracket (by decide : FeedsOnly _) (by decide : FeedsOnly _)
      (by decide : FeedsOnly _) (feedsOnly_writeItems htexts)
  | .map entries, level, text, h => by
    rw [write] at h
    obtain ⟨texts, htexts, h⟩ := bind_eq_ok_iff.mp h
    obtain rfl := Except.ok.inj h
    exact forall_mem_bracket (by decide : FeedsOnly _) (by decide : FeedsOnly _)
      (by decide : FeedsOnly _) (feedsOnly_writeEntries htexts)
  | .object o, _, _, h => by
    rw [write] at h
    split at h
    · obtain rfl := Except.ok.inj h
      exact feedsOnly_stringText _
    · exact nomatch h
  | .declared _ v, _, _, h => feedsOnly_write (v := v) h

theorem feedsOnly_writeItems {style : Style} : ∀ {items : List Value} {level : Nat}
    {texts : List String}, writeItems style level items = .ok texts →
      ∀ s ∈ texts, FeedsOnly s.toList
  | [], _, _, h => by
    obtain rfl := Except.ok.inj h
    exact nofun
  | v :: rest, _, _, h => by
    rw [writeItems] at h
    obtain ⟨text, htext, h⟩ := bind_eq_ok_iff.mp h
    obtain ⟨texts, htexts, h⟩ := bind_eq_ok_iff.mp h
    obtain rfl := Except.ok.inj h
    exact List.forall_mem_cons.mpr ⟨feedsOnly_write htext, feedsOnly_writeItems htexts⟩

theorem feedsOnly_writeEntries {style : Style} : ∀ {entries : List (Value × Value)} {level : Nat}
    {texts : List String}, writeEntries style level entries = .ok texts →
      ∀ s ∈ texts, FeedsOnly s.toList
  | [], _, _, h => by
    obtain rfl := Except.ok.inj h
    exact nofun
  | (k, v) :: rest, _, _, h => by
    rw [writeEntries] at h
    obtain ⟨key, hkey, h⟩ := bind_eq_ok_iff.mp h
    obtain ⟨text, htext, h⟩ := bind_eq_ok_iff.mp h
    obtain ⟨texts, htexts, h⟩ := bind_eq_ok_iff.mp h
    obtain rfl := Except.ok.inj h
    refine List.forall_mem_cons.mpr ⟨?_, feedsOnly_writeEntries htexts⟩
    rw [String.toList_append, String.toList_append]
    exact ((feedsOnly_keyText hkey).append (by decide)).append (feedsOnly_write htext)

end

end Json

/-! ## YAML -/

namespace Yaml

/-- What has been written holds no carriage return. -/
def Pen.FeedsOnly (p : Pen) : Prop := Schemata.FeedsOnly p.text.toList

namespace Pen.FeedsOnly

variable {p : Pen} {cs : List Char} {s : String} {indent : Nat}

theorem of_text {q : Pen} (h : p.FeedsOnly) (htext : q.text = p.text) : q.FeedsOnly := by
  rw [Pen.FeedsOnly, htext]
  exact h

theorem put (h : p.FeedsOnly) (hcs : Schemata.FeedsOnly cs) : (p.put cs).FeedsOnly := by
  change Schemata.FeedsOnly (p.text ++ String.ofList cs).toList
  rw [String.toList_append, String.toList_ofList]
  exact .append h hcs

theorem lineBreak (h : p.FeedsOnly) {c : Char} (hc : c ≠ '\r') : (p.lineBreak c).FeedsOnly := by
  change Schemata.FeedsOnly (p.text.push c).toList
  rw [String.toList_push]
  exact .append h (.cons hc nofun)

theorem indentTo (h : p.FeedsOnly) (indent : Nat) : (p.indentTo indent).FeedsOnly := by
  have hfill (p : Pen) (n : Nat) (hp : p.FeedsOnly) : (p.put (List.replicate n ' ')).FeedsOnly :=
    hp.put (.replicate (by decide) n)
  unfold Pen.indentTo
  split
  · dsimp only
    split
    · exact hfill _ _ (h.lineBreak (by decide))
    · exact h.lineBreak (by decide)
  · dsimp only
    split
    · exact hfill _ _ h
    · exact h

theorem indicator (h : p.FeedsOnly) (hs : Schemata.FeedsOnly s.toList)
    {needsSpace blankAfter keepsIndent : Bool} :
    (p.indicator s needsSpace blankAfter keepsIndent).FeedsOnly := by
  have hcs : Schemata.FeedsOnly
      (if p.afterBlank || !needsSpace then s.toList else ' ' :: s.toList) := by
    split
    · exact hs
    · exact .cons (by decide) hs
  exact h.put hcs

theorem foldTo (h : p.FeedsOnly) (indent : Nat) : (p.foldTo indent).FeedsOnly := h.indentTo indent

/-! ### Scalars -/

theorem writeWords (h : p.FeedsOnly) (hcs : Schemata.FeedsOnly cs) (split : Bool) (fuel : Nat) :
    (Yaml.writeWords indent split fuel cs p).FeedsOnly := by
  induction fuel generalizing cs p with
  | zero => exact h
  | succ fuel ih =>
    unfold Yaml.writeWords
    split
    · exact h
    · refine ih ?_ (hcs.mono (List.dropWhile_subset _))
      split
      · exact h.foldTo indent
      · exact h.put (hcs.mono (List.takeWhile_subset _))
    · exact ih (h.put (hcs.mono (List.takeWhile_subset _))) (hcs.mono (List.dropWhile_subset _))

theorem writePlain (h : p.FeedsOnly) (hcs : Schemata.FeedsOnly cs) (split root : Bool) :
    (Yaml.writePlain indent split root cs p).FeedsOnly := by
  unfold Yaml.writePlain
  dsimp only
  split
  · exact h.of_text rfl
  · apply writeWords _ hcs
    split
    · exact h.of_text rfl
    · have hspace : (p.put [' ']).FeedsOnly := h.put (by decide)
      exact hspace.of_text rfl

theorem writeBreaks (h : p.FeedsOnly) {breaks : List Char} (hbreaks : Schemata.FeedsOnly breaks) :
    (Yaml.writeBreaks indent breaks p).FeedsOnly := by
  have hfold : ∀ q : Pen, q.FeedsOnly → (breaks.foldl (fun q c ↦ q.lineBreak c) q).FeedsOnly :=
    fun q hq ↦ List.foldlRecOn breaks _ hq fun _ hq c hc ↦ hq.lineBreak (hbreaks c hc)
  unfold Yaml.writeBreaks
  dsimp only
  split
  · exact (hfold _ (h.lineBreak (by decide))).indentTo indent
  · exact (hfold _ h).indentTo indent

theorem writeQuotedWords (h : p.FeedsOnly) (hcs : Schemata.FeedsOnly cs) (split : Bool)
    (fuel : Nat) (first : Bool) :
    (Yaml.writeQuotedWords indent split fuel first cs p).FeedsOnly := by
  induction fuel generalizing cs p first with
  | zero => exact h
  | succ fuel ih =>
    unfold Yaml.writeQuotedWords
    split
    · exact h
    · exact ih (h.put (by decide)) (List.forall_mem_cons.mp hcs).2 false
    next c rest _ =>
      -- a run of blanks, of ends of lines or of other characters
      have hrun (q : Char → Bool) : Schemata.FeedsOnly ((c :: rest).takeWhile q) :=
        hcs.mono (List.takeWhile_subset _)
      have hrest (q : Char → Bool) : Schemata.FeedsOnly ((c :: rest).dropWhile q) :=
        hcs.mono (List.dropWhile_subset _)
      split_ifs
      · refine ih ?_ (hrest _) false
        split_ifs
        · exact h.indentTo indent
        · exact h.put (hrun _)
      · exact ih (h.writeBreaks (hrun _)) (hrest _) false
      · exact ih (h.put (hrun _)) (hrest _) false

theorem writeSingleQuoted (h : p.FeedsOnly) (hcs : Schemata.FeedsOnly cs) (split : Bool) :
    (Yaml.writeSingleQuoted indent split cs p).FeedsOnly :=
  ((h.indicator (by decide)).writeQuotedWords hcs split _ true).indicator (by decide)

end Pen.FeedsOnly

theorem feedsOnly_hexUpper (width n : Nat) : FeedsOnly (hexUpper width n) := by
  intro c hc
  obtain ⟨d, hd, rfl⟩ := List.mem_map.mp hc
  have hall : ∀ k < 16, k.digitChar.toUpper ≠ '\r' := by decide
  rcases List.mem_append.mp hd with hd | hd
  · rw [List.eq_of_mem_replicate hd]
    decide
  · obtain ⟨k, hk, rfl⟩ := exists_of_mem_toDigits (by decide) hd
    exact hall k hk

theorem feedsOnly_escape (c : Char) : FeedsOnly (escape c) := by
  have hshort : ∀ e ∈ shortEscapes, e.2 ≠ '\r' := by decide
  unfold escape
  split
  next n e hfind =>
    exact .cons (by decide) (.cons (hshort (n, e) (List.mem_of_find?_eq_some hfind)) nofun)
  next =>
    split_ifs
    · exact .cons (by decide) (.cons (by decide) (feedsOnly_hexUpper 2 _))
    · exact .cons (by decide) (.cons (by decide) (feedsOnly_hexUpper 4 _))
    · exact .cons (by decide) (.cons (by decide) (feedsOnly_hexUpper 8 _))

theorem ne_return_of_isLiteral {c : Char} (h : isLiteral c) : c ≠ '\r' := by
  rintro rfl
  exact absurd h (by decide)

namespace Pen.FeedsOnly

variable {p : Pen} {cs : List Char} {indent : Nat}

/-- In double quotes any text can be written: what is no literal character is escaped. -/
theorem writeEscaped (h : p.FeedsOnly) {run : List Char} (hrun : Schemata.FeedsOnly run)
    (split first : Bool) : (Yaml.writeEscaped indent split first run cs p).FeedsOnly := by
  induction cs generalizing p run first with
  | nil => exact h.put (hrun.mono (List.reverse_subset.mpr (List.Subset.refl run)))
  | cons c cs ih =>
    have hflush : (p.put run.reverse).FeedsOnly :=
      h.put (hrun.mono (List.reverse_subset.mpr (List.Subset.refl run)))
    have hslash : Schemata.FeedsOnly ['\\'] := by decide
    have hfold {q : Pen} (hq : q.FeedsOnly) : ((q.put ['\\']).foldTo indent).FeedsOnly :=
      (hq.put hslash).foldTo indent
    rw [Yaml.writeEscaped]
    by_cases hliteral : isLiteral c = true
    · have hc := ne_return_of_isLiteral hliteral
      simp only [hliteral, if_true]
      split
      · apply ih _ (.cons hc .nil)
        split
        · exact (hfold hflush).put hslash
        · exact hfold hflush
      · exact ih h (.cons hc hrun) false
    · have hescaped := hflush.put (feedsOnly_escape c)
      simp only [hliteral, if_false, Bool.false_eq_true]
      split
      · apply ih _ .nil
        split
        · exact (hfold (hescaped.put .nil)).put hslash
        · exact hfold (hescaped.put .nil)
      · exact ih hescaped .nil false

theorem writeDoubleQuoted (h : p.FeedsOnly) (split : Bool) :
    (Yaml.writeDoubleQuoted indent split cs p).FeedsOnly :=
  ((h.indicator (by decide)).writeEscaped .nil split true).indicator (by decide)

end Pen.FeedsOnly

theorem feedsOnly_of_analyze {cs : List Char}
    (h : (analyze cs).plain = true ∨ (analyze cs).singleQuoted = true) : FeedsOnly cs := by
  rintro c hc rfl
  have hspecial : cs.any (fun c ↦ !(c = '\n' || (' ' ≤ c && c ≤ '~'))) = true :=
    List.any_eq_true.mpr ⟨'\r', hc, by decide⟩
  rcases h with h | h
  · dsimp only [analyze] at h
    rw [hspecial] at h
    simp only [Bool.or_true, Bool.true_or, Bool.not_true, Bool.false_eq_true] at h
  · dsimp only [analyze] at h
    rw [hspecial] at h
    simp only [Bool.or_true, Bool.not_true, Bool.false_eq_true] at h

theorem Pen.FeedsOnly.writeScalar {p : Pen} (h : p.FeedsOnly) (place : Place) (s : Scalar) :
    (Yaml.writeScalar place s p).FeedsOnly := by
  unfold Yaml.writeScalar
  dsimp only
  split_ifs with hplain hquoted
  · exact h.writePlain (feedsOnly_of_analyze (.inl (Bool.and_eq_true_iff.mp hplain).2)) _ _
  · exact h.writeSingleQuoted (feedsOnly_of_analyze (.inr (Bool.and_eq_true_iff.mp hquoted).1)) _
  · exact h.writeDoubleQuoted _

/-! ### Nodes -/

theorem feedsOnly_anchorName {again : List Nat} {n : Nat} {name : String}
    (h : anchorName again n = some name) : FeedsOnly name.toList := by
  have hid : FeedsOnly "id".toList := by decide
  unfold anchorName at h
  obtain ⟨i, -, hname⟩ := Option.map_eq_some_iff.mp h
  have hdigits := feedsOnly_toDigits (i + 1)
  dsimp only at hname
  generalize Nat.toDigits 10 (i + 1) = digits at hname hdigits
  have hzeros : FeedsOnly (List.replicate (3 - digits.length) '0') := .replicate (by decide) _
  rw [← hname, String.toList_append]
  refine hid.append ?_
  rw [String.toList_ofList]
  exact hzeros.append hdigits

mutual

theorem feedsOnly_writeNode {again : List Nat} : ∀ {v : Value} {place : Place} {s t : Progress},
    writeNode again place v s = .ok t → s.pen.FeedsOnly → t.pen.FeedsOnly
  | .declared n v, place, s, t, h, hs => by
    rw [writeNode] at h
    split at h
    next => exact feedsOnly_writeNode h hs
    next name hname =>
      have hanchor := feedsOnly_anchorName hname
      split_ifs at h
      · obtain rfl := Except.ok.inj h
        refine hs.indicator ?_
        rw [String.toList_append]
        exact .append (by decide) hanchor
      · refine feedsOnly_writeNode h (hs.indicator ?_)
        rw [String.toList_append]
        exact .append (by decide) hanchor
  | .list [], place, s, t, h, hs => by
    rw [writeNode] at h
    obtain rfl := Except.ok.inj h
    exact (hs.indicator (by decide)).indicator (by decide)
  | .map [], place, s, t, h, hs => by
    rw [writeNode] at h
    obtain rfl := Except.ok.inj h
    exact (hs.indicator (by decide)).indicator (by decide)
  | .list (v :: vs), place, s, t, h, hs => by
    rw [writeNode] at h
    exact feedsOnly_writeItems h hs
  | .map (e :: es), place, s, t, h, hs => by
    rw [writeNode] at h
    exact feedsOnly_writeEntries h hs
  | .object _, place, s, t, h, hs => by
    rw [writeNode] at h
    cases h
  | .null, place, s, t, h, hs | .bool _, place, s, t, h, hs | .int _, place, s, t, h, hs
  | .float _, place, s, t, h, hs | .str _, place, s, t, h, hs => by
    rw [writeNode] at h
    obtain rfl := Except.ok.inj h
    exact hs.writeScalar _ _

theorem feedsOnly_writeItems {again : List Nat} {indent : Nat} :
    ∀ {items : List Value} {s t : Progress},
      writeItems again indent items s = .ok t → s.pen.FeedsOnly → t.pen.FeedsOnly
  | [], s, t, h, hs => by
    rw [writeItems] at h
    obtain rfl := Except.ok.inj h
    exact hs
  | v :: rest, s, t, h, hs => by
    rw [writeItems] at h
    obtain ⟨u, hu, h⟩ := bind_eq_ok_iff.mp h
    refine feedsOnly_writeItems h (feedsOnly_writeNode hu ?_)
    exact (hs.indentTo indent).indicator (by decide)

theorem feedsOnly_writeEntries {again : List Nat} {indent : Nat} :
    ∀ {entries : List (Value × Value)} {s t : Progress},
      writeEntries again indent entries s = .ok t → s.pen.FeedsOnly → t.pen.FeedsOnly
  | [], s, t, h, hs => by
    rw [writeEntries] at h
    obtain rfl := Except.ok.inj h
    exact hs
  | (k, v) :: rest, s, t, h, hs => by
    rw [writeEntries] at h
    dsimp only at h
    -- a simple key stands before a colon, any other after a question mark
    split at h
    · obtain ⟨u, hu, h⟩ := bind_eq_ok_iff.mp h
      rw [pure_bind] at h
      obtain ⟨w, hw, h⟩ := bind_eq_ok_iff.mp h
      have hkey := feedsOnly_writeNode hu (hs.indentTo indent)
      have hcolon : (u.pen.indicator ":" false).FeedsOnly := hkey.indicator (by decide)
      exact feedsOnly_writeEntries h (feedsOnly_writeNode hw hcolon)
    · obtain ⟨u, hu, h⟩ := bind_eq_ok_iff.mp h
      rw [pure_bind] at h
      obtain ⟨w, hw, h⟩ := bind_eq_ok_iff.mp h
      have hkey := feedsOnly_writeNode hu ((hs.indentTo indent).indicator (by decide))
      have hcolon : ((u.pen.indentTo indent).indicator ":" true false true).FeedsOnly :=
        (hkey.indentTo indent).indicator (by decide)
      exact feedsOnly_writeEntries h (feedsOnly_writeNode hw hcolon)

end

theorem feedsOnly_print {v : Value} {text : String} (h : print v = .ok text) :
    FeedsOnly text.toList := by
  obtain ⟨s, hs, h⟩ := bind_eq_ok_iff.mp h
  obtain rfl := Except.ok.inj h
  have hpen : s.pen.FeedsOnly := feedsOnly_writeNode hs .nil
  split
  · exact ((hpen.indentTo 0).indicator (by decide)).indentTo 0
  · exact hpen.indentTo 0

end Yaml

theorem Output.feedsOnly_format {schema : Value} {name text : String}
    (h : Output.format schema name = .ok (.text text)) : FeedsOnly text.toList := by
  unfold Output.format at h
  split at h
  · cases h
  · cases hpretty : Json.pretty schema with
    | error e =>
      rw [hpretty] at h
      cases h
    | ok pretty =>
      rw [hpretty] at h
      obtain rfl := Output.text.inj (Except.ok.inj h)
      exact Json.feedsOnly_write hpretty
  · cases hprint : Yaml.print schema with
    | error e =>
      rw [hprint] at h
      cases h
    | ok printed =>
      rw [hprint] at h
      obtain rfl := Output.text.inj (Except.ok.inj h)
      exact Yaml.feedsOnly_print hprint
  · cases h

end Schemata
