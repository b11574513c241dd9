import Schemata.Output
import Schemata.Proofs.JsonGrammar

/-!
# Reading back what was written as JSON

A value is `Exact` if JSON says everything about it: it is made of null, truth values, integers,
strings, lists and mappings with strings for keys. Such a value is written as a text of the grammar
that denotes it (`exists_writes`), whatever the layout; by induction on the value, since a style only
decides which blanks stand around the structural characters.

The text of an output is therefore read back as the value that was put out, and different values
have different texts. What the text does not say is which of its parts were declared once and used
twice: it denotes the value without the numbers of declarations, `Value.bare`.
-/

namespace Schemata

namespace Value

mutual

/-- A value without the numbers of declarations, at any depth. -/
def bare : Value → Value
  | .list items => .list (bareItems items)
  | .map entries => .map (bareEntries entries)
  | .declared _ v => bare v
  | v => v

/-- The items of a list without the numbers of declarations. -/
def bareItems : List Value → List Value
  | [] => []
  | v :: rest => bare v :: bareItems rest

/-- The entries of a mapping; their values are without the numbers of declarations. -/
def bareEntries : List (Value × Value) → List (Value × Value)
  | [] => []
  | (k, v) :: rest => (k, bare v) :: bareEntries rest

end

/-- The value is null, a truth value, an integer, a string, a list of such values, or a mapping of
strings to such values. -/
inductive Exact : Value → Prop
  | null : Exact .null
  | bool (b : Bool) : Exact (.bool b)
  | int (n : Int) : Exact (.int n)
  | str (s : String) : Exact (.str s)
  | list {items : List Value} (h : ∀ v ∈ items, Exact v) : Exact (.list items)
  | map {entries : List (Value × Value)} (hkeys : ∀ x ∈ entries, ∃ key, x.1 = .str key)
      (hvalues : ∀ x ∈ entries, Exact x.2) : Exact (.map entries)
  | declared {number : Nat} {v : Value} (h : Exact v) : Exact (.declared number v)

end Value

namespace Json

/-! ## Strings -/

/-- Characters in the range of ASCII. -/
def Ascii (cs : List Char) : Prop := ∀ c ∈ cs, c.toNat < 0x80

instance (cs : List Char) : Decidable (Ascii cs) :=
  List.decidableBAll (fun c : Char ↦ c.toNat < 0x80) cs

theorem Ascii.append {cs ds : List Char} (hcs : Ascii cs) (hds : Ascii ds) : Ascii (cs ++ ds) :=
  fun c hc ↦ (List.mem_append.mp hc).elim (hcs c) (hds c)

theorem Ascii.cons {c : Char} {cs : List Char} (hc : c.toNat < 0x80) (hcs : Ascii cs) :
    Ascii (c :: cs) :=
  List.forall_mem_cons.mpr ⟨hc, hcs⟩

theorem hexDigit_digitChar {n : Nat} (h : n < 16) : HexDigit n.digitChar n := by
  have hall : ∀ n < 16, hexDigits[n]? = some n.digitChar := by decide
  exact .inl (hall n h)

theorem hexPadded_succ (width n : Nat) : Text.hexPadded (width + 2) n =
    Text.hexPadded (width + 1) (n / 16) ++ [(n % 16).digitChar] := by
  rw [Text.hexPadded, Text.hexPadded]
  rcases Nat.lt_or_ge n 16 with hlt | hge
  · have hzero : n / 16 = 0 := by omega
    have hmod : n % 16 = n := by omega
    rw [hzero, hmod, Nat.toDigits_of_lt_base hlt, Nat.toDigits_zero]
    simp [List.replicate_succ']
  · rw [Nat.toDigits_of_base_le (by decide) hge]
    simp

theorem hexPadded_one {n : Nat} (h : n < 16) : Text.hexPadded 1 n = [n.digitChar] := by
  rw [Text.hexPadded, Nat.toDigits_of_lt_base h]
  rfl

theorem fourDigits_hexPadded {n : Nat} (h : n < 0x10000) : FourDigits (Text.hexPadded 4 n) n := by
  have hvalue : n / 16 / 16 / 16 * 0x1000 + n / 16 / 16 % 16 * 0x100 + n / 16 % 16 * 0x10 + n % 16 =
      n := by omega
  have hdigits := FourDigits.intro (hexDigit_digitChar (n := n / 16 / 16 / 16) (by omega))
    (hexDigit_digitChar (n := n / 16 / 16 % 16) (by omega))
    (hexDigit_digitChar (n := n / 16 % 16) (by omega)) (hexDigit_digitChar (n := n % 16) (by omega))
  rw [hvalue] at hdigits
  rw [hexPadded_succ, hexPadded_succ, hexPadded_succ, hexPadded_one (by omega)]
  exact hdigits

theorem HexDigit.ascii {c : Char} {n : Nat} (h : HexDigit c n) : c.toNat < 0x80 := by
  have hall : Ascii hexDigits ∧ Ascii upperHexDigits := by decide
  rcases h with h | h
  · exact hall.1 c (List.mem_of_getElem? h)
  · exact hall.2 c (List.mem_of_getElem? h)

theorem FourDigits.ascii {digits : List Char} {n : Nat} (h : FourDigits digits n) :
    Ascii digits := by
  cases h with
  | intro ha hb hc hd =>
    exact .cons ha.ascii (.cons hb.ascii (.cons hc.ascii (.cons hd.ascii nofun)))

theorem ascii_unitEscape {n : Nat} (h : n < 0x10000) : Ascii (unitEscape n) :=
  .cons (by decide) (.cons (by decide) (fourDigits_hexPadded h).ascii)

theorem spelled_escapeChar (c : Char) : Spelled c (escapeChar c) ∧ Ascii (escapeChar c) := by
  have hshort : ∀ letter, (letter, c) ∈ shortEscapes → letter.toNat < 0x80 →
      Spelled c ['\\', letter] ∧ Ascii ['\\', letter] := fun letter h hletter ↦
    ⟨.short h, .cons (by decide) (.cons hletter nofun)⟩
  rw [escapeChar]
  split_ifs with hquote hescape hnewline hreturn htab hfeed hback hprintable hsmall
  · exact hshort _ (by subst hquote; decide) (by decide)
  · exact hshort _ (by subst hescape; decide) (by decide)
  · exact hshort _ (by subst hnewline; decide) (by decide)
  · exact hshort _ (by subst hreturn; decide) (by decide)
  · exact hshort _ (by subst htab; decide) (by decide)
  · have hc : c = '\x0c' := Char.toNat_inj.mp hfeed
    exact hshort _ (by subst hc; decide) (by decide)
  · have hc : c = '\x08' := Char.toNat_inj.mp hback
    exact hshort _ (by subst hc; decide) (by decide)
  · exact ⟨.itself hprintable.1 hquote hescape, .cons (by omega) nofun⟩
  · exact ⟨.unit (fourDigits_hexPadded hsmall), ascii_unitEscape hsmall⟩
  · -- beyond the sixteen-bit characters there are twenty bits, ten for each unit
    have hlt : c.toNat < 0x110000 := by
      rcases c.valid with h | h
      · exact h.trans (by decide)
      · exact h.2
    refine ⟨.pair (n := 0xd800 + (c.toNat - 0x10000) / 0x400)
      (m := 0xdc00 + (c.toNat - 0x10000) % 0x400) (fourDigits_hexPadded (by omega))
      (fourDigits_hexPadded (by omega)) (by omega) (by omega) (by omega),
      (ascii_unitEscape (by omega)).append (ascii_unitEscape (by omega))⟩

theorem characters_escapeChar (cs : List Char) : Characters cs (cs.flatMap escapeChar) := by
  induction cs with
  | nil => exact .nil
  | cons c cs ih => exact .cons (spelled_escapeChar c).1 ih

theorem toList_stringText (s : String) :
    (stringText s).toList = '"' :: s.toList.flatMap escapeChar ++ ['"'] :=
  String.toList_ofList

theorem quoted_stringText (s : String) : Quoted s (stringText s).toList := by
  rw [toList_stringText]
  exact .intro (characters_escapeChar s.toList)

theorem ascii_stringText (s : String) : Ascii (stringText s).toList := by
  rw [toList_stringText]
  refine .append (.cons (by decide) fun c hc ↦ ?_) (.cons (by decide) nofun)
  obtain ⟨d, -, hd⟩ := List.mem_flatMap.mp hc
  exact (spelled_escapeChar d).2 c hd

/-! ## Integers -/

theorem digits_toDigits (n : Nat) : Digits (Nat.toDigits 10 n) where
  ne_nil := Nat.toDigits_ne_nil
  isDigit _ hc := Nat.isDigit_of_mem_toDigits (by decide) (by decide) hc

theorem whole_toDigits (n : Nat) : Whole (Nat.toDigits 10 n) where
  toDigits := digits_toDigits n
  leading := by
    induction n using Nat.strongRecOn with
    | ind n ih =>
      rcases Nat.lt_or_ge n 10 with hlt | hge
      · rw [Nat.toDigits_of_lt_base hlt]
        exact fun h ↦ by rw [Option.some.inj h]
      · intro h
        rw [Nat.toDigits_of_base_le (by decide) hge,
          List.head?_append_of_ne_nil _ Nat.toDigits_ne_nil] at h
        -- the digits before the last one would be a zero, but they are those of n / 10
        have hzero := ih (n / 10) (by omega) h
        have hvalue := Nat.ofDigitChars_ten_toDigits (n := n / 10)
        rw [hzero] at hvalue
        have : n / 10 = 0 := hvalue.symm
        omega

theorem ascii_of_digits {cs : List Char} (h : Digits cs) : Ascii cs := by
  intro c hc
  obtain ⟨-, hle⟩ := Char.isDigit_iff_toNat.mp (h.isDigit c hc)
  exact hle.trans_lt (by decide)

theorem number_toDigits (negative : Bool) (n : Nat) :
    Number (.int (if negative then -n else n)) (minus negative ++ Nat.toDigits 10 n) := by
  have h := @Number.intro negative _ _ _ _ _ (whole_toDigits n) .absent .absent
  simpa [numberOf, signed] using h

theorem number_toString (n : Int) :
    Number (.int n) (toString n).toList ∧ Ascii (toString n).toList := by
  cases n with
  | ofNat n =>
    have htext : (toString (Int.ofNat n)).toList = minus false ++ Nat.toDigits 10 n :=
      Nat.toList_repr
    rw [htext]
    exact ⟨number_toDigits false n, ascii_of_digits (digits_toDigits n)⟩
  | negSucc n =>
    have htext : (toString (Int.negSucc n)).toList = minus true ++ Nat.toDigits 10 (n + 1) := by
      change ("-" ++ (n + 1).repr).toList = _
      rw [String.toList_append, Nat.toList_repr]
      rfl
    rw [htext]
    exact ⟨number_toDigits true (n + 1),
      .cons (by decide) (ascii_of_digits (digits_toDigits (n + 1)))⟩

/-! ## Layout -/

theorem blanks_breakAt (style : Style) (level : Nat) : Blanks (breakAt style level).toList := by
  rw [breakAt]
  cases style.indent with
  | none => exact nofun
  | some width =>
    intro c hc
    simp only [String.toList_append, String.toList_ofList, List.mem_append,
      List.mem_replicate] at hc
    rcases hc with hc | ⟨-, rfl⟩
    · exact .inr (.inr (.inl (List.mem_singleton.mp hc)))
    · exact .inl rfl

/-- What stands between two items. -/
def separatorAt (style : Style) (level : Nat) : String :=
  (if style.indent.isSome then "," else ", ") ++ breakAt style level

theorem mark_cons {c : Char} {after : List Char} (h : Blanks after) : Mark c (c :: after) :=
  @Mark.intro c [] after nofun h

theorem mark_separatorAt (style : Style) (level : Nat) :
    Mark ',' (separatorAt style level).toList := by
  have hblanks := blanks_breakAt style level
  rw [separatorAt, String.toList_append]
  split
  · exact mark_cons hblanks
  · exact mark_cons (List.forall_mem_cons.mpr ⟨.inl rfl, hblanks⟩)

theorem mark_opening {style : Style} {level : Nat} {c : Char} {opening : String}
    (h : opening.toList = [c]) : Mark c (opening ++ breakAt style level).toList := by
  rw [String.toList_append, h]
  exact mark_cons (blanks_breakAt style level)

theorem mark_closing {style : Style} {level : Nat} {c : Char} {closing : String}
    (h : closing.toList = [c]) : Mark c (breakAt style level ++ closing).toList := by
  rw [String.toList_append, h]
  exact .intro (blanks_breakAt style level) nofun

theorem bracket_nil (style : Style) (level : Nat) (opening closing : String) :
    bracket style level opening closing [] = opening ++ closing := rfl

theorem bracket_cons (style : Style) (level : Nat) (opening closing text : String)
    (texts : List String) : bracket style level opening closing (text :: texts) =
      opening ++ breakAt style (level + 1) ++
        Text.joinWith (separatorAt style (level + 1)) (text :: texts) ++
          (breakAt style level ++ closing) := by
  rw [bracket, List.isEmpty_cons, if_neg Bool.false_ne_true, separatorAt]
  simp [String.append_assoc]

/-! ## Texts of values -/

/-- The text denotes the value, and is in ASCII. -/
structure Writes (v : Value) (text : String) : Prop where
  denotes : Denotes v text.toList
  ascii : Ascii text.toList

/-- The text is one of the member, and is in ASCII. -/
structure WritesMember (entry : Value × Value) (text : String) : Prop where
  member : Member entry text.toList
  ascii : Ascii text.toList

theorem joinWith_cons_cons (separator s t : String) (rest : List String) :
    Text.joinWith separator (s :: t :: rest) =
      s ++ separator ++ Text.joinWith separator (t :: rest) := rfl

theorem forall_mem_joinWith {P : Char → Prop} {separator : String}
    (hseparator : ∀ c ∈ separator.toList, P c) {texts : List String}
    (h : ∀ s ∈ texts, ∀ c ∈ s.toList, P c) : ∀ c ∈ (Text.joinWith separator texts).toList, P c := by
  induction texts with
  | nil => exact nofun
  | cons text texts ih =>
    obtain ⟨htext, hrest⟩ := List.forall_mem_cons.mp h
    cases texts with
    | nil => exact htext
    | cons next texts =>
      rw [joinWith_cons_cons, String.toList_append, String.toList_append]
      exact List.forall_mem_append.mpr
        ⟨List.forall_mem_append.mpr ⟨htext, hseparator⟩, ih hrest⟩

/-- Texts with commas between them are items. -/
theorem items_joinWith {separator : String} (hmark : Mark ',' separator.toList) {v : Value}
    {vs : List Value} {text : String} {texts : List String} (hv : Writes v text)
    (hvs : List.Forall₂ Writes vs texts) :
    Items (v :: vs) (Text.joinWith separator (text :: texts)).toList := by
  induction hvs generalizing v text with
  | nil => exact .one hv.denotes
  | cons hw _ ih =>
    rw [joinWith_cons_cons, String.toList_append, String.toList_append]
    exact .more hv.denotes hmark (ih hw)

/-- Texts with commas between them are members. -/
theorem members_joinWith {separator : String} (hmark : Mark ',' separator.toList)
    {entry : Value × Value} {entries : List (Value × Value)} {text : String} {texts : List String}
    (hentry : WritesMember entry text) (hentries : List.Forall₂ WritesMember entries texts) :
    Members (entry :: entries) (Text.joinWith separator (text :: texts)).toList := by
  induction hentries generalizing entry text with
  | nil => exact .one hentry.member
  | cons hw _ ih =>
    rw [joinWith_cons_cons, String.toList_append, String.toList_append]
    exact .more hentry.member hmark (ih hw)

theorem ascii_of_forall₂ {α : Type} {R : α → String → Prop}
    (hascii : ∀ {a text}, R a text → Ascii text.toList) {xs : List α} {texts : List String}
    (h : List.Forall₂ R xs texts) : ∀ text ∈ texts, Ascii text.toList := by
  induction h with
  | nil => exact nofun
  | cons htext _ ih => exact List.forall_mem_cons.mpr ⟨hascii htext, ih⟩

section Brackets

variable {style : Style} {level : Nat} {texts : List String}

/-- What stands in brackets consists of the characters of the items and of the layout. -/
theorem forall_mem_bracket {P : Char → Prop} {opening closing : String}
    (hlayout : ∀ c ∈ [',', ' ', '\n'], P c) (hopening : ∀ c ∈ opening.toList, P c)
    (hclosing : ∀ c ∈ closing.toList, P c) (h : ∀ s ∈ texts, ∀ c ∈ s.toList, P c) :
    ∀ c ∈ (bracket style level opening closing texts).toList, P c := by
  have hbreak (level : Nat) : ∀ c ∈ (breakAt style level).toList, P c := by
    intro c hc
    rw [breakAt] at hc
    cases hindent : style.indent with
    | none =>
      rw [hindent] at hc
      exact absurd hc List.not_mem_nil
    | some width =>
      simp only [hindent, String.toList_append, String.toList_ofList, List.mem_append,
        List.mem_replicate] at hc
      rcases hc with hc | ⟨-, rfl⟩
      · rw [List.mem_singleton.mp hc]
        exact hlayout _ (by decide)
      · exact hlayout _ (by decide)
  have hseparator (level : Nat) : ∀ c ∈ (separatorAt style level).toList, P c := by
    rw [separatorAt, String.toList_append]
    refine List.forall_mem_append.mpr ⟨fun c hc ↦ hlayout c ?_, hbreak level⟩
    split at hc
    · exact List.mem_cons.mpr (.inl (List.mem_singleton.mp hc))
    · exact List.mem_of_mem_take (show c ∈ [',', ' ', '\n'].take 2 from hc)
  cases texts with
  | nil =>
    rw [bracket_nil, String.toList_append]
    exact List.forall_mem_append.mpr ⟨hopening, hclosing⟩
  | cons text texts =>
    rw [bracket_cons]
    simp only [String.toList_append, List.forall_mem_append]
    exact ⟨⟨⟨hopening, hbreak _⟩, forall_mem_joinWith (hseparator _) h⟩, hbreak _, hclosing⟩

theorem writes_list {items : List Value} (h : List.Forall₂ Writes items texts) :
    Writes (.list items) (bracket style level "[" "]" texts) where
  denotes := by
    cases h with
    | nil =>
      rw [bracket_nil, String.toList_append]
      exact .emptyList (mark_cons nofun) (mark_cons nofun)
    | cons hv hvs =>
      rw [bracket_cons, String.toList_append, String.toList_append]
      exact .list (mark_opening rfl) (items_joinWith (mark_separatorAt style _) hv hvs)
        (mark_closing rfl)
  ascii := forall_mem_bracket (by decide : Ascii _) (by decide : Ascii _) (by decide : Ascii _)
    (ascii_of_forall₂ (fun h ↦ h.ascii) h)

theorem writes_object {entries : List (Value × Value)}
    (h : List.Forall₂ WritesMember entries texts) :
    Writes (.map entries) (bracket style level "\x7b" "\x7d" texts) where
  denotes := by
    cases h with
    | nil =>
      rw [bracket_nil, String.toList_append]
      exact .emptyObject (mark_cons nofun) (mark_cons nofun)
    | cons hv hvs =>
      rw [bracket_cons, String.toList_append, String.toList_append]
      exact .object (mark_opening rfl) (members_joinWith (mark_separatorAt style _) hv hvs)
        (mark_closing rfl)
  ascii := forall_mem_bracket (by decide : Ascii _) (by decide : Ascii _) (by decide : Ascii _)
    (ascii_of_forall₂ (fun h ↦ h.ascii) h)

end Brackets

theorem writesMember {key text : String} {v : Value} (h : Writes v text) :
    WritesMember (.str key, v) (stringText key ++ ": " ++ text) where
  member := by
    rw [String.toList_append, String.toList_append]
    exact .intro (quoted_stringText key)
      (mark_cons (List.forall_mem_singleton.mpr (.inl rfl)))
      h.denotes
  ascii := by
    rw [String.toList_append, String.toList_append]
    exact ((ascii_stringText key).append (by decide : Ascii [':', ' '])).append h.ascii

section Write

variable (style : Style)

theorem exists_writeItems {items : List Value}
    (h : ∀ v ∈ items, ∀ level, ∃ text, write style level v = .ok text ∧ Writes v.bare text)
    (level : Nat) : ∃ texts, writeItems style level items = .ok texts ∧
      List.Forall₂ Writes (Value.bareItems items) texts := by
  induction items with
  | nil => exact ⟨[], rfl, .nil⟩
  | cons v items ih =>
    obtain ⟨hv, hitems⟩ := List.forall_mem_cons.mp h
    obtain ⟨text, htext, hwrites⟩ := hv level
    obtain ⟨texts, htexts, hall⟩ := ih hitems
    refine ⟨text :: texts, ?_, .cons hwrites hall⟩
    rw [writeItems, htext, htexts]
    rfl

theorem exists_writeEntries {entries : List (Value × Value)}
    (hkeys : ∀ x ∈ entries, ∃ key, x.1 = .str key)
    (h : ∀ x ∈ entries, ∀ level, ∃ text, write style level x.2 = .ok text ∧ Writes x.2.bare text)
    (level : Nat) : ∃ texts, writeEntries style level entries = .ok texts ∧
      List.Forall₂ WritesMember (Value.bareEntries entries) texts := by
  induction entries with
  | nil => exact ⟨[], rfl, .nil⟩
  | cons x entries ih =>
    obtain ⟨k, v⟩ := x
    obtain ⟨⟨key, hkey⟩, hrest⟩ := List.forall_mem_cons.mp hkeys
    obtain rfl : k = .str key := hkey
    obtain ⟨hv, hentries⟩ := List.forall_mem_cons.mp h
    obtain ⟨text, htext, hwrites⟩ := hv level
    obtain ⟨texts, htexts, hall⟩ := ih hrest hentries
    refine ⟨(stringText key ++ ": " ++ text) :: texts, ?_, .cons (writesMember hwrites) hall⟩
    rw [writeEntries, keyText, htext, htexts]
    rfl

theorem exists_writes {v : Value} (h : v.Exact) (level : Nat) :
    ∃ text, write style level v = .ok text ∧ Writes v.bare text := by
  induction h generalizing level with
  | null => exact ⟨_, rfl, .null, by decide⟩
  | bool b =>
    cases b with
    | true => exact ⟨_, rfl, .yes, by decide⟩
    | false => exact ⟨_, rfl, .no, by decide⟩
  | int n =>
    obtain ⟨hnumber, hascii⟩ := number_toString n
    exact ⟨_, rfl, .number hnumber, hascii⟩
  | str s => exact ⟨_, rfl, .string (quoted_stringText s), ascii_stringText s⟩
  | list _ ih =>
    obtain ⟨texts, htexts, hall⟩ := exists_writeItems style ih (level + 1)
    exact ⟨_, by rw [write, htexts]; rfl, writes_list hall⟩
  | map hkeys _ ih =>
    obtain ⟨texts, htexts, hall⟩ := exists_writeEntries style hkeys ih (level + 1)
    exact ⟨_, by rw [write, htexts]; rfl, writes_object hall⟩
  | declared _ ih => exact ih level

end Write

end Json

/-! ## Outputs -/

theorem Output.exists_format {x : Value} (h : x.Exact) : ∃ text,
    Output.format x "json" = .ok (.text text) ∧ Json.IsText x.bare text.toList ∧
      Json.Ascii text.toList := by
  obtain ⟨text, htext, hwrites⟩ := Json.exists_writes { indent := some 2 } h 0
  refine ⟨text, ?_, ?_, hwrites.ascii⟩
  · rw [Output.format, Json.pretty, htext]
    rfl
  · exact hwrites.denotes.isText

/-- **JSON can be read back.** An exact value is put out as a text of the grammar, in ASCII, that
denotes it and nothing else; the reader finds it again, its entries in their order, and no other
exact value is put out as that text. -/
theorem Output.json_read_back {x : Value} (h : x.Exact) : ∃ text,
    Output.format x "json" = .ok (.text text) ∧ Json.Ascii text.toList ∧
      (∀ v, Json.IsText v text.toList ↔ v = x.bare) ∧ Json.read? text = some x.bare ∧
      ∀ y : Value, y.Exact → Output.format y "json" = .ok (.text text) → y.bare = x.bare := by
  obtain ⟨text, hformat, htext, hascii⟩ := exists_format h
  refine ⟨text, hformat, hascii, fun v ↦ ⟨fun hv ↦ hv.unique htext, ?_⟩,
    Json.read?_eq_some_of_isText htext, fun y hy hformat' ↦ ?_⟩
  · rintro rfl
    exact htext
  · obtain ⟨text', hsame, htext', -⟩ := exists_format hy
    rw [hformat'] at hsame
    cases hsame
    exact htext'.unique htext

/-- A document with a quote in a key, parts without items, and characters of every width. -/
def Value.sample : Value := .map [
  (.str "a \"b", .list [.int (-20), .null, .list [], .map []]),
  (.str "é", .declared 7 (.str "\\😀"))]

theorem Value.exact_sample : sample.Exact := by
  have hitems : ∀ v ∈ [Value.int (-20), .null, .list [], .map []], v.Exact := by
    intro v hv
    simp only [List.mem_cons, List.not_mem_nil, or_false] at hv
    rcases hv with rfl | rfl | rfl | rfl
    · exact .int _
    · exact .null
    · exact .list nofun
    · exact .map nofun nofun
  refine .map (by simp) fun x hx ↦ ?_
  simp only [List.mem_cons, List.not_mem_nil, or_false] at hx
  rcases hx with rfl | rfl
  · exact .list hitems
  · exact .declared (.str _)

/-- The text of the sample. -/
def Value.sampleText : String :=
  "\x7b\n  \"a \\\"b\": [\n    -20,\n    null,\n    [],\n    \x7b\x7d\n  ],\n" ++
    "  \"\\u00e9\": \"\\\\\\ud83d\\ude00\"\n\x7d"

theorem Output.sample_read_back : Value.sample.Exact ∧
    Output.format Value.sample "json" = .ok (.text Value.sampleText) ∧
      Json.read? Value.sampleText = some Value.sample.bare ∧
      ∀ y : Value, y.Exact → Output.format y "json" = .ok (.text Value.sampleText) →
        y.bare = Value.sample.bare := by
  have htext : Output.format Value.sample "json" = .ok (.text Value.sampleText) := by cbv
  obtain ⟨text, hformat, -, -, hread, hunique⟩ := json_read_back Value.exact_sample
  rw [hformat] at htext
  cases htext
  exact ⟨Value.exact_sample, hformat, hread, hunique⟩

end Schemata
