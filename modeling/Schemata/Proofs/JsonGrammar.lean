import Mathlib.Data.List.DropRight
import Mathlib.Tactic.Common
import Schemata.Json.Reading

/-!
# The grammar of JSON texts

The grammar of RFC 8259, rule by rule, as relations between a text and what it denotes: a string
denotes characters, a number a number, an object its members in the order of the text. Blanks may
stand around every structural character and around the whole text.

The grammar says nothing about how a text is read. `read?_eq_some_of_isText` says that the reader
reads every text of the grammar as what it denotes; a text therefore denotes at most one value
(`IsText.unique`).
-/

namespace Schemata.Json

open List

/-! ## The grammar -/

/-- Blanks: spaces, tabs and the two characters of line ends. -/
def Blanks (cs : List Char) : Prop := ∀ c ∈ cs, c = ' ' ∨ c = '\t' ∨ c = '\n' ∨ c = '\r'

/-- A structural character, with blanks before and after it. -/
inductive Mark (c : Char) : List Char → Prop
  | intro {before after : List Char} (hbefore : Blanks before) (hafter : Blanks after) :
      Mark c (before ++ c :: after)

/-- The hexadecimal digits, by their values. -/
def hexDigits : List Char :=
  ['0', '1', '2', '3', '4', '5', '6', '7', '8', '9', 'a', 'b', 'c', 'd', 'e', 'f']

/-- The hexadecimal digits with upper-case letters, by their values. -/
def upperHexDigits : List Char :=
  ['0', '1', '2', '3', '4', '5', '6', '7', '8', '9', 'A', 'B', 'C', 'D', 'E', 'F']

/-- A hexadecimal digit and its value. -/
def HexDigit (c : Char) (n : Nat) : Prop := hexDigits[n]? = some c ∨ upperHexDigits[n]? = some c

/-- Four hexadecimal digits and the sixteen-bit unit that they name. -/
inductive FourDigits : List Char → Nat → Prop
  | intro {a b c d : Char} {i j k l : Nat} (ha : HexDigit a i) (hb : HexDigit b j)
      (hc : HexDigit c k) (hd : HexDigit d l) :
      FourDigits [a, b, c, d] (i * 0x1000 + j * 0x100 + k * 0x10 + l)

/-- The letters of the short escapes, each with what it stands for. -/
def shortEscapes : List (Char × Char) :=
  [('"', '"'), ('\\', '\\'), ('/', '/'), ('b', '\x08'), ('f', '\x0c'), ('n', '\n'), ('r', '\r'),
    ('t', '\t')]

/-- A character and a way to write it inside a string: itself, a short escape, its unit, or, beyond
the sixteen-bit characters, its two surrogate units. -/
inductive Spelled (c : Char) : List Char → Prop
  | itself (hcontrol : 0x20 ≤ c.toNat) (hquote : c ≠ '"') (hescape : c ≠ '\\') : Spelled c [c]
  | short {letter : Char} (h : (letter, c) ∈ shortEscapes) : Spelled c ['\\', letter]
  | unit {digits : List Char} (h : FourDigits digits c.toNat) : Spelled c ('\\' :: 'u' :: digits)
  | pair {leading trailing : List Char} {n m : Nat} (hleading : FourDigits leading n)
      (htrailing : FourDigits trailing m) (hn : 0xd800 ≤ n ∧ n < 0xdc00)
      (hm : 0xdc00 ≤ m ∧ m < 0xe000)
      (hc : c.toNat = 0x10000 + (n - 0xd800) * 0x400 + (m - 0xdc00)) :
      Spelled c ('\\' :: 'u' :: leading ++ '\\' :: 'u' :: trailing)

/-- Characters one after the other, as they are written inside a string. -/
inductive Characters : List Char → List Char → Prop
  | nil : Characters [] []
  | cons {c : Char} {cs ds es : List Char} (hc : Spelled c ds) (hcs : Characters cs es) :
      Characters (c :: cs) (ds ++ es)

/-- A string in quotes. -/
inductive Quoted (s : String) : List Char → Prop
  | intro {cs : List Char} (h : Characters s.toList cs) : Quoted s ('"' :: cs ++ ['"'])

/-- One decimal digit or more. -/
structure Digits (cs : List Char) : Prop where
  ne_nil : cs ≠ []
  isDigit : ∀ c ∈ cs, c.isDigit = true

/-- The digits before the point: no zero stands before other digits. -/
structure Whole (cs : List Char) : Prop extends Digits cs where
  leading : cs.head? = some '0' → cs = ['0']

/-- The digits of a fraction, which may be absent. -/
inductive Fraction : List Char → List Char → Prop
  | absent : Fraction [] []
  | given {places : List Char} (h : Digits places) : Fraction places ('.' :: places)

/-- A sign before the digits of an exponent, which may be absent; whether it is a minus. -/
inductive Sign : Bool → List Char → Prop
  | absent : Sign false []
  | plus : Sign false ['+']
  | minus : Sign true ['-']

/-- The number that decimal digits denote, by its sign. -/
def signed (negative : Bool) (digits : List Char) : Int :=
  if negative then -Nat.ofDigitChars 10 digits 0 else Nat.ofDigitChars 10 digits 0

/-- An exponent, which may be absent. -/
inductive Exponent : Option Int → List Char → Prop
  | absent : Exponent none []
  | given {e : Char} {negative : Bool} {sign digits : List Char} (he : e = 'e' ∨ e = 'E')
      (hsign : Sign negative sign) (hdigits : Digits digits) :
      Exponent (some (signed negative digits)) (e :: sign ++ digits)

/-- What the parts of a number denote: an integer where there is no fraction and no exponent, else
the nearest floating-point number. -/
def numberOf (negative : Bool) (whole places : List Char) : Option Int → Value
  | none =>
    if places.isEmpty then .int (signed negative whole)
    else .float (Binary64.ofDecimal negative (Nat.ofDigitChars 10 (whole ++ places) 0)
      (0 - places.length))
  | some e => .float (Binary64.ofDecimal negative (Nat.ofDigitChars 10 (whole ++ places) 0)
      (e - places.length))

/-- The minus before a negative number. -/
def minus (negative : Bool) : List Char := if negative then ['-'] else []

/-- A number. -/
inductive Number : Value → List Char → Prop
  | intro {negative : Bool} {whole places fraction exponent : List Char} {e : Option Int}
      (hwhole : Whole whole) (hfraction : Fraction places fraction)
      (hexponent : Exponent e exponent) : Number (numberOf negative whole places e)
        (minus negative ++ whole ++ fraction ++ exponent)

mutual

/-- A value and a text that denotes it. -/
inductive Denotes : Value → List Char → Prop
  | null : Denotes .null ['n', 'u', 'l', 'l']
  | yes : Denotes (.bool true) ['t', 'r', 'u', 'e']
  | no : Denotes (.bool false) ['f', 'a', 'l', 's', 'e']
  | number {v : Value} {cs : List Char} (h : Number v cs) : Denotes v cs
  | string {s : String} {cs : List Char} (h : Quoted s cs) : Denotes (.str s) cs
  | emptyList {opening closing : List Char} (hopening : Mark '[' opening)
      (hclosing : Mark ']' closing) : Denotes (.list []) (opening ++ closing)
  | list {opening closing cs : List Char} {items : List Value} (hopening : Mark '[' opening)
      (hitems : Items items cs) (hclosing : Mark ']' closing) :
      Denotes (.list items) (opening ++ cs ++ closing)
  | emptyObject {opening closing : List Char} (hopening : Mark '\x7b' opening)
      (hclosing : Mark '\x7d' closing) : Denotes (.map []) (opening ++ closing)
  | object {opening closing cs : List Char} {entries : List (Value × Value)}
      (hopening : Mark '\x7b' opening) (hentries : Members entries cs)
      (hclosing : Mark '\x7d' closing) : Denotes (.map entries) (opening ++ cs ++ closing)

/-- Items with commas between them. -/
inductive Items : List Value → List Char → Prop
  | one {v : Value} {cs : List Char} (h : Denotes v cs) : Items [v] cs
  | more {v : Value} {vs : List Value} {cs comma rest : List Char} (h : Denotes v cs)
      (hcomma : Mark ',' comma) (hrest : Items vs rest) : Items (v :: vs) (cs ++ comma ++ rest)

/-- A member of an object: a key, a colon and a value. -/
inductive Member : Value × Value → List Char → Prop
  | intro {key : String} {v : Value} {ks colon cs : List Char} (hkey : Quoted key ks)
      (hcolon : Mark ':' colon) (h : Denotes v cs) : Member (.str key, v) (ks ++ colon ++ cs)

/-- Members with commas between them. -/
inductive Members : List (Value × Value) → List Char → Prop
  | one {entry : Value × Value} {cs : List Char} (h : Member entry cs) : Members [entry] cs
  | more {entry : Value × Value} {entries : List (Value × Value)} {cs comma rest : List Char}
      (h : Member entry cs) (hcomma : Mark ',' comma) (hrest : Members entries rest) :
      Members (entry :: entries) (cs ++ comma ++ rest)

end

/-- A whole text: a value, with blanks around it. -/
inductive IsText (v : Value) : List Char → Prop
  | intro {before cs after : List Char} (hbefore : Blanks before) (h : Denotes v cs)
      (hafter : Blanks after) : IsText v (before ++ cs ++ after)

/-! ## Blanks and structural characters -/

theorem isBlank_iff {c : Char} : isBlank c = true ↔ c = ' ' ∨ c = '\t' ∨ c = '\n' ∨ c = '\r' := by
  rw [isBlank]
  simp only [Bool.or_eq_true, decide_eq_true_eq]
  tauto

theorem Blanks.skipBlanks_append {blanks : List Char} (h : Blanks blanks) (cs : List Char) :
    skipBlanks (blanks ++ cs) = skipBlanks cs :=
  List.dropWhile_append_of_pos fun c hc ↦ isBlank_iff.mpr (h c hc)

theorem skipBlanks_cons {c : Char} (h : isBlank c = false) (cs : List Char) :
    skipBlanks (c :: cs) = c :: cs :=
  List.dropWhile_cons_of_neg (by rw [h]; exact Bool.false_ne_true)

theorem Mark.skipBlanks_append {c : Char} {mark : List Char} (h : Mark c mark)
    (hc : isBlank c = false) (cs : List Char) :
    ∃ after, Blanks after ∧ skipBlanks (mark ++ cs) = c :: (after ++ cs) := by
  cases h with
  | @intro before after hbefore hafter =>
    refine ⟨after, hafter, ?_⟩
    rw [List.append_assoc, hbefore.skipBlanks_append, List.cons_append, skipBlanks_cons hc]

/-- A value ends where the text ends, or at a blank, a comma or a closing bracket. -/
def Stops (cs : List Char) : Prop :=
  ∀ c ∈ cs.head?, isBlank c = true ∨ c = ',' ∨ c = ']' ∨ c = '\x7d'

theorem Blanks.stops {cs : List Char} (h : Blanks cs) : Stops cs := by
  intro c hc
  exact .inl (isBlank_iff.mpr (h c (List.mem_of_mem_head? hc)))

theorem Mark.stops {c : Char} {mark : List Char} (h : Mark c mark)
    (hc : c = ',' ∨ c = ']' ∨ c = '\x7d') (cs : List Char) : Stops (mark ++ cs) := by
  intro d hd
  cases h with
  | @intro before after hbefore _ =>
    cases before with
    | nil =>
      obtain rfl := Option.some.inj hd
      exact .inr hc
    | cons b before =>
      obtain rfl := Option.some.inj hd
      exact .inl (isBlank_iff.mpr (hbefore b List.mem_cons_self))

/-! ## Reading strings -/

theorem HexDigit.hexDigit?_eq {c : Char} {n : Nat} (h : HexDigit c n) :
    Text.hexDigit? c = some n := by
  have hall : ∀ n < 16, hexDigits[n]?.bind Text.hexDigit? = some n ∧
      upperHexDigits[n]?.bind Text.hexDigit? = some n := by decide
  rcases h with h | h
  · have hdigit := (hall n (List.getElem?_eq_some_iff.mp h).1).1
    rwa [h] at hdigit
  · have hdigit := (hall n (List.getElem?_eq_some_iff.mp h).1).2
    rwa [h] at hdigit

theorem HexDigit.lt {c : Char} {n : Nat} (h : HexDigit c n) : n < 16 := by
  rcases h with h | h <;> exact (List.getElem?_eq_some_iff.mp h).1

theorem HexDigit.digitIn?_eq {c : Char} {n : Nat} (h : HexDigit c n) :
    Text.digitIn? 16 c = some n := by
  rw [Text.digitIn?, h.hexDigit?_eq]
  simp [Option.filter, h.lt]

theorem FourDigits.exists_digits {digits : List Char} {n : Nat} (h : FourDigits digits n) :
    ∃ a b c d, digits = [a, b, c, d] ∧ Text.hexValue? [a, b, c, d] = some n := by
  cases h with
  | @intro a b c d i j k l ha hb hc hd =>
    refine ⟨a, b, c, d, rfl, ?_⟩
    simp only [Text.hexValue?, Text.basedValue?, List.foldlM_cons, List.foldlM_nil,
      ha.digitIn?_eq, hb.digitIn?_eq, hc.digitIn?_eq, hd.digitIn?_eq, Option.map_some,
      Option.bind_eq_bind, Option.bind_some, Option.pure_def, Option.some.injEq]
    omega

theorem charOf?_toNat (c : Char) : Text.charOf? c.toNat = some c := by
  have hvalid : c.toNat.isValidChar := c.valid
  rw [Text.charOf?, dif_pos hvalid]
  rfl

theorem charOf?_of_surrogate {n : Nat} (h : 0xd800 ≤ n ∧ n < 0xe000) : Text.charOf? n = none := by
  refine dif_neg fun hvalid ↦ ?_
  rcases hvalid with hlt | ⟨hgt, -⟩
  · omega
  · omega

theorem pairChar?_eq {c : Char} {n m : Nat} (hn : 0xd800 ≤ n ∧ n < 0xdc00)
    (hm : 0xdc00 ≤ m ∧ m < 0xe000)
    (hc : c.toNat = 0x10000 + (n - 0xd800) * 0x400 + (m - 0xdc00)) : pairChar? n m = some c := by
  have hsurrogates : (isLeading n && isTrailing m) = true := by
    simp [isLeading, isTrailing, hn, hm]
  rw [pairChar?, if_pos hsurrogates, ← hc, charOf?_toNat]

theorem readString_of_spelled {c : Char} {ds : List Char} (h : Spelled c ds) (rest : List Char) :
    readString (ds ++ rest) = (readString rest).map fun (cs, rest) ↦ (c :: cs, rest) := by
  cases h with
  | itself hcontrol hquote hescape =>
    have hplain : ¬(decide (c.toNat < 32) || decide (c = '\\')) = true := by
      simp [hescape, hcontrol]
    rw [List.singleton_append, readString.eq_def]
    split
    · next heq => exact nomatch heq
    · next heq => exact absurd (List.cons.inj heq).1 hquote
    · next heq => exact absurd (List.cons.inj heq).1 hescape
    · next heq => exact absurd (List.cons.inj heq).1 hescape
    · next heq =>
      obtain ⟨rfl, rfl⟩ := List.cons.inj heq
      rw [if_neg hplain]
  | short h =>
    simp only [shortEscapes, List.mem_cons, List.not_mem_nil, or_false, Prod.mk.injEq] at h
    rcases h with ⟨rfl, rfl⟩ | ⟨rfl, rfl⟩ | ⟨rfl, rfl⟩ | ⟨rfl, rfl⟩ | ⟨rfl, rfl⟩ | ⟨rfl, rfl⟩ |
      ⟨rfl, rfl⟩ | ⟨rfl, rfl⟩ <;> rfl
  | unit h =>
    obtain ⟨a, b, x, d, rfl, hvalue⟩ := h.exists_digits
    simp only [List.cons_append, List.nil_append, readString, hvalue, charOf?_toNat]
  | pair hleading htrailing hn hm hc =>
    obtain ⟨a, b, x, d, rfl, hvalue⟩ := hleading.exists_digits
    obtain ⟨a', b', x', d', rfl, hvalue'⟩ := htrailing.exists_digits
    have hnone := charOf?_of_surrogate ⟨hn.1, by omega⟩
    simp only [List.cons_append, List.nil_append, readString, hvalue, hnone, hvalue',
      Option.bind_some, pairChar?_eq hn hm hc]

theorem readString_of_characters {s cs : List Char} (h : Characters s cs) (rest : List Char) :
    readString (cs ++ '"' :: rest) = some (s, rest) := by
  induction h with
  | nil => rfl
  | cons hc _ ih => rw [List.append_assoc, readString_of_spelled hc, ih]; rfl

/-! ## Reading numbers -/

theorem digitsValue_eq (ds : List Char) : digitsValue ds = Nat.ofDigitChars 10 ds 0 := by
  rw [digitsValue, Nat.ofDigitChars_eq_foldl]
  congr 1
  funext n c
  omega

/-- What follows digits is no digit. -/
def Undigit (cs : List Char) : Prop := ∀ c ∈ cs.head?, c.isDigit = false

theorem Digits.spanDigits_append {ds rest : List Char} (h : Digits ds) (hrest : Undigit rest) :
    spanDigits (ds ++ rest) = (ds, rest) := by
  have htake : rest.takeWhile Char.isDigit = [] := by
    cases rest with
    | nil => rfl
    | cons c rest => exact List.takeWhile_cons_of_neg (by simp [hrest c rfl])
  have hdrop : rest.dropWhile Char.isDigit = rest := by
    cases rest with
    | nil => rfl
    | cons c rest => exact List.dropWhile_cons_of_neg (by simp [hrest c rfl])
  rw [spanDigits, List.takeWhile_append_of_pos h.isDigit, List.dropWhile_append_of_pos h.isDigit,
    htake, hdrop, List.append_nil]

theorem Stops.not_mem {cs : List Char} (h : Stops cs) {c : Char} (hc : c ∈ cs.head?) :
    c.isDigit = false ∧ c ≠ '.' ∧ c ≠ 'e' ∧ c ≠ 'E' := by
  rcases h c hc with hblank | rfl | rfl | rfl
  · rcases isBlank_iff.mp hblank with rfl | rfl | rfl | rfl <;> decide
  · decide
  · decide
  · decide

theorem Whole.readWhole_append {ds rest : List Char} (h : Whole ds) (hrest : Undigit rest) :
    readWhole (ds ++ rest) = some (ds, rest) := by
  have hspan := h.toDigits.spanDigits_append hrest
  have hne : ds.isEmpty = false := by simp [h.ne_nil]
  rw [readWhole.eq_def]
  split
  · next heq =>
    -- the digits begin with a zero, so the zero is all of them
    cases ds with
    | nil => exact absurd rfl h.ne_nil
    | cons d ds =>
      obtain ⟨rfl, hrest⟩ := List.cons.inj heq
      obtain ⟨-, rfl⟩ := List.cons.inj (h.leading rfl)
      rw [← hrest]
      rfl
  · rw [hspan]
    simp [hne]

theorem Fraction.readPlaces_append {places fraction rest : List Char}
    (h : Fraction places fraction) (hrest : Undigit rest) (hpoint : rest.head? ≠ some '.') :
    readPlaces (fraction ++ rest) = some (places, rest) := by
  cases h with
  | absent =>
    rw [List.nil_append, readPlaces.eq_def]
    split
    · exact absurd rfl hpoint
    · rfl
  | given h =>
    have hne : places.isEmpty = false := by simp [h.ne_nil]
    simp [readPlaces, h.spanDigits_append hrest, hne]

theorem Sign.spanSign_append {negative : Bool} {sign ds : List Char} (h : Sign negative sign)
    (hds : Digits ds) (rest : List Char) :
    spanSign (sign ++ ds ++ rest) = (negative, ds ++ rest) := by
  cases h with
  | absent =>
    obtain ⟨d, ds, rfl⟩ := List.exists_cons_of_ne_nil hds.ne_nil
    have hdigit := hds.isDigit d List.mem_cons_self
    rw [List.nil_append, List.cons_append, spanSign.eq_def]
    split
    · next heq =>
      obtain ⟨rfl, -⟩ := List.cons.inj heq
      exact absurd hdigit (by decide)
    · next heq =>
      obtain ⟨rfl, -⟩ := List.cons.inj heq
      exact absurd hdigit (by decide)
    · rfl
  | plus => rfl
  | minus => rfl

theorem Exponent.readExponent_append {e : Option Int} {exponent rest : List Char}
    (h : Exponent e exponent) (hrest : Stops rest) :
    readExponent (exponent ++ rest) = some (e, rest) := by
  have hdigit : Undigit rest := fun c hc ↦ (hrest.not_mem hc).1
  cases h with
  | absent =>
    cases rest with
    | nil => rfl
    | cons c rest =>
      obtain ⟨-, -, he, hE⟩ := hrest.not_mem (c := c) rfl
      simp [readExponent, he, hE]
  | @given c negative sign digits he hsign hdigits =>
    have hletter : (decide (c = 'e') || decide (c = 'E')) = true := by simpa using he
    have hne : digits.isEmpty = false := by simp [hdigits.ne_nil]
    rw [List.cons_append, List.cons_append, readExponent, if_pos hletter,
      hsign.spanSign_append hdigits]
    dsimp only
    rw [hdigits.spanDigits_append hdigit]
    simp [hne, signed, digitsValue_eq]

theorem Exponent.head_append {e : Option Int} {exponent rest : List Char}
    (h : Exponent e exponent) (hrest : Stops rest) :
    Undigit (exponent ++ rest) ∧ (exponent ++ rest).head? ≠ some '.' := by
  cases h with
  | absent =>
    refine ⟨fun c hc ↦ (hrest.not_mem hc).1, fun hpoint ↦ ?_⟩
    exact (hrest.not_mem hpoint).2.1 rfl
  | given he =>
    rcases he with rfl | rfl
    · exact ⟨fun c hc ↦ Option.some.inj hc ▸ rfl, by simp⟩
    · exact ⟨fun c hc ↦ Option.some.inj hc ▸ rfl, by simp⟩

theorem Fraction.undigit_append {places fraction rest : List Char} (h : Fraction places fraction)
    (hrest : Undigit rest) : Undigit (fraction ++ rest) := by
  cases h with
  | absent => exact hrest
  | given => exact fun c hc ↦ Option.some.inj hc ▸ rfl

/-- What a number begins with. -/
def Numeric (c : Char) : Prop := c = '-' ∨ c.isDigit = true

theorem Number.exists_head {v : Value} {cs : List Char} (h : Number v cs) :
    ∃ c ds, cs = c :: ds ∧ Numeric c := by
  cases h with
  | @intro negative whole places fraction exponent e hwhole _ _ =>
    cases negative with
    | true => exact ⟨_, _, rfl, .inl rfl⟩
    | false =>
      obtain ⟨d, ds, rfl⟩ := List.exists_cons_of_ne_nil hwhole.ne_nil
      exact ⟨d, _, rfl, .inr (hwhole.isDigit d List.mem_cons_self)⟩

/-- A minus before digits is seen, and what is left without it are the digits. -/
theorem Digits.head_minus {ds : List Char} (h : Digits ds) (negative : Bool) (rest : List Char) :
    ((minus negative ++ ds ++ rest).head? == some '-') = negative ∧
      (if negative then (minus negative ++ ds ++ rest).drop 1 else minus negative ++ ds ++ rest) =
        ds ++ rest := by
  cases negative with
  | true => exact ⟨rfl, rfl⟩
  | false =>
    obtain ⟨d, ds, rfl⟩ := List.exists_cons_of_ne_nil h.ne_nil
    have hdigit := h.isDigit d List.mem_cons_self
    refine ⟨beq_eq_false_iff_ne.mpr fun heq ↦ ?_, rfl⟩
    obtain rfl := Option.some.inj heq
    exact absurd hdigit (by decide)

theorem readNumber_of_number {v : Value} {cs rest : List Char} (h : Number v cs)
    (hrest : Stops rest) : readNumber (cs ++ rest) = some (v, rest) := by
  cases h with
  | @intro negative whole places fraction exponent e hwhole hfraction hexponent =>
    obtain ⟨hundigit, hpoint⟩ := hexponent.head_append hrest
    have hwhole' := hwhole.readWhole_append (hfraction.undigit_append hundigit)
    have hplaces := hfraction.readPlaces_append hundigit hpoint
    have hexponent' := hexponent.readExponent_append hrest
    obtain ⟨hsign, hbody⟩ :=
      hwhole.toDigits.head_minus negative (fraction ++ (exponent ++ rest))
    rw [readNumber, List.append_assoc, List.append_assoc]
    dsimp only
    rw [hsign, hbody, hwhole']
    simp only [Option.bind_eq_bind, Option.bind_some, hplaces, hexponent', digitsValue_eq]
    cases e with
    | some e => simp [numberOf]
    | none =>
      by_cases hplaces : places.isEmpty = true
      · simp [numberOf, hplaces, signed]
      · simp [numberOf, hplaces]

/-! ## Reading values -/

theorem skipBlanks_skipBlanks (cs : List Char) : skipBlanks (skipBlanks cs) = skipBlanks cs :=
  List.dropWhile_idempotent _ cs

theorem readValue_skipBlanks (n : Nat) (cs : List Char) :
    readValue n (skipBlanks cs) = readValue n cs := by
  cases n with
  | zero => rfl
  | succ n => rw [readValue, readValue, skipBlanks_skipBlanks]

theorem readItems_skipBlanks (n : Nat) (cs : List Char) :
    readItems n (skipBlanks cs) = readItems n cs := by
  cases n with
  | zero => rfl
  | succ n => rw [readItems, readItems, readValue_skipBlanks]

theorem readEntries_skipBlanks (n : Nat) (cs : List Char) :
    readEntries n (skipBlanks cs) = readEntries n cs := by
  cases n with
  | zero => rfl
  | succ n => rw [readEntries, readEntries, skipBlanks_skipBlanks]

theorem Numeric.ne {c d : Char} (h : Numeric c) (hminus : d ≠ '-') (hdigit : d.isDigit = false) :
    c ≠ d := by
  rintro rfl
  rcases h with rfl | h
  · exact hminus rfl
  · rw [hdigit] at h
    exact Bool.false_ne_true h

theorem Numeric.skipBlanks_cons {c : Char} (h : Numeric c) (cs : List Char) :
    skipBlanks (c :: cs) = c :: cs := by
  refine Json.skipBlanks_cons ?_ cs
  rw [← Bool.not_eq_true, isBlank_iff]
  rintro (rfl | rfl | rfl | rfl) <;> exact h.ne (by decide) (by decide) rfl

theorem Numeric.readValue_cons {c : Char} (h : Numeric c) (n : Nat) (cs : List Char) :
    readValue (n + 1) (c :: cs) = readNumber (c :: cs) := by
  rw [readValue, h.skipBlanks_cons]
  split
  · next heq => exact absurd (List.cons.inj heq).1 (h.ne (by decide) (by decide))
  · next heq => exact absurd (List.cons.inj heq).1 (h.ne (by decide) (by decide))
  · next heq => exact absurd (List.cons.inj heq).1 (h.ne (by decide) (by decide))
  · next heq => exact absurd (List.cons.inj heq).1 (h.ne (by decide) (by decide))
  · next heq => exact absurd (List.cons.inj heq).1 (h.ne (by decide) (by decide))
  · next heq => exact absurd (List.cons.inj heq).1 (h.ne (by decide) (by decide))
  · rfl

theorem readValue_of_brackets {n : Nat} {cs rest ds : List Char} (h : skipBlanks cs = '[' :: rest)
    (hrest : skipBlanks rest = ']' :: ds) : readValue (n + 1) cs = some (.list [], ds) := by
  rw [readValue, h]
  simp only [hrest]

theorem readValue_of_braces {n : Nat} {cs rest ds : List Char} (h : skipBlanks cs = '\x7b' :: rest)
    (hrest : skipBlanks rest = '\x7d' :: ds) : readValue (n + 1) cs = some (.map [], ds) := by
  rw [readValue, h]
  simp only [hrest]

theorem readValue_of_bracket {n : Nat} {cs rest : List Char} (h : skipBlanks cs = '[' :: rest)
    (hrest : ∀ ds, skipBlanks rest ≠ ']' :: ds) : readValue (n + 1) cs =
      (readItems n rest).map fun (items, rest) ↦ (.list items, rest) := by
  rw [readValue, h]
  simp only [readItems_skipBlanks]

theorem readValue_of_brace {n : Nat} {cs rest : List Char} (h : skipBlanks cs = '\x7b' :: rest)
    (hrest : ∀ ds, skipBlanks rest ≠ '\x7d' :: ds) : readValue (n + 1) cs =
      (readEntries n rest).map fun (entries, rest) ↦ (.map entries, rest) := by
  rw [readValue, h]
  simp only [readEntries_skipBlanks]

/-- The reader takes such a text at the front of any other as the value; it may leave blanks after
the value to whoever reads on. -/
def ReadsValue (v : Value) (cs : List Char) : Prop := ∀ n rest, 2 * cs.length ≤ n → Stops rest →
  ∃ after, Blanks after ∧ readValue n (cs ++ rest) = some (v, after ++ rest)

/-- Such a text in front of a closing bracket is read as the items. -/
def ReadsItems (items : List Value) (cs : List Char) : Prop := ∀ n closing rest,
  2 * cs.length + 1 ≤ n → Mark ']' closing →
    ∃ after, Blanks after ∧ readItems n (cs ++ closing ++ rest) = some (items, after ++ rest)

/-- Such a text in front of a closing brace is read as the members. -/
def ReadsMembers (entries : List (Value × Value)) (cs : List Char) : Prop := ∀ n closing rest,
  2 * cs.length + 1 ≤ n → Mark '\x7d' closing →
    ∃ after, Blanks after ∧ readEntries n (cs ++ closing ++ rest) = some (entries, after ++ rest)

/-- Such a text is a key, a colon, and a text that is read as the value. -/
inductive ReadsMember : Value × Value → List Char → Prop
  | intro {key : String} {v : Value} {ks colon cs : List Char} (hkey : Quoted key ks)
      (hcolon : Mark ':' colon) (h : ReadsValue v cs) :
      ReadsMember (.str key, v) (ks ++ colon ++ cs)

theorem Blanks.readItems_append {blanks : List Char} (h : Blanks blanks) (n : Nat)
    (cs : List Char) : readItems n (blanks ++ cs) = readItems n cs := by
  rw [← readItems_skipBlanks, h.skipBlanks_append, readItems_skipBlanks]

theorem Blanks.readEntries_append {blanks : List Char} (h : Blanks blanks) (n : Nat)
    (cs : List Char) : readEntries n (blanks ++ cs) = readEntries n cs := by
  rw [← readEntries_skipBlanks, h.skipBlanks_append, readEntries_skipBlanks]

section Items

variable {v : Value} {cs : List Char} {n : Nat}

theorem ReadsValue.readItems_last (h : ReadsValue v cs) (hn : 2 * cs.length ≤ n)
    {closing : List Char} (hclosing : Mark ']' closing) (rest : List Char) :
    ∃ after, Blanks after ∧
      readItems (n + 1) (cs ++ (closing ++ rest)) = some ([v], after ++ rest) := by
  obtain ⟨blanks, hblanks, hv⟩ := h n (closing ++ rest) hn (hclosing.stops (by simp) rest)
  obtain ⟨after, hafter, hmark⟩ := hclosing.skipBlanks_append rfl rest
  refine ⟨after, hafter, ?_⟩
  rw [readItems, hv]
  simp only [Option.bind_eq_bind, Option.bind_some, hblanks.skipBlanks_append, hmark]
  rfl

theorem ReadsValue.readItems_cons (h : ReadsValue v cs) (hn : 2 * cs.length ≤ n)
    {comma ds rest : List Char} (hcomma : Mark ',' comma) {vs : List Value}
    (hvs : readItems n ds = some (vs, rest)) :
    readItems (n + 1) (cs ++ (comma ++ ds)) = some (v :: vs, rest) := by
  obtain ⟨blanks, hblanks, hv⟩ := h n (comma ++ ds) hn (hcomma.stops (by simp) ds)
  obtain ⟨after, hafter, hmark⟩ := hcomma.skipBlanks_append rfl ds
  rw [readItems, hv]
  simp only [Option.bind_eq_bind, Option.bind_some, hblanks.skipBlanks_append, hmark,
    hafter.readItems_append, hvs]
  rfl

end Items

section Members

variable {entry : Value × Value} {cs : List Char} {n : Nat}

/-- What a member leaves for the rest of the object. -/
def readMembers (n : Nat) (entry : Value × Value) (cs : List Char) :
    Option (List (Value × Value) × List Char) :=
  match skipBlanks cs with
  | '\x7d' :: rest => some ([entry], rest)
  | ',' :: rest => do
    let (entries, rest) ← readEntries n rest
    return (entry :: entries, rest)
  | _ => none

theorem ReadsMember.readEntries_append (h : ReadsMember entry cs) (hn : 2 * cs.length ≤ n)
    {rest : List Char} (hrest : Stops rest) :
    readEntries (n + 1) (cs ++ rest) = readMembers n entry rest := by
  cases h with
  | @intro key v ks colon vs hkey hcolon h =>
    have hlength : 2 * vs.length ≤ n := by
      simp only [List.length_append] at hn
      omega
    obtain ⟨blanks, hblanks, hv⟩ := h n rest hlength hrest
    obtain ⟨after, hafter, hmark⟩ := hcolon.skipBlanks_append rfl (vs ++ rest)
    cases hkey with
    | @intro ks hkey =>
      have hkey' := readString_of_characters hkey (colon ++ (vs ++ rest))
      have htext : '"' :: ks ++ ['"'] ++ colon ++ vs ++ rest =
          '"' :: (ks ++ '"' :: (colon ++ (vs ++ rest))) := by simp
      rw [htext, readEntries, skipBlanks_cons rfl]
      simp only [hkey', Option.bind_eq_bind, Option.bind_some, hmark]
      rw [← readValue_skipBlanks, hafter.skipBlanks_append, readValue_skipBlanks, hv]
      simp only [Option.bind_some, hblanks.skipBlanks_append, String.ofList_toList]
      rfl

theorem ReadsMember.readEntries_last (h : ReadsMember entry cs) (hn : 2 * cs.length ≤ n)
    {closing : List Char} (hclosing : Mark '\x7d' closing) (rest : List Char) :
    ∃ after, Blanks after ∧
      readEntries (n + 1) (cs ++ (closing ++ rest)) = some ([entry], after ++ rest) := by
  obtain ⟨after, hafter, hmark⟩ := hclosing.skipBlanks_append rfl rest
  refine ⟨after, hafter, ?_⟩
  rw [h.readEntries_append hn (hclosing.stops (by simp) rest), readMembers, hmark]
  rfl

theorem ReadsMember.readEntries_cons (h : ReadsMember entry cs) (hn : 2 * cs.length ≤ n)
    {comma ds rest : List Char} (hcomma : Mark ',' comma) {entries : List (Value × Value)}
    (hentries : readEntries n ds = some (entries, rest)) :
    readEntries (n + 1) (cs ++ (comma ++ ds)) = some (entry :: entries, rest) := by
  obtain ⟨after, hafter, hmark⟩ := hcomma.skipBlanks_append rfl ds
  rw [h.readEntries_append hn (hcomma.stops (by simp) ds), readMembers, hmark]
  simp only [hafter.readEntries_append, hentries]
  rfl

end Members

/-! ## Reading texts of the grammar -/

theorem Mark.length_pos {c : Char} {mark : List Char} (h : Mark c mark) : 0 < mark.length := by
  cases h
  rw [List.length_append, List.length_cons]
  omega

theorem Mark.skipBlanks_ne {c d : Char} {mark : List Char} (h : Mark c mark)
    (hc : isBlank c = false) (hne : c ≠ d) (rest ds : List Char) :
    skipBlanks (mark ++ rest) ≠ d :: ds := by
  obtain ⟨after, -, hmark⟩ := h.skipBlanks_append hc rest
  rw [hmark]
  exact fun heq ↦ hne (List.cons.inj heq).1

theorem Denotes.not_closing {v : Value} {cs : List Char} (h : Denotes v cs) (rest ds : List Char) :
    skipBlanks (cs ++ rest) ≠ ']' :: ds := by
  cases h with
  | null => exact nofun
  | yes => exact nofun
  | no => exact nofun
  | number h =>
    obtain ⟨c, cs, rfl, hc⟩ := h.exists_head
    rw [List.cons_append, hc.skipBlanks_cons]
    exact fun heq ↦ hc.ne (by decide) (by decide) (List.cons.inj heq).1
  | string h =>
    cases h
    exact nofun
  | emptyList hopening | emptyObject hopening =>
    rw [List.append_assoc]
    exact hopening.skipBlanks_ne rfl (by decide) _ ds
  | list hopening | object hopening =>
    rw [List.append_assoc, List.append_assoc]
    exact hopening.skipBlanks_ne rfl (by decide) _ ds

theorem Items.not_closing {items : List Value} {cs : List Char} (h : Items items cs)
    (rest ds : List Char) : skipBlanks (cs ++ rest) ≠ ']' :: ds := by
  cases h with
  | one h => exact h.not_closing rest ds
  | more h =>
    rw [List.append_assoc, List.append_assoc]
    exact h.not_closing _ ds

theorem Members.not_closing {entries : List (Value × Value)} {cs : List Char}
    (h : Members entries cs) (rest ds : List Char) : skipBlanks (cs ++ rest) ≠ '\x7d' :: ds := by
  have hmember : ∀ {entry cs}, Member entry cs →
      ∀ rest, skipBlanks (cs ++ rest) ≠ '\x7d' :: ds := by
    rintro _ _ ⟨⟨-⟩, -, -⟩ rest
    exact nofun
  cases h with
  | one h => exact hmember h rest
  | more h =>
    rw [List.append_assoc, List.append_assoc]
    exact hmember h _

theorem readsValue_of_step {v : Value} {cs : List Char} (hne : cs ≠ [])
    (h : ∀ n rest, Stops rest → readValue (n + 1) (cs ++ rest) = some (v, rest)) :
    ReadsValue v cs := by
  intro n rest hn hrest
  have hpos := List.length_pos_of_ne_nil hne
  obtain ⟨n, rfl⟩ : ∃ m, n = m + 1 := ⟨n - 1, by omega⟩
  exact ⟨[], nofun, h n rest hrest⟩

section Brackets

variable {opening closing cs : List Char} {o c : Char}

/-- An opening mark with a closing one right after it is read as what stands for nothing inside. -/
theorem readsValue_of_marks {v : Value} (hstep : ∀ n cs rest ds, skipBlanks cs = o :: rest →
      skipBlanks rest = c :: ds → readValue (n + 1) cs = some (v, ds))
    (ho : isBlank o = false) (hc : isBlank c = false) (hopening : Mark o opening)
    (hclosing : Mark c closing) : ReadsValue v (opening ++ closing) := by
  intro n rest hn _
  have hpos := hopening.length_pos
  rw [List.length_append] at hn
  obtain ⟨n, rfl⟩ : ∃ m, n = m + 1 := ⟨n - 1, by omega⟩
  obtain ⟨blanks, hblanks, hopened⟩ := hopening.skipBlanks_append ho (closing ++ rest)
  obtain ⟨after, hafter, hclosed⟩ := hclosing.skipBlanks_append hc rest
  rw [List.append_assoc]
  exact ⟨after, hafter, hstep n _ _ _ hopened (by rw [hblanks.skipBlanks_append, hclosed])⟩

/-- What stands between two marks is read by the reader of such parts, unless the closing mark comes
first. -/
theorem readsValue_of_parts {α : Type} {read : Nat → List Char → Option (α × List Char)}
    {make : α → Value} {a : α}
    (hstep : ∀ n cs rest, skipBlanks cs = o :: rest → (∀ ds, skipBlanks rest ≠ c :: ds) →
      readValue (n + 1) cs = (read n rest).map fun (a, rest) ↦ (make a, rest))
    (hskip : ∀ {blanks}, Blanks blanks → ∀ n cs, read n (blanks ++ cs) = read n cs)
    (hne : ∀ rest ds, skipBlanks (cs ++ rest) ≠ c :: ds)
    (hparts : ∀ n closing rest, 2 * cs.length + 1 ≤ n → Mark c closing →
      ∃ after, Blanks after ∧ read n (cs ++ closing ++ rest) = some (a, after ++ rest))
    (ho : isBlank o = false) (hopening : Mark o opening) (hclosing : Mark c closing) :
    ReadsValue (make a) (opening ++ cs ++ closing) := by
  intro n rest hn _
  have hpos := hopening.length_pos
  simp only [List.length_append] at hn
  obtain ⟨n, rfl⟩ : ∃ m, n = m + 1 := ⟨n - 1, by omega⟩
  obtain ⟨blanks, hblanks, hopened⟩ := hopening.skipBlanks_append ho (cs ++ closing ++ rest)
  obtain ⟨after, hafter, hread⟩ := hparts n closing rest (by omega) hclosing
  refine ⟨after, hafter, ?_⟩
  have hinside : ∀ ds, skipBlanks (blanks ++ (cs ++ closing ++ rest)) ≠ c :: ds := by
    intro ds
    rw [hblanks.skipBlanks_append, List.append_assoc]
    exact hne _ ds
  rw [List.append_assoc, List.append_assoc, ← List.append_assoc cs, hstep n _ _ hopened hinside,
    hskip hblanks, hread]
  rfl

theorem readsValue_emptyList (hopening : Mark '[' opening) (hclosing : Mark ']' closing) :
    ReadsValue (.list []) (opening ++ closing) :=
  readsValue_of_marks (fun _ _ _ _ ↦ readValue_of_brackets) rfl rfl hopening hclosing

theorem readsValue_emptyObject (hopening : Mark '\x7b' opening) (hclosing : Mark '\x7d' closing) :
    ReadsValue (.map []) (opening ++ closing) :=
  readsValue_of_marks (fun _ _ _ _ ↦ readValue_of_braces) rfl rfl hopening hclosing

theorem readsValue_list {items : List Value} (hopening : Mark '[' opening)
    (hitems : Items items cs) (h : ReadsItems items cs) (hclosing : Mark ']' closing) :
    ReadsValue (.list items) (opening ++ cs ++ closing) :=
  readsValue_of_parts (fun _ _ _ ↦ readValue_of_bracket) Blanks.readItems_append
    hitems.not_closing h rfl hopening hclosing

theorem readsValue_object {entries : List (Value × Value)} (hopening : Mark '\x7b' opening)
    (hentries : Members entries cs) (h : ReadsMembers entries cs) (hclosing : Mark '\x7d' closing) :
    ReadsValue (.map entries) (opening ++ cs ++ closing) :=
  readsValue_of_parts (fun _ _ _ ↦ readValue_of_brace) Blanks.readEntries_append
    hentries.not_closing h rfl hopening hclosing

end Brackets

mutual

theorem Denotes.readsValue {v : Value} {cs : List Char} (h : Denotes v cs) : ReadsValue v cs := by
  cases h with
  | null => exact readsValue_of_step nofun fun _ _ _ ↦ rfl
  | yes => exact readsValue_of_step nofun fun _ _ _ ↦ rfl
  | no => exact readsValue_of_step nofun fun _ _ _ ↦ rfl
  | number h =>
    obtain ⟨c, ds, rfl, hc⟩ := h.exists_head
    refine readsValue_of_step nofun fun n rest hrest ↦ ?_
    rw [List.cons_append, hc.readValue_cons, ← List.cons_append, readNumber_of_number h hrest]
  | @string s _ h =>
    cases h with
    | @intro cs h =>
      refine readsValue_of_step nofun fun n rest hrest ↦ ?_
      have hstring := readString_of_characters h rest
      rw [List.append_assoc]
      change (readString (cs ++ '"' :: rest)).map _ = _
      rw [hstring, Option.map_some]
      dsimp only
      rw [String.ofList_toList]
  | emptyList hopening hclosing => exact readsValue_emptyList hopening hclosing
  | list hopening hitems hclosing =>
    exact readsValue_list hopening hitems hitems.readsItems hclosing
  | emptyObject hopening hclosing => exact readsValue_emptyObject hopening hclosing
  | object hopening hentries hclosing =>
    exact readsValue_object hopening hentries hentries.readsMembers hclosing

theorem Items.readsItems {items : List Value} {cs : List Char} (h : Items items cs) :
    ReadsItems items cs := by
  intro n closing rest hn hclosing
  obtain ⟨n, rfl⟩ : ∃ m, n = m + 1 := ⟨n - 1, by omega⟩
  cases h with
  | one h =>
    rw [List.append_assoc]
    exact h.readsValue.readItems_last (by omega) hclosing rest
  | more h hcomma hrest =>
    have hpos := hcomma.length_pos
    simp only [List.length_append] at hn
    obtain ⟨after, hafter, hread⟩ := hrest.readsItems n closing rest (by omega) hclosing
    refine ⟨after, hafter, ?_⟩
    simpa using h.readsValue.readItems_cons (by omega) hcomma hread

theorem Member.readsMember {entry : Value × Value} {cs : List Char} (h : Member entry cs) :
    ReadsMember entry cs := by
  cases h with
  | intro hkey hcolon h => exact .intro hkey hcolon h.readsValue

theorem Members.readsMembers {entries : List (Value × Value)} {cs : List Char}
    (h : Members entries cs) : ReadsMembers entries cs := by
  intro n closing rest hn hclosing
  obtain ⟨n, rfl⟩ : ∃ m, n = m + 1 := ⟨n - 1, by omega⟩
  cases h with
  | one h =>
    rw [List.append_assoc]
    exact h.readsMember.readEntries_last (by omega) hclosing rest
  | more h hcomma hrest =>
    have hpos := hcomma.length_pos
    simp only [List.length_append] at hn
    obtain ⟨after, hafter, hread⟩ := hrest.readsMembers n closing rest (by omega) hclosing
    refine ⟨after, hafter, ?_⟩
    simpa using h.readsMember.readEntries_cons (by omega) hcomma hread

end

theorem read?_eq_some_of_isText {v : Value} {text : String} (h : IsText v text.toList) :
    read? text = some v := by
  rw [read?]
  generalize text.toList = cs at h
  cases h with
  | @intro before cs after hbefore h hafter =>
    obtain ⟨blanks, hblanks, hread⟩ := h.readsValue (2 * (before ++ cs ++ after).length + 1) after
      (by simp only [List.length_append]; omega) hafter.stops
    have hend : skipBlanks (blanks ++ after) = [] := by
      rw [hblanks.skipBlanks_append, ← List.append_nil after, hafter.skipBlanks_append]
      rfl
    have htext : readValue (2 * (before ++ cs ++ after).length + 1) (before ++ cs ++ after) =
        some (v, blanks ++ after) := by
      rw [← readValue_skipBlanks, List.append_assoc, hbefore.skipBlanks_append,
        readValue_skipBlanks, ← hread, List.append_assoc]
    simp only [htext, hend, List.isEmpty_nil, if_true]

theorem Denotes.isText {v : Value} {cs : List Char} (h : Denotes v cs) : IsText v cs := by
  have htext := @IsText.intro v [] cs [] nofun h nofun
  rwa [List.nil_append, List.append_nil] at htext

theorem IsText.unique {v w : Value} {cs : List Char} (hv : IsText v cs) (hw : IsText w cs) :
    v = w := by
  rw [← String.toList_ofList (l := cs)] at hv hw
  exact Option.some.inj ((read?_eq_some_of_isText hv).symm.trans (read?_eq_some_of_isText hw))

end Schemata.Json
