import Mathlib.Data.List.Infix
import Schemata.Property

/-!
# The grammar of accessor names

`accessorProperty` tries the accessor prefixes one after the other and looks at what is left. Here
the names that it accepts are written down as data: an `AccessorReading` is a prefix, perhaps an
underscore, and a rest that is not empty and begins with a capital if no underscore stands before
it. A name has a property exactly if it has a reading, and it has at most one
(`accessorProperty_iff_reading`): the two prefixes begin with different letters, and an underscore
is no capital. So the order in which the prefixes are tried does not matter.

The property is the rest with its first character in lower case. A first character that already is
the lower case of a capital stays as it is, because lower case is the lower case of itself
(`Text.lowerFrom_of_mem`). This is a fact about the table of case mappings, which is checked entry
by entry.
-/

namespace Schemata

namespace Text

/-! ## Lower case -/

variable {α : Type} {start : α → Nat} {table : Array α} {e : α}

theorem mem_of_lastStart {c fuel low high : Nat}
    (h : lastStart start table c fuel low high = some e) : e ∈ table := by
  fun_induction lastStart start table c fuel low high with
  | case1 => exact Array.mem_of_getElem? h
  | case2 => exact Array.mem_of_getElem? h
  | case3 _ _ _ _ _ _ _ _ ih => exact ih h
  | case4 _ _ _ _ _ _ _ _ ih => exact ih h
  | case5 => exact Array.mem_of_getElem? h

/-- The images of the code points that a stepped range maps. -/
def imagesOf : Nat × Nat × Nat × Int → List Nat
  | (low, high, step, distance) =>
    (List.range ((high - low) / step + 1)).map fun k ↦
      (((low + k * step : Nat) : Int) + distance).toNat

theorem exists_of_mapRuns {runs : Array (Nat × Nat × Nat × Int)} {c n : Nat}
    (h : mapRuns runs c = some n) : ∃ run ∈ runs, n ∈ imagesOf run := by
  rw [mapRuns] at h
  cases hentry : entryFor (·.1) runs c with
  | none =>
    rw [hentry] at h
    exact nomatch h
  | some run =>
    obtain ⟨low, high, step, distance⟩ := run
    rw [hentry] at h
    obtain ⟨hin, hn⟩ := Option.ite_none_right_eq_some.mp h
    simp only [Bool.and_eq_true, decide_eq_true_eq, beq_iff_eq] at hin
    obtain ⟨⟨hlow, hhigh⟩, hmod⟩ := hin
    have hc : low + (c - low) / step * step = c := by
      rw [Nat.div_mul_cancel (Nat.dvd_of_mod_eq_zero hmod)]
      omega
    have hk : (c - low) / step < (high - low) / step + 1 :=
      Nat.lt_succ_of_le (Nat.div_le_div_right (by omega))
    refine ⟨_, mem_of_lastStart hentry, List.mem_map.mpr ⟨_, List.mem_range.mpr hk, ?_⟩⟩
    rw [hc]
    exact Option.some.inj hn

theorem lowerFrom_singleton (c : Char) :
    lowerFrom [] [c] = if c.toNat = 0x3a3 then ['σ'] else lowerChar c := by
  rw [lowerFrom, lowerFrom, List.append_nil]
  rfl

theorem lowerFrom_singleton_ne_nil (c : Char) : lowerFrom [] [c] ≠ [] := by
  rw [lowerFrom_singleton]
  split
  · exact List.cons_ne_nil _ _
  · unfold lowerChar
    split
    · exact List.cons_ne_nil _ _
    · split
      · exact List.cons_ne_nil _ _
      · split <;> exact List.cons_ne_nil _ _

theorem lowerFrom_of_mem_imagesOf {run : Nat × Nat × Nat × Int} {n : Nat} (hrun : run ∈ lowerRuns)
    (hn : n ∈ imagesOf run) : lowerFrom [] [Char.ofNat n] = [Char.ofNat n] := by
  have hall : (lowerRuns.all fun run ↦ (imagesOf run).all fun n ↦
      lowerFrom [] [Char.ofNat n] = [Char.ofNat n]) = true := by decide +kernel
  have himages := Array.all_eq_true_iff_forall_mem.mp hall run hrun
  exact of_decide_eq_true (List.all_eq_true.mp himages n hn)

theorem lowerFrom_of_lowerChar_ascii {c d : Char} (hc : c.toNat < 128) (hd : d ∈ lowerChar c) :
    lowerFrom [] [d] = [d] := by
  have hall : ((List.range 128).all fun n ↦ (lowerChar (Char.ofNat n)).all fun d ↦
      lowerFrom [] [d] = [d]) = true := by decide +kernel
  have himages := List.all_eq_true.mp hall c.toNat (List.mem_range.mpr hc)
  rw [Char.ofNat_toNat] at himages
  exact of_decide_eq_true (List.all_eq_true.mp himages d hd)

theorem lowerFrom_of_mem {c d : Char} (h : d ∈ lowerFrom [] [c]) : lowerFrom [] [d] = [d] := by
  rw [lowerFrom_singleton] at h
  split at h
  · obtain rfl := List.mem_singleton.mp h
    decide +kernel
  next hsigma =>
    by_cases hascii : c.toNat < 128
    · exact lowerFrom_of_lowerChar_ascii hascii h
    by_cases hdot : c.toNat = 0x130
    · rw [lowerChar, if_neg hascii, if_pos hdot] at h
      rcases List.mem_pair.mp h with rfl | rfl <;> decide +kernel
    cases hrun : mapRuns lowerRuns c.toNat with
    | some n =>
      rw [lowerChar, if_neg hascii, if_neg hdot, hrun] at h
      obtain rfl := List.mem_singleton.mp h
      obtain ⟨run, hmem, hn⟩ := exists_of_mapRuns hrun
      exact lowerFrom_of_mem_imagesOf hmem hn
    | none =>
      have hsame : lowerChar c = [c] := by rw [lowerChar, if_neg hascii, if_neg hdot, hrun]
      rw [hsame] at h
      obtain rfl := List.mem_singleton.mp h
      rw [lowerFrom_singleton, if_neg hsigma, hsame]

/-- The upper case of `c` is the one character `u`, a capital, and the lower case of `u` is `c`. -/
structure IsCapitalOf (u c : Char) : Prop where
  upper : upper (String.singleton c) = String.singleton u
  isUpper : isUpper u = true
  lower : lower (String.singleton u) = String.singleton c

theorem toList_lower_singleton (c : Char) :
    (lower (String.singleton c)).toList = lowerFrom [] [c] := by
  rw [lower, String.toList_ofList, String.toList_singleton]

theorem IsCapitalOf.lower_self {u c : Char} (h : IsCapitalOf u c) :
    Text.lower (String.singleton c) = String.singleton c := by
  have hu : lowerFrom [] [u] = [c] := by
    rw [← toList_lower_singleton, h.lower, String.toList_singleton]
  rw [← String.toList_inj, toList_lower_singleton, String.toList_singleton]
  exact lowerFrom_of_mem (hu ▸ List.mem_singleton_self c)

end Text

/-! ## Readings -/

/-- A way to read a name as the name of an accessor: a prefix, perhaps an underscore, and the rest,
which begins with a capital if there is no underscore. -/
structure AccessorReading where
  /-- The prefix. -/
  start : String
  /-- Whether an underscore follows. -/
  underscore : Bool
  /-- The first character of the rest. -/
  first : Char
  /-- What comes after it. -/
  tail : String
  start_mem : start ∈ ["get", "is"]
  capital : underscore = false → Text.isUpper first = true

theorem mem_accessorPrefixes_iff {cs : List Char} :
    cs ∈ accessorPrefixes ↔ ∃ start ∈ ["get", "is"], String.toList start = cs := by
  rw [show accessorPrefixes = ["get", "is"].map String.toList from rfl, List.mem_map]

namespace AccessorReading

/-- The name that is read. -/
def name (r : AccessorReading) : String :=
  r.start ++ (if r.underscore then "_" else "") ++ (String.singleton r.first ++ r.tail)

/-- The property: the rest with its first character in lower case. -/
def property (r : AccessorReading) : String :=
  Text.lower (String.singleton r.first) ++ r.tail

/-- What follows the prefix. -/
def remainder (r : AccessorReading) : List Char :=
  (if r.underscore then ['_'] else []) ++ r.first :: r.tail.toList

theorem toList_name (r : AccessorReading) : r.name.toList = r.start.toList ++ r.remainder := by
  have hmark : (if r.underscore then "_" else "").toList = if r.underscore then ['_'] else [] := by
    split <;> rfl
  simp only [name, remainder, String.toList_append, String.toList_singleton, hmark,
    List.append_assoc, List.singleton_append]

theorem toList_property (r : AccessorReading) :
    r.property.toList = lowerFirst (r.first :: r.tail.toList) := by
  rw [property, String.toList_append, Text.toList_lower_singleton, lowerFirst]

theorem mem_accessorPrefixes (r : AccessorReading) : r.start.toList ∈ accessorPrefixes :=
  mem_accessorPrefixes_iff.mpr ⟨r.start, r.start_mem, rfl⟩

theorem propertyOfRest_remainder (r : AccessorReading) :
    propertyOfRest r.remainder = some (r.first :: r.tail.toList) := by
  cases hmark : r.underscore with
  | true => simp [remainder, hmark, propertyOfRest]
  | false =>
    have hcapital := r.capital hmark
    have hne : r.first ≠ '_' := by
      intro heq
      rw [heq] at hcapital
      exact absurd hcapital (by decide)
    have hremainder : r.remainder = r.first :: r.tail.toList := by simp [remainder, hmark]
    rw [hremainder, propertyOfRest.eq_2 r.first r.tail.toList hne, if_pos hcapital]

end AccessorReading

theorem exists_remainder_eq {start : String} {cs rest : List Char} (hstart : start ∈ ["get", "is"])
    (h : propertyOfRest cs = some rest) : ∃ r : AccessorReading,
      r.start = start ∧ r.remainder = cs ∧ r.first :: r.tail.toList = rest := by
  unfold propertyOfRest at h
  split at h
  next after =>
    split at h
    · exact nomatch h
    next hne =>
      obtain ⟨c, tail, rfl⟩ := List.exists_cons_of_ne_nil (mt List.isEmpty_iff.mpr hne)
      exact ⟨⟨start, true, c, String.ofList tail, hstart, nofun⟩, rfl,
        by simp [AccessorReading.remainder], by simpa using h⟩
  next c tail _ =>
    split at h
    next hcapital =>
      exact ⟨⟨start, false, c, String.ofList tail, hstart, fun _ ↦ hcapital⟩, rfl,
        by simp [AccessorReading.remainder], by simpa using h⟩
    · exact nomatch h
  · exact nomatch h

theorem accessorUnder_eq_some_iff {n start : String} {q : List Char}
    (hstart : start ∈ ["get", "is"]) : accessorUnder n.toList start.toList = some q ↔
      ∃ r : AccessorReading, r.start = start ∧ r.name = n ∧ r.property.toList = q := by
  constructor
  · intro h
    unfold accessorUnder at h
    split at h
    next hbegins =>
      obtain ⟨cs, hcs⟩ := List.isPrefixOf_iff_prefix.mp hbegins
      rw [← hcs, List.drop_left] at h
      obtain ⟨rest, hrest, rfl⟩ := Option.map_eq_some_iff.mp h
      obtain ⟨r, rfl, rfl, rfl⟩ := exists_remainder_eq hstart hrest
      exact ⟨r, rfl, String.toList_inj.mp (r.toList_name.trans hcs), r.toList_property⟩
    · exact nomatch h
  · rintro ⟨r, rfl, rfl, rfl⟩
    rw [accessorUnder, r.toList_name, if_pos (by simp), List.drop_left, r.propertyOfRest_remainder,
      r.toList_property]
    rfl

/-- No prefix begins another, so a name begins with one prefix at most. -/
theorem eq_of_accessorPrefixes {a b cs : List Char} (ha : a ∈ accessorPrefixes)
    (hb : b ∈ accessorPrefixes) (hac : a <+: cs) (hbc : b <+: cs) : a = b := by
  have hall : ∀ a ∈ accessorPrefixes, ∀ b ∈ accessorPrefixes, a <+: b → a = b := by decide
  rcases List.prefix_or_prefix_of_prefix hac hbc with hab | hba
  · exact hall a ha b hb hab
  · exact (hall b hb a ha hba).symm

/-- **A name has one reading.** -/
theorem AccessorReading.eq_of_name_eq {r r' : AccessorReading} (h : r.name = r'.name) : r = r' := by
  have htext : r.start.toList ++ r.remainder = r'.start.toList ++ r'.remainder := by
    rw [← r.toList_name, ← r'.toList_name, h]
  have hstart : r.start.toList = r'.start.toList :=
    eq_of_accessorPrefixes r.mem_accessorPrefixes r'.mem_accessorPrefixes
      (List.prefix_append _ _) ⟨r'.remainder, htext.symm⟩
  have hremainder : r.remainder = r'.remainder := by
    rw [hstart] at htext
    exact List.append_cancel_left htext
  have hrest : r.first :: r.tail.toList = r'.first :: r'.tail.toList := by
    have hsome := r.propertyOfRest_remainder
    rw [hremainder, r'.propertyOfRest_remainder] at hsome
    exact (Option.some.inj hsome).symm
  have hmark : r.underscore = r'.underscore := by
    rw [remainder, remainder, hrest] at hremainder
    have hlength := congrArg List.length hremainder
    cases hr : r.underscore <;> cases hr' : r'.underscore <;> simp_all
  obtain ⟨hfirst, htail⟩ := List.cons.inj hrest
  cases r
  cases r'
  simp_all [String.toList_inj]

theorem findSome?_eq_some_iff_of_unique {α β : Type} {f : α → Option β} {l : List α} {y : β}
    (h : ∀ a ∈ l, ∀ b ∈ l, (f a).isSome → (f b).isSome → a = b) :
    l.findSome? f = some y ↔ ∃ a ∈ l, f a = some y := by
  refine ⟨List.exists_of_findSome?_eq_some, fun ⟨a, ha, hy⟩ ↦ ?_⟩
  have hsome : (l.findSome? f).isSome := List.findSome?_isSome_iff.mpr ⟨a, ha, by simp [hy]⟩
  obtain ⟨z, hz⟩ := Option.isSome_iff_exists.mp hsome
  obtain ⟨b, hb, hbz⟩ := List.exists_of_findSome?_eq_some hz
  obtain rfl := h a ha b hb (by simp [hy]) (by simp [hbz])
  rw [hz, ← hbz, hy]

/-- The prefixes may be tried in any order: a property is found if the name has a reading. -/
theorem findSome?_accessorUnder_iff {order : List (List Char)}
    (horder : order.Perm accessorPrefixes) {n q : String} :
    (order.findSome? (accessorUnder n.toList)).map String.ofList = some q ↔
      ∃ r : AccessorReading, r.name = n ∧ r.property = q := by
  have hbegins : ∀ start, (accessorUnder n.toList start).isSome → start <+: n.toList := by
    intro start h
    unfold accessorUnder at h
    split at h
    next hbegins => exact List.isPrefixOf_iff_prefix.mp hbegins
    · exact nomatch h
  have hunique : ∀ a ∈ order, ∀ b ∈ order, (accessorUnder n.toList a).isSome →
      (accessorUnder n.toList b).isSome → a = b := fun a ha b hb hsa hsb ↦
    eq_of_accessorPrefixes (horder.mem_iff.mp ha) (horder.mem_iff.mp hb) (hbegins a hsa)
      (hbegins b hsb)
  constructor
  · intro h
    obtain ⟨cs, hcs, rfl⟩ := Option.map_eq_some_iff.mp h
    obtain ⟨a, ha, hcs⟩ := (findSome?_eq_some_iff_of_unique hunique).mp hcs
    obtain ⟨start, hstart, rfl⟩ := mem_accessorPrefixes_iff.mp (horder.mem_iff.mp ha)
    obtain ⟨r, -, hname, rfl⟩ := (accessorUnder_eq_some_iff hstart).mp hcs
    exact ⟨r, hname, String.ofList_toList.symm⟩
  · rintro ⟨r, hname, rfl⟩
    have hunder := (accessorUnder_eq_some_iff r.start_mem).mpr ⟨r, rfl, hname, rfl⟩
    have hfound := (findSome?_eq_some_iff_of_unique hunique).mpr
      ⟨_, horder.mem_iff.mpr r.mem_accessorPrefixes, hunder⟩
    rw [hfound, Option.map_some, String.ofList_toList]

theorem accessorProperty_eq_some_iff {n q : String} : accessorProperty n = some q ↔
    ∃ r : AccessorReading, r.name = n ∧ r.property = q :=
  findSome?_accessorUnder_iff (.refl _)

theorem AccessorReading.property_ne_empty (r : AccessorReading) : r.property ≠ "" := by
  intro h
  have htext := r.toList_property
  rw [h, lowerFirst] at htext
  exact Text.lowerFrom_singleton_ne_nil r.first (List.append_eq_nil_iff.mp htext.symm).1

/-! ## Spellings -/

/-- **Accessor names are parsed by this grammar.** A name has a property exactly if it has a
reading, and then the property is that of the reading, the rest with its first character in lower
case. There is one reading at most, the prefixes may be tried in any order, and no property is
empty. A property whose first letter has a capital is found again in all four spellings: with either
prefix, capitalised or after an underscore. -/
theorem accessorProperty_iff_reading (n : String) :
    (∀ q, accessorProperty n = some q ↔ ∃ r : AccessorReading, r.name = n ∧ r.property = q) ∧
      (∀ r r' : AccessorReading, r.name = n → r'.name = n → r = r') ∧
      (∀ order : List (List Char), order.Perm accessorPrefixes →
        (order.findSome? (accessorUnder n.toList)).map String.ofList = accessorProperty n) ∧
      accessorProperty n ≠ some "" ∧
      ∀ u c tail q, Text.IsCapitalOf u c → q = String.singleton c ++ tail →
        ∀ start ∈ ["get", "is"],
          accessorProperty (start ++ (String.singleton u ++ tail)) = some q ∧
            accessorProperty (start ++ "_" ++ q) = some q := by
  refine ⟨fun q ↦ accessorProperty_eq_some_iff,
    fun r r' h h' ↦ AccessorReading.eq_of_name_eq (h.trans h'.symm), fun order horder ↦ ?_,
    fun h ↦ ?_, ?_⟩
  · refine Option.ext fun q ↦ ?_
    exact (findSome?_accessorUnder_iff horder).trans accessorProperty_eq_some_iff.symm
  · obtain ⟨r, -, hempty⟩ := accessorProperty_eq_some_iff.mp h
    exact r.property_ne_empty hempty
  · rintro u c tail _ h rfl start hstart
    let capitalised : AccessorReading := ⟨start, false, u, tail, hstart, fun _ ↦ h.isUpper⟩
    let separate : AccessorReading := ⟨start, true, c, tail, hstart, nofun⟩
    refine ⟨accessorProperty_eq_some_iff.mpr ⟨capitalised, ?_, ?_⟩,
      accessorProperty_eq_some_iff.mpr ⟨separate, rfl, ?_⟩⟩
    · simp [capitalised, AccessorReading.name]
    · exact congrArg (· ++ tail) h.lower
    · exact congrArg (· ++ tail) h.lower_self

/-- A property that begins with a letter outside of ASCII, in all four spellings. -/
theorem accessorProperty_iff_reading_state : Text.IsCapitalOf 'É' 'é' ∧
    ∀ start ∈ ["get", "is"], accessorProperty (start ++ ("É" ++ "tat")) = some "état" ∧
      accessorProperty (start ++ "_" ++ "état") = some "état" := by
  have hcapital : Text.IsCapitalOf 'É' 'é' :=
    ⟨by decide +kernel, by decide +kernel, by decide +kernel⟩
  obtain ⟨-, -, -, -, hspellings⟩ := accessorProperty_iff_reading "getÉtat"
  exact ⟨hcapital, hspellings 'É' 'é' "tat" "état" hcapital rfl⟩

end Schemata
