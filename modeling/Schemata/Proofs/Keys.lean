import Mathlib.Tactic.Ring
import Schemata.Proofs.Entries

/-!
# Keys of mappings

Two values are one key when they are the same text, the same host object, both null, or the same
number; a truth value, an integer and a floating-point number can be one number. Being the same key
is symmetric and transitive. It is not reflexive: not-a-number is no number, and lists and mappings
are no keys at all.

Transitivity needs that two floating-point numbers which denote the same integer are the same
number, which is where the bits matter: `Binary64.sameNumber_of_toInt?` takes them apart.

With that, a sequence of writings to a mapping can be read off: the value under a key is the one
written last, and the keys stand in the order in which they were written first.
-/

namespace Schemata

/-! ## Floating-point numbers that denote integers -/

theorem twoTo_eq (n : Nat) : twoTo n = 2 ^ n := rfl

namespace Binary64

variable {x y : Binary64} {m : Int}

theorem fraction_lt (x : Binary64) : x.fraction < 2 ^ 52 := Nat.mod_lt _ (by decide)

/-- The exponent of a number, counted from the one of the smallest numbers. -/
def exponent (x : Binary64) : Nat := max x.exponentField 1

theorem significand_lt (x : Binary64) : x.significand < 2 ^ 53 := by
  have hfraction := x.fraction_lt
  have htwo := twoTo_eq 52
  unfold significand
  split <;> omega

theorem exponent_eq_one_or (x : Binary64) : x.exponent = 1 ∨ 2 ^ 52 ≤ x.significand := by
  have htwo := twoTo_eq 52
  unfold exponent significand
  split <;> omega

theorem fields_of_significand (h : x.significand = y.significand) (he : x.exponent = y.exponent) :
    x.exponentField = y.exponentField ∧ x.fraction = y.fraction := by
  have hx := x.fraction_lt
  have hy := y.fraction_lt
  have htwo := twoTo_eq 52
  unfold significand at h
  unfold exponent at he
  split at h <;> split at h <;> omega

theorem eq_of_fields (hs : x.negative = y.negative) (he : x.exponentField = y.exponentField)
    (hf : x.fraction = y.fraction) : x = y := by
  have hx : x.bits.toNat < 2 ^ 64 := x.bits.toNat_lt
  have hy : y.bits.toNat < 2 ^ 64 := y.bits.toNat_lt
  have hsign : x.bits.toNat / 2 ^ 63 = 1 ↔ y.bits.toNat / 2 ^ 63 = 1 := by
    simpa [negative, twoTo_eq] using hs
  have hexponent : x.bits.toNat / 2 ^ 52 % 2048 = y.bits.toNat / 2 ^ 52 % 2048 := he
  have hfraction : x.bits.toNat % 2 ^ 52 = y.bits.toNat % 2 ^ 52 := hf
  have hbits : x.bits.toNat = y.bits.toNat := by omega
  obtain ⟨bits⟩ := x
  obtain ⟨bits'⟩ := y
  exact congrArg Binary64.mk (UInt64.toNat_inj.mp hbits)

theorem isZero_of_significand (h : x.significand = 0) : x.isZero = true := by
  have htwo := twoTo_eq 52
  unfold significand at h
  unfold isZero
  split at h
  · next he => simp [he, h]
  · omega

theorem significand_of_isZero (h : x.isZero = true) : x.significand = 0 := by
  obtain ⟨he, hf⟩ : x.exponentField = 0 ∧ x.fraction = 0 := by simpa [isZero] using h
  rw [significand, if_pos he, hf]

/-- A number denotes an integer by its significand, shifted by its scale, and its sign. -/
theorem of_toInt? (h : x.toInt? = some m) :
    x.exponentField ≠ 2047 ∧
      m.natAbs * 2 ^ (-x.scale).toNat = x.significand * 2 ^ x.scale.toNat ∧
      (x.significand ≠ 0 → (m < 0 ↔ x.negative = true)) := by
  unfold toInt? dividePow at h
  by_cases hfinite : x.exponentField = 2047
  · rw [if_pos hfinite] at h
    exact nomatch h
  rw [if_neg hfinite, neg_neg, one_mul, twoTo_eq, twoTo_eq] at h
  generalize hd : 2 ^ (-x.scale).toNat = d at h ⊢
  generalize hn : x.significand * 2 ^ x.scale.toNat = n at h ⊢
  change (if n % d = 0 then
    some (if x.negative then -((n / d : Nat) : Int) else (n / d : Nat)) else none) = some m at h
  by_cases hdvd : n % d = 0
  · rw [if_pos hdvd] at h
    have hm : (if x.negative then -((n / d : Nat) : Int) else (n / d : Nat)) = m :=
      Option.some.inj h
    have habs : m.natAbs = n / d := by
      rw [← hm]
      split <;> simp only [Int.natAbs_neg, Int.natAbs_natCast]
    have hvalue : m.natAbs * d = n := by
      rw [habs]
      exact Nat.div_mul_cancel (Nat.dvd_of_mod_eq_zero hdvd)
    refine ⟨hfinite, hvalue, fun hne ↦ ?_⟩
    have hpos : 0 < n := by
      rw [← hn]
      exact Nat.mul_pos (Nat.pos_of_ne_zero hne) (Nat.pow_pos (by decide))
    have hquotient : 0 < n / d := by
      rw [← habs]
      exact Nat.pos_of_mul_pos_right (hvalue ▸ hpos)
    rw [← hm]
    cases x.negative <;> simp <;> omega
  · rw [if_neg hdvd] at h
    exact nomatch h

theorem shift_le {s t i j : Nat} (hs : s < 2 ^ 53) (ht : 2 ^ 52 ≤ t) (h : s * 2 ^ i = t * 2 ^ j) :
    j ≤ i := by
  by_contra hlt
  obtain ⟨k, rfl⟩ : ∃ k, j = i + (k + 1) := ⟨j - i - 1, by omega⟩
  have hi : 0 < 2 ^ i := Nat.pow_pos (by decide)
  have hk : 0 < 2 ^ k := Nat.pow_pos (by decide)
  have hst : s = t * 2 ^ (k + 1) := by
    refine Nat.eq_of_mul_eq_mul_right hi ?_
    rw [h, Nat.pow_add]
    ring
  have hle : 2 ^ 52 * 2 ≤ t * 2 ^ (k + 1) := by
    rw [Nat.pow_succ]
    exact Nat.mul_le_mul ht (by omega)
  omega

theorem sameNumber_of_toInt? (hx : x.toInt? = some m) (hy : y.toInt? = some m) :
    x.sameNumber y = true := by
  obtain ⟨hxfinite, hxvalue, hxsign⟩ := of_toInt? hx
  obtain ⟨hyfinite, hyvalue, hysign⟩ := of_toInt? hy
  have hxscale : x.scale = (x.exponent : Int) - 1075 := rfl
  have hyscale : y.scale = (y.exponent : Int) - 1075 := rfl
  -- both shifted to a common denominator
  have hshifted : x.significand * 2 ^ (x.scale.toNat + (-y.scale).toNat) =
      y.significand * 2 ^ (y.scale.toNat + (-x.scale).toNat) := by
    rw [Nat.pow_add, Nat.pow_add, ← mul_assoc, ← mul_assoc, ← hxvalue, ← hyvalue]
    ring
  have hexponent : x.exponent = y.exponent := by
    have hxone : 1 ≤ x.exponent := Nat.le_max_right _ _
    have hyone : 1 ≤ y.exponent := Nat.le_max_right _ _
    rcases x.exponent_eq_one_or with hx1 | hxlead <;> rcases y.exponent_eq_one_or with hy1 | hylead
    · omega
    · have hle := shift_le x.significand_lt hylead hshifted
      omega
    · have hle := shift_le y.significand_lt hxlead hshifted.symm
      omega
    · have hle := shift_le x.significand_lt hylead hshifted
      have hge := shift_le y.significand_lt hxlead hshifted.symm
      omega
  have hshift : x.scale.toNat + (-y.scale).toNat = y.scale.toNat + (-x.scale).toNat := by omega
  have hsignificand : x.significand = y.significand := by
    rw [hshift] at hshifted
    exact Nat.eq_of_mul_eq_mul_right (Nat.pow_pos (by decide)) hshifted
  have hxnan : x.isNaN = false := by simp [isNaN, hxfinite]
  have hynan : y.isNaN = false := by simp [isNaN, hyfinite]
  rw [sameNumber, hxnan, hynan]
  by_cases hzero : x.significand = 0
  · simp [isZero_of_significand hzero, isZero_of_significand (hsignificand ▸ hzero)]
  · obtain ⟨he, hf⟩ := fields_of_significand hsignificand hexponent
    have hnegative : x.negative = y.negative := by
      have h := (hxsign hzero).symm.trans (hysign (hsignificand ▸ hzero))
      exact Bool.eq_iff_iff.mpr h
    simp [eq_of_fields hnegative he hf]

theorem toInt?_of_sameNumber (h : x.sameNumber y = true) : x.toInt? = y.toInt? := by
  have hcases : x = y ∨ x.isZero = true ∧ y.isZero = true := by
    unfold sameNumber at h
    simp only [Bool.and_eq_true, Bool.or_eq_true, beq_iff_eq] at h
    exact h.2
  rcases hcases with rfl | ⟨hx, hy⟩
  · rfl
  · have hzero : ∀ z : Binary64, z.isZero = true → z.toInt? = some 0 := by
      intro z hz
      have he : z.exponentField = 0 := by
        have h : z.exponentField = 0 ∧ z.fraction = 0 := by simpa [isZero] using hz
        exact h.1
      simp [toInt?, dividePow, significand_of_isZero hz, he]
    rw [hzero x hx, hzero y hy]

theorem sameNumber_comm (x y : Binary64) : x.sameNumber y = y.sameNumber x := by
  unfold sameNumber
  rw [Bool.and_comm (!x.isNaN), Bool.and_comm x.isZero, Bool.beq_comm]

theorem sameNumber_trans {z : Binary64} (hxy : x.sameNumber y = true)
    (hyz : y.sameNumber z = true) : x.sameNumber z = true := by
  simp only [sameNumber, Bool.and_eq_true, Bool.or_eq_true, beq_iff_eq] at hxy hyz ⊢
  obtain ⟨⟨hx, -⟩, hxy⟩ := hxy
  obtain ⟨⟨-, hz⟩, hyz⟩ := hyz
  refine ⟨⟨hx, hz⟩, ?_⟩
  rcases hxy with rfl | ⟨hx0, hy0⟩
  · exact hyz
  · rcases hyz with rfl | ⟨-, hz0⟩
    · exact .inr ⟨hx0, hy0⟩
    · exact .inr ⟨hx0, hz0⟩

end Binary64

namespace Value

/-! ## The same key -/

theorem Quantity.same_comm (p q : Quantity) : p.same q = q.same p := by
  cases p <;> cases q <;> simp only [Quantity.same, Binary64.sameNumber_comm, Bool.beq_comm]

theorem Quantity.same_trans {p q r : Quantity} (hpq : p.same q = true) (hqr : q.same r = true) :
    p.same r = true := by
  cases p <;> cases q <;> cases r <;> simp only [Quantity.same, beq_iff_eq] at hpq hqr ⊢
  case int.int.int => exact hpq.trans hqr
  case int.int.float => rw [hpq, hqr]
  case int.float.int => exact Option.some.inj (hpq.symm.trans hqr)
  case int.float.float => rw [← Binary64.toInt?_of_sameNumber hqr, hpq]
  case float.int.int => rw [hpq, hqr]
  case float.int.float => exact Binary64.sameNumber_of_toInt? hpq hqr
  case float.float.int => rw [Binary64.toInt?_of_sameNumber hpq, hqr]
  case float.float.float => exact Binary64.sameNumber_trans hpq hqr

/-- A value is a key by itself: null, a text or a host object. -/
def Atomic : Value → Prop
  | null | str _ | object _ => True
  | _ => False

theorem Atomic.quantity?_eq {a : Value} (h : a.Atomic) : a.quantity? = none := by
  cases a with
  | null | str | object => rfl
  | _ => exact h.elim

theorem sameKey_iff {a b : Value} : a.sameKey b = true ↔
    (∃ p q, a.quantity? = some p ∧ b.quantity? = some q ∧ p.same q = true) ∨ a.Atomic ∧ a = b := by
  cases ha : a.quantity? with
  | some p =>
    have hatomic : ¬a.Atomic := by
      intro h
      cases ha.symm.trans h.quantity?_eq
    cases hb : b.quantity? with
    | some q => simp [sameKey, ha, hb, hatomic]
    | none => simp [sameKey, ha, hb, hatomic]
  | none =>
    cases hb : b.quantity? with
    | some q =>
      have hne : ¬(a.Atomic ∧ a = b) := by
        rintro ⟨-, rfl⟩
        cases ha.symm.trans hb
      simp [sameKey, ha, hb, hne]
    | none => cases a <;> cases b <;> simp_all [sameKey, quantity?, Atomic]

theorem sameKey_comm (a b : Value) : a.sameKey b = b.sameKey a := by
  have hsymm : ∀ a b : Value, a.sameKey b = true → b.sameKey a = true := by
    intro a b h
    rcases sameKey_iff.mp h with ⟨p, q, hp, hq, hpq⟩ | ⟨hatomic, rfl⟩
    · exact sameKey_iff.mpr (.inl ⟨q, p, hq, hp, Quantity.same_comm p q ▸ hpq⟩)
    · exact h
  exact Bool.eq_iff_iff.mpr ⟨hsymm a b, hsymm b a⟩

theorem sameKey_trans {a b c : Value} (hab : a.sameKey b = true) (hbc : b.sameKey c = true) :
    a.sameKey c = true := by
  rcases sameKey_iff.mp hab with ⟨p, q, hp, hq, hpq⟩ | ⟨-, rfl⟩
  · rcases sameKey_iff.mp hbc with ⟨q', r, hq', hr, hqr⟩ | ⟨-, rfl⟩
    · obtain rfl := Option.some.inj (hq.symm.trans hq')
      exact sameKey_iff.mpr (.inl ⟨p, r, hp, hr, Quantity.same_trans hpq hqr⟩)
    · exact hab
  · exact hbc

theorem sameKey_congr {a b : Value} (h : a.sameKey b = true) (c : Value) :
    a.sameKey c = b.sameKey c :=
  Bool.eq_iff_iff.mpr ⟨sameKey_trans (sameKey_comm a b ▸ h), sameKey_trans h⟩

/-! ## What writings leave -/

variable {e ws : List (Value × Value)} {k k' v : Value}

theorem lookup_put (e : List (Value × Value)) (k v k' : Value) :
    lookup k' (put e k v) = if k.sameKey k' then some v else lookup k' e := by
  induction e with
  | nil => rfl
  | cons x e ih =>
    rw [put]
    by_cases hx : x.1.sameKey k
    · rw [if_pos hx, lookup, lookup, sameKey_congr hx k']
      by_cases hk : k.sameKey k'
      · rw [if_pos hk, if_pos hk]
      · rw [if_neg hk, if_neg hk, if_neg hk]
    · rw [if_neg hx, lookup, lookup, ih]
      by_cases hx' : x.1.sameKey k'
      · have hk : ¬k.sameKey k' = true := fun hk ↦
          hx (sameKey_trans hx' (sameKey_comm k k' ▸ hk))
        rw [if_pos hx', if_pos hx', if_neg hk]
      · rw [if_neg hx', if_neg hx']

theorem map_fst_put (e : List (Value × Value)) (k v : Value) :
    (put e k v).map (·.1) = if e.any (·.1.sameKey k) then e.map (·.1) else e.map (·.1) ++ [k] := by
  induction e with
  | nil => rfl
  | cons x e ih =>
    rw [put, List.any_cons]
    by_cases hx : x.1.sameKey k
    · simp [hx]
    · rw [if_neg hx, List.map_cons, ih]
      by_cases hany : e.any (·.1.sameKey k)
      · simp [hx, hany]
      · simp [hx, hany]

/-- The value that is written last under a key. -/
def lastWritten (k : Value) (ws : List (Value × Value)) : Option Value :=
  (ws.findRev? (·.1.sameKey k)).map (·.2)

theorem lastWritten_cons (k : Value) (w : Value × Value) (ws : List (Value × Value)) :
    lastWritten k (w :: ws) =
      (lastWritten k ws).or (if w.1.sameKey k then some w.2 else none) := by
  simp only [lastWritten, List.findRev?_eq_find?_reverse, List.reverse_cons, List.find?_append]
  cases List.find? (·.1.sameKey k) ws.reverse with
  | some x => rfl
  | none => cases hw : w.1.sameKey k <;> simp [hw]

/-- Keys without those that are the same as an earlier one. -/
def firstKeys (ks : List Value) : List Value := ks.eraseDupsBy sameKey

theorem putAll_cons (e : List (Value × Value)) (w : Value × Value) (ws : List (Value × Value)) :
    putAll e (w :: ws) = putAll (put e w.1 w.2) ws := rfl

theorem lookup_putAll (k : Value) (e ws : List (Value × Value)) :
    lookup k (putAll e ws) = (lastWritten k ws).or (lookup k e) := by
  induction ws generalizing e with
  | nil => rfl
  | cons w ws ih =>
    rw [putAll_cons, ih, lookup_put, lastWritten_cons, Option.or_assoc]
    cases w.1.sameKey k <;> rfl

/-- After a sequence of writings the new keys follow the present ones, in the order of their first
writing. -/
theorem map_fst_putAll (e ws : List (Value × Value)) :
    (putAll e ws).map (·.1) =
      List.eraseDupsBy.loop sameKey (ws.map (·.1)) (e.map (·.1)).reverse := by
  induction ws generalizing e with
  | nil => simp [putAll, List.eraseDupsBy.loop]
  | cons w ws ih =>
    have hany : (e.map (·.1)).reverse.any (w.1.sameKey ·) = e.any (·.1.sameKey w.1) := by
      simp only [List.any_reverse, List.any_map, Function.comp_def, sameKey_comm w.1]
    rw [putAll_cons, ih, map_fst_put, List.map_cons, List.eraseDupsBy.loop.eq_2, hany]
    cases e.any (·.1.sameKey w.1) with
    | true => rfl
    | false =>
      rw [if_neg Bool.false_ne_true, List.reverse_append]
      rfl

theorem map_fst_putAll_nil (ws : List (Value × Value)) :
    (putAll [] ws).map (·.1) = firstKeys (ws.map (·.1)) :=
  map_fst_putAll [] ws

end Value

end Schemata
