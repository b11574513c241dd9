import Mathlib.Data.List.Forall2
import Mathlib.Data.List.Pairwise
import Schemata.TypeRef

/-!
# The identity of types

Sameness of references is an equivalence that ignores kinds and handles. References to the same type
have the same schema name and the same text, so a set that keeps the first of several references to
one type loses none of the names it stands for.

The sets of the engine are lists. A set is characterised here by what it contains up to sameness:
`contains_union`, `contains_unionAll` and `contains_foldl_union` say that uniting sets, from either
end, adds nothing and loses nothing.
-/

namespace Schemata

/-! ## Collecting without repetitions -/

section Collecting

variable {α : Type}

theorem mem_of_mem_foldl_unless {skips : List α → α → Bool} {acc xs : List α} {x : α}
    (h : x ∈ xs.foldl (fun acc y ↦ if skips acc y then acc else acc ++ [y]) acc) :
    x ∈ acc ∨ x ∈ xs := by
  induction xs generalizing acc with
  | nil => exact .inl h
  | cons y xs ih =>
    rw [List.foldl_cons] at h
    rcases ih h with hacc | hxs
    · split at hacc
      · exact .inl hacc
      · rcases List.mem_append.mp hacc with hacc | hy
        · exact .inl hacc
        · exact .inr (List.mem_singleton.mp hy ▸ List.mem_cons_self)
    · exact .inr (List.mem_cons_of_mem y hxs)

theorem prefix_foldl_unless (skips : List α → α → Bool) (acc xs : List α) :
    acc <+: xs.foldl (fun acc y ↦ if skips acc y then acc else acc ++ [y]) acc := by
  induction xs generalizing acc with
  | nil => exact List.prefix_refl acc
  | cons y xs ih =>
    rw [List.foldl_cons]
    split
    · exact ih acc
    · exact (List.prefix_append acc [y]).trans (ih (acc ++ [y]))

/-- Elements none of which repeats an earlier one are all collected. -/
theorem foldl_unless_of_pairwise (same : α → α → Bool) (acc xs : List α)
    (h : (acc ++ xs).Pairwise fun x y ↦ same x y = false) :
    xs.foldl (fun acc y ↦ if acc.any (same · y) then acc else acc ++ [y]) acc = acc ++ xs := by
  induction xs generalizing acc with
  | nil => exact (List.append_nil acc).symm
  | cons y xs ih =>
    have hnew : acc.any (same · y) = false := by
      rw [List.any_eq_false]
      intro x hx
      exact Bool.eq_false_iff.mp ((List.pairwise_append.mp h).2.2 x hx y List.mem_cons_self)
    rw [List.append_cons] at h ⊢
    rw [List.foldl_cons, hnew, if_neg Bool.false_ne_true, ih _ h]

end Collecting

namespace TypeRef

variable {σ : Type}

/-! ## Sameness -/

mutual

theorem same_refl : ∀ t : TypeRef σ, same t t = true
  | ⟨_, _, _, gs, _⟩ => by simp [same, sameAll_refl gs]

theorem sameAll_refl : ∀ ts : List (TypeRef σ), sameAll ts ts = true
  | [] => rfl
  | t :: ts => by simp [sameAll, same_refl t, sameAll_refl ts]

end

mutual

theorem same_comm : ∀ t u : TypeRef σ, same t u = same u t
  | ⟨f, s, _, gs, _⟩, ⟨f', s', _, gs', _⟩ => by
    rw [same, same, sameAll_comm gs gs', Bool.beq_comm (a := f), Bool.beq_comm (a := s)]

theorem sameAll_comm : ∀ ts us : List (TypeRef σ), sameAll ts us = sameAll us ts
  | [], [] => rfl
  | [], _ :: _ => rfl
  | _ :: _, [] => rfl
  | t :: ts, u :: us => by rw [sameAll, sameAll, same_comm t u, sameAll_comm ts us]

end

mutual

theorem same_trans : ∀ {t u v : TypeRef σ}, same t u = true → same u v = true → same t v = true
  | ⟨_, _, _, gs, _⟩, ⟨_, _, _, gs', _⟩, ⟨_, _, _, gs'', _⟩, h, h' => by
    simp only [same, Bool.and_eq_true, beq_iff_eq] at h h' ⊢
    exact ⟨⟨h.1.1.trans h'.1.1, h.1.2.trans h'.1.2⟩, sameAll_trans h.2 h'.2⟩

theorem sameAll_trans : ∀ {ts us vs : List (TypeRef σ)},
    sameAll ts us = true → sameAll us vs = true → sameAll ts vs = true
  | [], [], [], _, _ => rfl
  | _ :: _, _ :: _, _ :: _, h, h' => by
    simp only [sameAll, Bool.and_eq_true] at h h' ⊢
    exact ⟨same_trans h.1 h'.1, sameAll_trans h.2 h'.2⟩

end

instance : EquivBEq (TypeRef σ) where
  rfl := same_refl _
  symm h := (same_comm _ _).trans h
  trans := same_trans

mutual

theorem schemaName_eq_of_same : ∀ {t u : TypeRef σ}, same t u = true → t.schemaName = u.schemaName
  | ⟨_, _, _, gs, _⟩, ⟨_, _, _, gs', _⟩, h => by
    simp only [same, Bool.and_eq_true, beq_iff_eq] at h
    rw [schemaName, schemaName, h.1.2, schemaSuffix_eq_of_sameAll h.2]

theorem schemaSuffix_eq_of_sameAll : ∀ {ts us : List (TypeRef σ)},
    sameAll ts us = true → schemaSuffix ts = schemaSuffix us
  | [], [], _ => rfl
  | _ :: _, _ :: _, h => by
    simp only [sameAll, Bool.and_eq_true] at h
    rw [schemaSuffix, schemaSuffix, schemaName_eq_of_same h.1, schemaSuffix_eq_of_sameAll h.2]

end

theorem schemaName_eq_of_beq {t u : TypeRef σ} (h : t == u) : t.schemaName = u.schemaName :=
  schemaName_eq_of_same h

/-! ## Sets -/

theorem contains_of_mem {s : List (TypeRef σ)} {t : TypeRef σ} (h : t ∈ s) : s.contains t :=
  List.contains_iff_exists_mem_beq.mpr ⟨t, h, BEq.rfl⟩

theorem contains_insertNew {s : List (TypeRef σ)} {t u : TypeRef σ} :
    (insertNew s t).contains u = (s.contains u || u == t) := by
  rw [insertNew]
  by_cases ht : s.contains t
  · rw [if_pos ht]
    cases hu : u == t with
    | false => rw [Bool.or_false]
    | true => rw [Bool.or_true, List.contains_congr hu, ht]
  · rw [if_neg ht, List.contains_append, List.contains_cons, List.contains_nil, Bool.or_false]

theorem insertNew_append {s r : List (TypeRef σ)} {t : TypeRef σ} (h : s.contains t = false) :
    insertNew (s ++ r) t = s ++ insertNew r t := by
  rw [insertNew, insertNew, List.contains_append, h, Bool.false_or]
  split
  · rfl
  · rw [List.append_assoc]

theorem contains_union {s r : List (TypeRef σ)} {u : TypeRef σ} :
    (union s r).contains u = (s.contains u || r.contains u) := by
  rw [union]
  induction r generalizing s with
  | nil => simp
  | cons t r ih =>
    rw [List.foldl_cons, ih, contains_insertNew, List.contains_cons, Bool.or_assoc]

theorem mem_union {s r : List (TypeRef σ)} {u : TypeRef σ} (h : u ∈ union s r) : u ∈ s ∨ u ∈ r :=
  mem_of_mem_foldl_unless h

/-- The union of several sets. -/
def unionAll (sets : List (List (TypeRef σ))) : List (TypeRef σ) := sets.foldr union []

@[simp] theorem unionAll_nil : unionAll ([] : List (List (TypeRef σ))) = [] := rfl

@[simp] theorem unionAll_cons (s : List (TypeRef σ)) (sets : List (List (TypeRef σ))) :
    unionAll (s :: sets) = union s (unionAll sets) := rfl

theorem contains_unionAll {sets : List (List (TypeRef σ))} {u : TypeRef σ} :
    (unionAll sets).contains u = sets.any (·.contains u) := by
  induction sets with
  | nil => rfl
  | cons s sets ih => rw [unionAll_cons, contains_union, ih, List.any_cons]

theorem mem_unionAll {sets : List (List (TypeRef σ))} {u : TypeRef σ} (h : u ∈ unionAll sets) :
    ∃ s ∈ sets, u ∈ s := by
  induction sets with
  | nil => exact absurd h List.not_mem_nil
  | cons s sets ih =>
    rcases mem_union h with h | h
    · exact ⟨s, List.mem_cons_self, h⟩
    · obtain ⟨r, hr, hu⟩ := ih h
      exact ⟨r, List.mem_cons_of_mem s hr, hu⟩

theorem mem_foldl_union {sets : List (List (TypeRef σ))} {s : List (TypeRef σ)} {u : TypeRef σ}
    (h : u ∈ sets.foldl union s) : u ∈ s ∨ ∃ r ∈ sets, u ∈ r := by
  induction sets generalizing s with
  | nil => exact .inl h
  | cons r sets ih =>
    rcases ih h with h | ⟨r', hr', hu⟩
    · exact (mem_union h).imp_right fun hu ↦ ⟨r, List.mem_cons_self, hu⟩
    · exact .inr ⟨r', List.mem_cons_of_mem r hr', hu⟩

theorem contains_foldl_union {sets : List (List (TypeRef σ))} {s : List (TypeRef σ)}
    {u : TypeRef σ} :
    (sets.foldl union s).contains u = (s.contains u || sets.any (·.contains u)) := by
  induction sets generalizing s with
  | nil => simp
  | cons r sets ih =>
    rw [List.foldl_cons, ih, contains_union, List.any_cons, Bool.or_assoc]

/-! ## Order and number of members -/

/-- No two members are the same type. -/
def Distinct (s : List (TypeRef σ)) : Prop := s.Pairwise fun t u ↦ (t == u) = false

theorem Distinct.cons {s : List (TypeRef σ)} {t : TypeRef σ} (h : Distinct s)
    (ht : s.contains t = false) : Distinct (t :: s) := by
  refine List.pairwise_cons.mpr ⟨fun u hu ↦ ?_, h⟩
  by_contra htu
  have hcontains : s.contains t :=
    List.contains_iff_exists_mem_beq.mpr ⟨u, hu, eq_true_of_ne_false htu⟩
  rw [ht] at hcontains
  exact Bool.false_ne_true hcontains

theorem Distinct.beq_eq_false {s : List (TypeRef σ)} {t u : TypeRef σ} (h : Distinct s)
    (ht : t ∈ s) (hu : u ∈ s) (hne : t ≠ u) : (t == u) = false := by
  have hsymm : Std.Symm fun t u : TypeRef σ ↦ (t == u) = false := ⟨fun v w h ↦ by rwa [BEq.comm]⟩
  exact List.Pairwise.forall h ht hu hne

theorem prefix_union (s r : List (TypeRef σ)) : s <+: union s r :=
  prefix_foldl_unless List.contains s r

theorem Distinct.insertNew {s : List (TypeRef σ)} (h : Distinct s) (t : TypeRef σ) :
    Distinct (insertNew s t) := by
  rw [TypeRef.insertNew]
  by_cases ht : s.contains t
  · rw [if_pos ht]
    exact h
  · rw [if_neg ht]
    refine List.pairwise_append.mpr ⟨h, List.pairwise_singleton _ t, fun u hu v hv ↦ ?_⟩
    rw [List.mem_singleton.mp hv]
    refine Bool.eq_false_iff.mpr fun hut ↦ ht ?_
    exact List.contains_iff_exists_mem_beq.mpr ⟨u, hu, BEq.symm hut⟩

theorem Distinct.union {s : List (TypeRef σ)} (h : Distinct s) (r : List (TypeRef σ)) :
    Distinct (union s r) := by
  rw [TypeRef.union]
  induction r generalizing s with
  | nil => exact h
  | cons t r ih => exact ih (h.insertNew t)

theorem Distinct.length_le {s r : List (TypeRef σ)} (h : Distinct s)
    (hr : ∀ t ∈ s, r.contains t) : s.length ≤ r.length := by
  induction s generalizing r with
  | nil => exact Nat.zero_le _
  | cons t s ih =>
    obtain ⟨ht, hs⟩ := List.pairwise_cons.mp h
    obtain ⟨u, hu, htu⟩ := List.contains_iff_exists_mem_beq.mp (hr t List.mem_cons_self)
    -- what `r` holds for `t` it holds for no other member, so it may be dropped
    have hrest : ∀ v ∈ s, (r.filter fun w ↦ !(t == w)).contains v := by
      intro v hv
      obtain ⟨w, hw, hvw⟩ := List.contains_iff_exists_mem_beq.mp
        (hr v (List.mem_cons_of_mem t hv))
      refine List.contains_iff_exists_mem_beq.mpr ⟨w, List.mem_filter.mpr ⟨hw, ?_⟩, hvw⟩
      rw [Bool.not_eq_true', Bool.eq_false_iff]
      intro htw
      exact absurd (BEq.trans htw (BEq.symm hvw)) (by rw [ht v hv]; exact Bool.false_ne_true)
    have hlt : (r.filter fun w ↦ !(t == w)).length < r.length := by
      refine List.length_filter_lt_length_iff_exists.mpr ⟨u, hu, ?_⟩
      rw [htu]
      exact Bool.false_ne_true
    exact Nat.lt_of_le_of_lt (ih hs hrest) hlt

/-! ## Names of sets -/

/-- A member of the set has the schema name. -/
def Named (s : List (TypeRef σ)) (name : String) : Prop := ∃ t ∈ s, t.schemaName = name

theorem named_iff_contains {s : List (TypeRef σ)} {name : String} :
    Named s name ↔ ∃ t, s.contains t ∧ t.schemaName = name := by
  constructor
  · rintro ⟨t, ht, hname⟩
    exact ⟨t, contains_of_mem ht, hname⟩
  · rintro ⟨t, ht, hname⟩
    obtain ⟨u, hu, htu⟩ := List.contains_iff_exists_mem_beq.mp ht
    exact ⟨u, hu, (schemaName_eq_of_beq htu).symm.trans hname⟩

theorem named_union {s r : List (TypeRef σ)} {name : String} :
    Named (union s r) name ↔ Named s name ∨ Named r name := by
  simp only [named_iff_contains, contains_union, Bool.or_eq_true, or_and_right, exists_or]

theorem named_unionAll {sets : List (List (TypeRef σ))} {name : String} :
    Named (unionAll sets) name ↔ ∃ s ∈ sets, Named s name := by
  induction sets with
  | nil => simp [Named]
  | cons s sets ih => rw [unionAll_cons, named_union, ih, List.exists_mem_cons_iff]

theorem named_foldl_union {sets : List (List (TypeRef σ))} {s : List (TypeRef σ)}
    {name : String} :
    Named (sets.foldl union s) name ↔ Named s name ∨ ∃ r ∈ sets, Named r name := by
  induction sets generalizing s with
  | nil => simp
  | cons r sets ih => rw [List.foldl_cons, ih, named_union, List.exists_mem_cons_iff, or_assoc]

theorem eq_nil_of_contains {s : List (TypeRef σ)} (h : ∀ u, s.contains u = false) : s = [] := by
  cases s with
  | nil => rfl
  | cons t s => exact absurd (contains_of_mem List.mem_cons_self) (by rw [h t]; simp)

theorem eq_nil_of_unionAll {sets : List (List (TypeRef σ))} (h : unionAll sets = [])
    {s : List (TypeRef σ)} (hs : s ∈ sets) : s = [] := by
  refine eq_nil_of_contains fun u ↦ Bool.eq_false_iff.mpr fun hu ↦ ?_
  have hany : (unionAll sets).contains u := by
    rw [contains_unionAll]
    exact List.any_eq_true.mpr ⟨s, hs, hu⟩
  rw [h] at hany
  exact Bool.false_ne_true hany

theorem eq_nil_of_foldl_union {sets : List (List (TypeRef σ))} (h : sets.foldl union [] = [])
    {s : List (TypeRef σ)} (hs : s ∈ sets) : s = [] := by
  refine eq_nil_of_contains fun u ↦ Bool.eq_false_iff.mpr fun hu ↦ ?_
  have hany : (sets.foldl union []).contains u := by
    rw [contains_foldl_union, List.contains_nil, Bool.false_or]
    exact List.any_eq_true.mpr ⟨s, hs, hu⟩
  rw [h] at hany
  exact Bool.false_ne_true hany

end TypeRef

end Schemata
