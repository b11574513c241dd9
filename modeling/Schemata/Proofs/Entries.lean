import Mathlib.Data.List.Forall2
import Schemata.Extension
import Schemata.Proofs.Outcome

/-!
# Entries

Schemas are ordered mappings, and only two operations ever change one: setting a key and merging
metadata, which sets keys one after the other. Setting a key leaves every other key where it is; a
key that is present keeps its place, and a new one goes to the end. A string is the same key as no
value but itself, so what is said about string keys can be said with equality.

Null metadata is never merged. `Extension.Avoids` therefore speaks of entries that are not null.
-/

namespace Schemata

namespace Value

variable {a : String} {k v w : Value} {e e' : List (Value × Value)}

/-! ## String keys -/

theorem sameKey_str_left : (str a).sameKey k = true ↔ k = str a := by
  cases k with
  | str s => exact beq_iff_eq.trans (eq_comm.trans (str.injEq s a ▸ Iff.rfl))
  | _ => simp [sameKey, quantity?]

theorem sameKey_str_right : k.sameKey (str a) = true ↔ k = str a := by
  cases k <;> simp [sameKey, quantity?]

theorem hasKey_append_str (e : List (Value × Value)) (a b : String) (v : Value) :
    hasKey (e ++ [(str a, v)]) (str b) = (hasKey e (str b) || a == b) := by
  induction e with
  | nil =>
    rw [List.nil_append, hasKey, lookup, lookup]
    change (if a == b then some v else none).isSome = (false || a == b)
    cases a == b <;> rfl
  | cons x e ih =>
    rw [hasKey, hasKey, List.cons_append, lookup, lookup]
    split
    · rfl
    · exact ih

/-! ## Setting a key -/

theorem mem_put_str (h : k ≠ str a) : (str a, w) ∈ put e k v ↔ (str a, w) ∈ e := by
  have hnew : ∀ u, ¬ (str a, w) = (k, u) := fun u hu ↦ h (congrArg Prod.fst hu).symm
  induction e with
  | nil => simp [put, hnew]
  | cons x e ih =>
    rw [put]
    by_cases hx : x.1.sameKey k
    · have hxa : ∀ u, ¬ (str a, w) = (x.1, u) := by
        intro u hu
        rw [← (Prod.mk.inj hu).1] at hx
        exact h (sameKey_str_left.mp hx)
      rw [if_pos hx, List.mem_cons, List.mem_cons]
      exact or_congr_left (iff_of_false (hxa v) (hxa x.2))
    · rw [if_neg hx, List.mem_cons, List.mem_cons]
      exact or_congr_right ih

theorem put_eq_append (h : ∀ x ∈ e, x.1.sameKey k = false) : put e k v = e ++ [(k, v)] := by
  induction e with
  | nil => rfl
  | cons x e ih =>
    obtain ⟨hx, he⟩ := List.forall_mem_cons.mp h
    rw [put, if_neg (by rw [hx]; exact Bool.false_ne_true), ih he]
    rfl

theorem put_str_eq_append (h : ∀ w, (str a, w) ∉ e) : put e (str a) v = e ++ [(str a, v)] := by
  refine put_eq_append fun x hx ↦ Bool.eq_false_iff.mpr fun hkey ↦ h x.2 ?_
  rwa [← show x = (str a, x.2) from Prod.ext (sameKey_str_right.mp hkey) rfl]

/-- Setting the same key on both sides of an entrywise relation. -/
theorem forall₂_put {R : Value × Value → Value × Value → Prop}
    (hkey : ∀ x y, R x y → x.1 = y.1) (he : List.Forall₂ R e e')
    (hk : ∀ k', k' = k ∨ k'.sameKey k → R (k', v) (k', w)) :
    List.Forall₂ R (put e k v) (put e' k w) := by
  induction he with
  | nil => exact .cons (hk k (.inl rfl)) .nil
  | @cons x y e e' hxy he ih =>
    rw [put, put, ← hkey x y hxy]
    by_cases hx : x.1.sameKey k
    · rw [if_pos hx, if_pos hx]
      exact .cons (hk x.1 (.inr hx)) he
    · rw [if_neg hx, if_neg hx]
      refine .cons ?_ ih
      rwa [show (x.1, y.2) = y from Prod.ext (hkey x y hxy) rfl]

/-! ## Different keys -/

/-- No key is the same as a later one. -/
def Distinct (e : List (Value × Value)) : Prop := e.Pairwise fun x y ↦ x.1.sameKey y.1 = false

theorem mem_put (h : w ∈ (put e k v).map (·.1)) : w ∈ e.map (·.1) ∨ w = k := by
  induction e with
  | nil => exact .inr (List.mem_singleton.mp h)
  | cons x e ih =>
    rw [put] at h
    split at h
    · exact .inl h
    · rcases List.mem_cons.mp h with rfl | h
      · exact .inl List.mem_cons_self
      · exact (ih h).imp_left (List.mem_cons_of_mem _)

theorem Distinct.put (h : Distinct e) : Distinct (put e k v) := by
  induction e with
  | nil => exact List.pairwise_singleton _ _
  | cons x e ih =>
    obtain ⟨hx, he⟩ := List.pairwise_cons.mp h
    rw [Value.put]
    by_cases hk : x.1.sameKey k
    · rw [if_pos hk]
      exact List.pairwise_cons.mpr ⟨hx, he⟩
    · rw [if_neg hk]
      refine List.pairwise_cons.mpr ⟨fun y hy ↦ ?_, ih he⟩
      rcases mem_put (List.mem_map_of_mem hy) with hy | hy
      · obtain ⟨z, hz, hzy⟩ := List.mem_map.mp hy
        rw [← hzy]
        exact hx z hz
      · rw [hy]
        exact Bool.eq_false_iff.mpr hk

theorem putAll_eq_append (h : Distinct (e ++ e')) : putAll e e' = e ++ e' := by
  induction e' generalizing e with
  | nil => exact (List.append_nil e).symm
  | cons x e' ih =>
    have hput : put e x.1 x.2 = e ++ [x] :=
      put_eq_append fun y hy ↦ (List.pairwise_append.mp h).2.2 y hy x List.mem_cons_self
    rw [List.append_cons] at h ⊢
    rw [← ih h, ← hput]
    rfl

end Value

namespace Extension

variable {σ : Type} {e extra : Entries}

/-! ## Merging metadata -/

/-- Metadata that sets none of the keys. -/
def Avoids (keys : List String) (extra : Entries) : Prop :=
  ∀ key ∈ keys, ∀ v, (.str key, v) ∈ extra → v = .null

theorem merge_cons (e : Entries) (x : Value × Value) (extra : Entries) :
    merge e (x :: extra) = merge (mergeEntry e x) extra := rfl

/-- What metadata adds to a schema that has none of its keys. -/
def added : Entries → Entries
  | [] => []
  | (_, .null) :: extra => added extra
  | (k, v) :: extra => (k, entryForm v) :: added extra

theorem mergeEntry_of_ne_null {x : Value × Value} (h : x.2 ≠ .null) (e : Entries) :
    mergeEntry e x = Value.put e x.1 (entryForm x.2) := by
  unfold mergeEntry
  split
  · exact absurd (by assumption) h
  · rfl

theorem added_of_ne_null {x : Value × Value} (h : x.2 ≠ .null) (extra : Entries) :
    added (x :: extra) = (x.1, entryForm x.2) :: added extra := by
  obtain ⟨k, v⟩ := x
  cases v with
  | null => exact absurd rfl h
  | _ => rfl

theorem mem_merge_str {keys : List String} {key : String} {w : Value} (h : Avoids keys extra)
    (hkey : key ∈ keys) : (.str key, w) ∈ merge e extra ↔ (.str key, w) ∈ e := by
  induction extra generalizing e with
  | nil => rfl
  | cons x extra ih =>
    have hextra : Avoids keys extra := fun k hk v hv ↦ h k hk v (List.mem_cons_of_mem x hv)
    rw [merge_cons, ih hextra]
    obtain ⟨k, v⟩ := x
    by_cases hnull : v = .null
    · rw [hnull]
      rfl
    · rw [mergeEntry_of_ne_null hnull]
      refine Value.mem_put_str fun hk ↦ hnull (h key hkey v ?_)
      rw [← show k = .str key from hk]
      exact List.mem_cons_self

theorem distinct_merge (h : Value.Distinct e) (extra : Entries) :
    Value.Distinct (merge e extra) := by
  induction extra generalizing e with
  | nil => exact h
  | cons x extra ih =>
    obtain ⟨k, v⟩ := x
    by_cases hnull : v = .null
    · rw [hnull]
      exact ih h
    · rw [merge_cons, mergeEntry_of_ne_null hnull]
      exact ih h.put

theorem putAll_added (e extra : Entries) : Value.putAll e (added extra) = merge e extra := by
  induction extra generalizing e with
  | nil => rfl
  | cons x extra ih =>
    obtain ⟨k, v⟩ := x
    by_cases hnull : v = .null
    · rw [hnull]
      exact ih e
    · rw [added_of_ne_null hnull, merge_cons, mergeEntry_of_ne_null hnull, ← ih]
      rfl

theorem merge_eq_append (hdistinct : Value.Distinct extra)
    (he : ∀ x ∈ e, ∀ y ∈ extra, y.2 ≠ .null → x.1.sameKey y.1 = false) :
    merge e extra = e ++ added extra := by
  induction extra generalizing e with
  | nil => exact (List.append_nil e).symm
  | cons x extra ih =>
    obtain ⟨hx, hextra⟩ := List.pairwise_cons.mp hdistinct
    have htail : ∀ z ∈ e, ∀ y ∈ extra, y.2 ≠ .null → z.1.sameKey y.1 = false :=
      fun z hz y hy ↦ he z hz y (List.mem_cons_of_mem x hy)
    obtain ⟨k, v⟩ := x
    by_cases hnull : v = .null
    · rw [hnull]
      exact ih hextra htail
    · have hput : Value.put e k (entryForm v) = e ++ [(k, entryForm v)] :=
        Value.put_eq_append fun z hz ↦ he z hz (k, v) List.mem_cons_self hnull
      rw [merge_cons, mergeEntry_of_ne_null hnull, added_of_ne_null hnull, hput, ih hextra,
        List.append_assoc]
      · rfl
      · intro z hz y hy hy'
        rcases List.mem_append.mp hz with hz | hz
        · exact htail z hz y hy hy'
        · rw [List.mem_singleton.mp hz]
          exact hx y hy

/-! ## Collected metadata -/

theorem distinct_withExample (tags : List (Tag σ)) : Value.Distinct (withExample tags) :=
  List.pairwise_singleton _ _

theorem distinct_addNamed {a : Tag σ} (h : Value.Distinct extra) {result : Entries}
    (hresult : addNamed extra a = .ok result) : Value.Distinct result := by
  unfold addNamed at hresult
  split at hresult
  · split at hresult
    · rw [← Except.ok.inj hresult]
      exact h.put
    · exact nomatch hresult
  · rw [← Except.ok.inj hresult]
    exact h

theorem distinct_addAttribute {element tag : String} {entry : String × TagValue σ}
    {result : Entries} (h : Value.Distinct extra)
    (hresult : (addAttribute element tag extra entry).Returns result) :
    Value.Distinct result := by
  unfold addAttribute at hresult
  split at hresult
  · obtain ⟨-, -, hresult⟩ := Traced.returns_bind.mp hresult
    rw [← Traced.returns_pure.mp hresult]
    exact h.put
  · exact nomatch hresult
  · exact nomatch hresult

theorem distinct_addCustom {element : String} {a : Tag σ} {result : Entries}
    (h : Value.Distinct extra) (hresult : (addCustom element extra a).Returns result) :
    Value.Distinct result := by
  unfold addCustom at hresult
  split at hresult
  · obtain ⟨-, -, hresult⟩ := Traced.returns_bind.mp hresult
    exact hresult.foldlM_induction (motive := Value.Distinct)
      (fun _ _ _ hb hc ↦ distinct_addAttribute hb hc) h
  · rw [← Traced.returns_pure.mp hresult]
    exact h

theorem distinct_collect {tags : List (Tag σ)} {element : String}
    (h : (collect tags element).Returns extra) : Value.Distinct extra := by
  obtain ⟨named, hnamed, h⟩ := Traced.returns_bind.mp h
  have hdistinct : Value.Distinct named :=
    foldlM_induction (motive := Value.Distinct) (fun _ _ _ hb hc ↦ distinct_addNamed hb hc)
      (distinct_withExample tags) (Traced.returns_ofExcept.mp hnamed)
  exact h.foldlM_induction (motive := Value.Distinct)
    (fun _ _ _ hb hc ↦ distinct_addCustom hb hc) hdistinct

end Extension

end Schemata
