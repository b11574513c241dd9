import Schemata.Proofs.Positions

/-!
# Dereferencing

To dereference a schema is to replace every reference at a schema position by the schema it stands
for, dereferenced in turn, and to set the entries that stand beside the reference on top of it. What
a reference stands for is a relation here, `resolves`, so that nothing is assumed about names; when
it is a function, dereferencing is one too (`Dereferences.unique`).

References may lead in circles, so the replacement is bounded by a depth. A greater depth gives the
same result.
-/

namespace Schemata

/-! ## Related schemas -/

section Related

variable (R : Entries → Entries → Prop)

/-- The values are related schemas, or equal data. -/
def SchemaRel : Value → Value → Prop
  | .map e, w => ∃ e', w = .map e' ∧ R e e'
  | v, w => w = v

/-- The named values are related one by one. -/
def NamedRel (entries entries' : Entries) : Prop :=
  List.Forall₂ (fun x y ↦ x.1 = y.1 ∧ SchemaRel R x.2 y.2) entries entries'

/-- The schemas in the values are related at this position; the rest is equal. -/
def Position.Rel : Position → Value → Value → Prop
  | one, v, w => SchemaRel R v w
  | named, .map entries, w => ∃ entries', w = .map entries' ∧ NamedRel R entries entries'
  | several, .list items, w => ∃ items', w = .list items' ∧ List.Forall₂ (SchemaRel R) items items'
  | _, v, w => w = v

/-- The position under a key of an entry, if schemas stand there. -/
def Position.at? : Value → Option Position
  | .str key => ofKey? key
  | _ => none

/-- The entries have one key, and their values are related as its position asks, or equal. -/
def EntryRel (x y : Value × Value) : Prop :=
  x.1 = y.1 ∧
    match Position.at? x.1 with
    | some p => p.Rel R x.2 y.2
    | none => y.2 = x.2

end Related

section Related

variable {R S : Entries → Entries → Prop} {v w : Value}

theorem SchemaRel.mono (hRS : ∀ e e', R e e' → S e e') (h : SchemaRel R v w) : SchemaRel S v w := by
  cases v with
  | map e =>
    obtain ⟨e', hw, h⟩ := h
    exact ⟨e', hw, hRS e e' h⟩
  | _ => exact h

theorem Position.Rel.mono {p : Position} (hRS : ∀ e e', R e e' → S e e') (h : p.Rel R v w) :
    p.Rel S v w := by
  cases p with
  | one => exact SchemaRel.mono hRS h
  | named =>
    cases v with
    | map entries =>
      obtain ⟨entries', hw, h⟩ := h
      exact ⟨entries', hw, h.imp fun _ _ hxy ↦ ⟨hxy.1, hxy.2.mono hRS⟩⟩
    | _ => exact h
  | several =>
    cases v with
    | list items =>
      obtain ⟨items', hw, h⟩ := h
      exact ⟨items', hw, h.imp fun _ _ hxy ↦ hxy.mono hRS⟩
    | _ => exact h

theorem EntryRel.mono {x y : Value × Value} (hRS : ∀ e e', R e e' → S e e') (h : EntryRel R x y) :
    EntryRel S x y := by
  obtain ⟨hkey, h⟩ := h
  refine ⟨hkey, ?_⟩
  cases hp : Position.at? x.1 with
  | some p =>
    rw [hp] at h
    exact h.mono hRS
  | none =>
    rw [hp] at h
    exact h

theorem entryRel_of_position {k v v' : Value} {p : Position} (hp : Position.at? k = some p)
    (h : p.Rel R v v') : EntryRel R (k, v) (k, v') := by
  refine ⟨rfl, ?_⟩
  rw [hp]
  exact h

theorem entryRel_of_free {k : Value} (h : Free k) (v : Value) : EntryRel R (k, v) (k, v) := by
  refine ⟨rfl, ?_⟩
  have hk : Position.at? k = none := by
    cases k with
    | str key =>
      by_contra hkey
      exact h key (Position.mem_reservedKeys hkey) rfl
    | _ => rfl
  rw [hk]

/-! ### Relations that are functions -/

theorem SchemaRel.unique (hR : Relator.RightUnique R) : Relator.RightUnique (SchemaRel R) := by
  intro v a b ha hb
  cases v with
  | map e =>
    obtain ⟨e₁, rfl, h₁⟩ := ha
    obtain ⟨e₂, rfl, h₂⟩ := hb
    rw [hR h₁ h₂]
  | _ => exact Eq.trans ha (Eq.symm hb)

theorem Position.Rel.unique (hR : Relator.RightUnique R) (p : Position) :
    Relator.RightUnique (p.Rel R) := by
  intro v a b ha hb
  cases p with
  | one => exact SchemaRel.unique hR ha hb
  | named =>
    cases v with
    | map entries =>
      obtain ⟨e₁, rfl, h₁⟩ := ha
      obtain ⟨e₂, rfl, h₂⟩ := hb
      refine congrArg _ (List.right_unique_forall₂' ?_ h₁ h₂)
      intro x y z hy hz
      exact Prod.ext (hy.1.symm.trans hz.1) (SchemaRel.unique hR hy.2 hz.2)
    | _ => exact Eq.trans ha (Eq.symm hb)
  | several =>
    cases v with
    | list items =>
      obtain ⟨e₁, rfl, h₁⟩ := ha
      obtain ⟨e₂, rfl, h₂⟩ := hb
      exact congrArg _ (List.right_unique_forall₂' (SchemaRel.unique hR) h₁ h₂)
    | _ => exact Eq.trans ha (Eq.symm hb)

theorem EntryRel.unique (hR : Relator.RightUnique R) : Relator.RightUnique (EntryRel R) := by
  rintro x y z ⟨hxy, hy⟩ ⟨hxz, hz⟩
  refine Prod.ext (hxy.symm.trans hxz) ?_
  cases hp : Position.at? x.1 with
  | some p =>
    rw [hp] at hy hz
    exact Position.Rel.unique hR p hy hz
  | none =>
    rw [hp] at hy hz
    exact hy.trans hz.symm

end Related

/-! ## Replacing references -/

/-- What a schema refers to and the entries beside the reference, if it is one. -/
def reference? : Entries → Option (String × Entries)
  | (.str key, .str s) :: siblings => if key = "$ref" then some (s, siblings) else none
  | _ => none

/-- The second schema is the first one dereferenced, by replacements nested less than `depth`. -/
def Dereferences (resolves : String → Entries → Prop) : Nat → Entries → Entries → Prop
  | 0, _, _ => False
  | depth + 1, e, result =>
    match reference? e with
    | some (s, siblings) =>
      ∃ target whole, resolves s target ∧ Dereferences resolves depth target whole ∧
        result = Value.putAll whole siblings
    | none => List.Forall₂ (EntryRel (Dereferences resolves depth)) e result

section Dereferences

variable {resolves : String → Entries → Prop} {depth : Nat} {e result : Entries}

theorem dereferences_of_some {s : String} {siblings : Entries}
    (h : reference? e = some (s, siblings)) :
    Dereferences resolves (depth + 1) e result ↔ ∃ target whole, resolves s target ∧
      Dereferences resolves depth target whole ∧ result = Value.putAll whole siblings := by
  rw [Dereferences, h]

theorem dereferences_of_none (h : reference? e = none) :
    Dereferences resolves (depth + 1) e result ↔
      List.Forall₂ (EntryRel (Dereferences resolves depth)) e result := by
  rw [Dereferences, h]

theorem Dereferences.succ (h : Dereferences resolves depth e result) :
    Dereferences resolves (depth + 1) e result := by
  induction depth generalizing e result with
  | zero => exact absurd h id
  | succ depth ih =>
    cases hr : reference? e with
    | some r =>
      obtain ⟨target, whole, hs, hwhole, hresult⟩ := (dereferences_of_some hr).mp h
      exact (dereferences_of_some hr).mpr ⟨target, whole, hs, ih hwhole, hresult⟩
    | none =>
      refine (dereferences_of_none hr).mpr ?_
      exact ((dereferences_of_none hr).mp h).imp fun _ _ hxy ↦ hxy.mono fun _ _ ↦ ih

theorem Dereferences.mono {depth' : Nat} (hle : depth ≤ depth')
    (h : Dereferences resolves depth e result) : Dereferences resolves depth' e result := by
  induction hle with
  | refl => exact h
  | step _ ih => exact ih.succ

theorem rightUnique_dereferences (hresolves : Relator.RightUnique resolves) :
    Relator.RightUnique (Dereferences resolves depth) := by
  induction depth with
  | zero => exact fun _ _ _ h ↦ absurd h id
  | succ depth ih =>
    intro e a b ha hb
    cases hr : reference? e with
    | some r =>
      obtain ⟨target, whole, hs, hwhole, rfl⟩ := (dereferences_of_some hr).mp ha
      obtain ⟨target', whole', hs', hwhole', rfl⟩ := (dereferences_of_some hr).mp hb
      obtain rfl := hresolves hs hs'
      rw [ih hwhole hwhole']
    | none =>
      exact List.right_unique_forall₂' (EntryRel.unique ih) ((dereferences_of_none hr).mp ha)
        ((dereferences_of_none hr).mp hb)

theorem Dereferences.unique (hresolves : Relator.RightUnique resolves) {depth' : Nat}
    {result' : Entries} (h : Dereferences resolves depth e result)
    (h' : Dereferences resolves depth' e result') : result = result' :=
  rightUnique_dereferences hresolves (h.mono (Nat.le_max_left depth depth'))
    (h'.mono (Nat.le_max_right depth depth'))

end Dereferences

/-! ## Data and metadata -/

section Flat

variable {e e' extra : Entries} {k v : Value}

/-- The schema contains no reference and no schemas. -/
structure Flat (e : Entries) : Prop where
  reference : reference? e = none
  entries : ∀ R, List.Forall₂ (EntryRel R) e e

theorem reference?_eq_some {s : String} {siblings : Entries}
    (h : reference? e = some (s, siblings)) : e = (.str "$ref", .str s) :: siblings := by
  unfold reference? at h
  split at h
  next key s' rest =>
    split at h
    next hkey =>
      obtain ⟨rfl, rfl⟩ := Prod.mk.inj (Option.some.inj h)
      rw [hkey]
    · exact nomatch h
  · exact nomatch h

theorem reference?_cons_of_ne (h : k ≠ .str "$ref") : reference? ((k, v) :: e) = none := by
  cases hr : reference? ((k, v) :: e) with
  | none => rfl
  | some r =>
    obtain ⟨hx, -⟩ := List.cons.inj (reference?_eq_some hr)
    exact absurd (Prod.mk.inj hx).1 h

theorem reference?_put (h : reference? e = none) (hk : k ≠ .str "$ref") :
    reference? (Value.put e k v) = none := by
  cases e with
  | nil => exact reference?_cons_of_ne hk
  | cons x e =>
    rw [Value.put]
    by_cases hx : x.1.sameKey k
    · rw [if_pos hx]
      refine reference?_cons_of_ne fun hkey ↦ hk ?_
      rw [hkey] at hx
      exact Value.sameKey_str_left.mp hx
    · rw [if_neg hx]
      cases hr : reference? (x :: Value.put e k v) with
      | none => rfl
      | some r =>
        obtain ⟨rfl, -⟩ := List.cons.inj (reference?_eq_some hr)
        exact absurd h (by simp [reference?])

theorem forall₂_put_of_free {R : Entries → Entries → Prop} (hk : Free k)
    (h : List.Forall₂ (EntryRel R) e e') :
    List.Forall₂ (EntryRel R) (Value.put e k v) (Value.put e' k v) :=
  Value.forall₂_put (fun _ _ hxy ↦ hxy.1) h fun _ hk' ↦ entryRel_of_free (hk.of_sameKey hk') v

/-- What setting a free key on both sides keeps, merging metadata that avoids the reserved keys
keeps. -/
theorem merge_induction {motive : Entries → Entries → Prop}
    (havoid : Extension.Avoids reservedKeys extra)
    (hput : ∀ e e' k v, Free k → motive e e' → motive (Value.put e k v) (Value.put e' k v))
    (h : motive e e') : motive (Extension.merge e extra) (Extension.merge e' extra) := by
  induction extra generalizing e e' with
  | nil => exact h
  | cons x extra ih =>
    have hextra : Extension.Avoids reservedKeys extra :=
      fun k hk v hv ↦ havoid k hk v (List.mem_cons_of_mem x hv)
    rw [Extension.merge_cons, Extension.merge_cons]
    obtain ⟨k, v⟩ := x
    by_cases hnull : v = .null
    · rw [hnull]
      exact ih hextra h
    · rw [Extension.mergeEntry_of_ne_null hnull, Extension.mergeEntry_of_ne_null hnull]
      refine ih hextra (hput e e' k _ ?_ h)
      rintro key hkey rfl
      exact hnull (havoid key hkey v List.mem_cons_self)

theorem forall₂_merge {R : Entries → Entries → Prop}
    (havoid : Extension.Avoids reservedKeys extra) (h : List.Forall₂ (EntryRel R) e e') :
    List.Forall₂ (EntryRel R) (Extension.merge e extra) (Extension.merge e' extra) :=
  merge_induction (motive := List.Forall₂ (EntryRel R)) havoid
    (fun _ _ _ _ hk he ↦ forall₂_put_of_free hk he) h

theorem reference?_merge (havoid : Extension.Avoids reservedKeys extra)
    (h : reference? e = none) : reference? (Extension.merge e extra) = none :=
  @merge_induction e e extra (fun e _ ↦ reference? e = none) havoid
    (fun _ _ _ _ hk he ↦ reference?_put he (hk "$ref" (by decide))) h

theorem Flat.merge (havoid : Extension.Avoids reservedKeys extra) (h : Flat e) :
    Flat (Extension.merge e extra) where
  reference := reference?_merge havoid h.reference
  entries R := forall₂_merge havoid (h.entries R)

theorem flat_of_free (h : ∀ x ∈ e, Free x.1) : Flat e := by
  refine ⟨?_, fun R ↦ List.forall₂_same.mpr fun x hx ↦ entryRel_of_free (h x hx) x.2⟩
  cases e with
  | nil => rfl
  | cons x e => exact reference?_cons_of_ne (h x List.mem_cons_self "$ref" (by decide))

theorem Flat.dereferences {resolves : String → Entries → Prop} (h : Flat e) :
    Dereferences resolves 1 e e :=
  (dereferences_of_none h.reference).mpr (h.entries _)

end Flat

/-! ## Metadata on top -/

section Metadata

variable {resolves : String → Entries → Prop} {depth : Nat} {e e' extra : Entries}

/-- If the schema is a reference, nothing stands beside it. -/
def Bare (e : Entries) : Prop := ∀ s siblings, reference? e = some (s, siblings) → siblings = []

theorem bare_of_none (h : reference? e = none) : Bare e :=
  fun s siblings hs ↦ absurd (h.symm.trans hs) (by simp)

theorem merge_reference (hdistinct : Value.Distinct extra)
    (havoid : Extension.Avoids reservedKeys extra) (s : String) :
    Extension.merge [(.str "$ref", .str s)] extra =
      (.str "$ref", .str s) :: Extension.added extra := by
  refine Extension.merge_eq_append hdistinct fun x hx y hy hnull ↦ Bool.eq_false_iff.mpr ?_
  rw [List.mem_singleton.mp hx]
  intro hkey
  obtain ⟨k, v⟩ := y
  obtain rfl := Value.sameKey_str_left.mp hkey
  exact hnull (havoid "$ref" (by decide) v hy)

/-- Metadata merged next to a reference comes out as metadata merged into what the reference stands
for. -/
theorem Dereferences.merge (hdistinct : Value.Distinct extra)
    (havoid : Extension.Avoids reservedKeys extra) (hbare : Bare e)
    (h : Dereferences resolves depth e e') :
    Dereferences resolves depth (Extension.merge e extra) (Extension.merge e' extra) := by
  cases depth with
  | zero => exact absurd h id
  | succ depth =>
    cases hr : reference? e with
    | some r =>
      obtain ⟨s, siblings⟩ := r
      obtain rfl := hbare s siblings hr
      obtain ⟨target, whole, hs, hwhole, hwhole'⟩ := (dereferences_of_some hr).mp h
      rw [reference?_eq_some hr, merge_reference hdistinct havoid]
      refine (dereferences_of_some rfl).mpr ⟨target, whole, hs, hwhole, ?_⟩
      rw [Extension.putAll_added, hwhole']
      rfl
    | none =>
      refine (dereferences_of_none (reference?_merge havoid hr)).mpr ?_
      exact forall₂_merge havoid ((dereferences_of_none hr).mp h)

end Metadata

end Schemata
