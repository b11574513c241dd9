import Schemata.Classes.Reference
import Schemata.Proofs.Identity
import Schemata.Proofs.Outcome
import Schemata.Tag

/-!
# Likeness

What a host answers holds references, and a reference carries a kind and a handle that are no part
of the type it refers to. `TypeRef.identity` drops both, at every depth, and two references are to
the same type exactly when their identities are equal. The identity of a tag or of a member is the
tag or the member with the identity of every reference in it, so equality of identities compares
names, kinds of members, visibilities and attributes outright and references as types.

`Traced.SameUpTo` compares computations by what they look like through a function: both return
values that look the same, or both end in the same failure. It is kept by sequencing, so two runs of
one program on references to the same type can be compared step by step.
-/

namespace Schemata

/-! ## Identities -/

namespace TypeRef

variable {σ : Type}

mutual

/-- The names and arguments of a reference, without kinds and handles. -/
def identity : TypeRef σ → TypeRef Unit
  | ⟨f, s, _, gs, _⟩ => { fullName := f, simpleName := s, generics := identities gs }

/-- The identities of several references. -/
def identities : List (TypeRef σ) → List (TypeRef Unit)
  | [] => []
  | g :: gs => identity g :: identities gs

end

theorem identities_eq_map (ts : List (TypeRef σ)) : identities ts = ts.map identity := by
  induction ts with
  | nil => rfl
  | cons t ts ih => rw [identities, List.map_cons, ih]

theorem identity_eq (t : TypeRef σ) : t.identity =
    { fullName := t.fullName, simpleName := t.simpleName,
      generics := t.generics.map identity } := by
  cases t
  rw [identity, identities_eq_map]

theorem identity_congr {t u : TypeRef σ} (hf : t.fullName = u.fullName)
    (hs : t.simpleName = u.simpleName) (hg : t.generics.map identity = u.generics.map identity) :
    t.identity = u.identity := by
  rw [identity_eq, identity_eq, hf, hs, hg]

theorem fullName_eq_of_identity {t u : TypeRef σ} (h : t.identity = u.identity) :
    t.fullName = u.fullName := by
  rw [identity_eq, identity_eq] at h
  exact (TypeRef.mk.inj h).1

theorem generics_eq_of_identity {t u : TypeRef σ} (h : t.identity = u.identity) :
    t.generics.map identity = u.generics.map identity := by
  rw [identity_eq, identity_eq] at h
  exact (TypeRef.mk.inj h).2.2.2.1

mutual

theorem same_iff_identity : ∀ {t u : TypeRef σ}, same t u = true ↔ t.identity = u.identity
  | ⟨f, s, _, gs, _⟩, ⟨f', s', _, gs', _⟩ => by
    simp only [same, identity, Bool.and_eq_true, beq_iff_eq, sameAll_iff_identities,
      TypeRef.mk.injEq, and_true, true_and, and_assoc]

theorem sameAll_iff_identities : ∀ {ts us : List (TypeRef σ)},
    sameAll ts us = true ↔ identities ts = identities us
  | [], [] => by simp only [sameAll]
  | [], _ :: _ => by simp [sameAll, identities]
  | _ :: _, [] => by simp [sameAll, identities]
  | t :: ts, u :: us => by
    simp only [sameAll, identities, Bool.and_eq_true, List.cons.injEq, same_iff_identity,
      sameAll_iff_identities]

end

theorem beq_iff_identity {t u : TypeRef σ} : (t == u) = true ↔ t.identity = u.identity :=
  same_iff_identity

end TypeRef

mutual

/-- An attribute with the identity of every reference in it. -/
def TagValue.identity {σ : Type} : TagValue σ → TagValue Unit
  | .boolean v => .boolean v
  | .number v => .number v
  | .string v => .string v
  | .type t => .type t.identity
  | .enumConstant v => .enumConstant v
  | .array items => .array (TagValue.identities items)
  | .tag a => .tag a.identity
  | .unknown v => .unknown v

/-- Several attributes with the identity of every reference in them. -/
def TagValue.identities {σ : Type} : List (TagValue σ) → List (TagValue Unit)
  | [] => []
  | v :: vs => v.identity :: TagValue.identities vs

/-- A tag with the identity of every reference in it. -/
def Tag.identity {σ : Type} : Tag σ → Tag Unit
  | .mk name entries custom => .mk name (Tag.entryIdentities entries) custom

/-- Named attributes with the identity of every reference in them. -/
def Tag.entryIdentities {σ : Type} : List (String × TagValue σ) → List (String × TagValue Unit)
  | [] => []
  | (k, v) :: es => (k, v.identity) :: Tag.entryIdentities es

end

theorem TagValue.identities_types {σ : Type} {ts us : List (TypeRef σ)}
    (h : ts.map TypeRef.identity = us.map TypeRef.identity) :
    TagValue.identities (ts.map .type) = TagValue.identities (us.map .type) := by
  induction ts generalizing us with
  | nil =>
    obtain rfl := List.map_eq_nil_iff.mp h.symm
    rfl
  | cons t ts ih =>
    cases us with
    | nil => exact nomatch h
    | cons u us =>
      obtain ⟨htu, hrest⟩ := List.cons.inj h
      simp only [List.map_cons, identities, identity, htu, ih hrest]

/-- A member with the identity of every reference in it. -/
def Member.identity {σ : Type} (m : Member σ) : Member Unit where
  name := m.name
  kind := m.kind
  declaredType := m.declaredType.map TypeRef.identity
  visibility := m.visibility
  isStatic := m.isStatic
  tags := m.tags.map Tag.identity

/-! ## Computations that look the same -/

namespace Traced

variable {α β γ δ : Type} {f : α → γ} {g : β → δ}

/-- Both computations end in the same failure, or return values that look the same. -/
def SameUpTo (f : α → γ) (x y : Traced α) : Prop := f <$> x.outcome = f <$> y.outcome

namespace SameUpTo

theorem refl (x : Traced α) : SameUpTo f x x := rfl

theorem of_outcome_eq {x y : Traced α} (h : x.outcome = y.outcome) : SameUpTo f x y :=
  congrArg (f <$> ·) h

theorem trans {x y z : Traced α} (h : SameUpTo f x y) (h' : SameUpTo f y z) : SameUpTo f x z :=
  Eq.trans h h'

theorem pure {a b : α} (h : f a = f b) :
    SameUpTo f (Pure.pure a : Traced α) (Pure.pure b) := by
  rw [SameUpTo, outcome_pure, outcome_pure]
  exact congrArg Except.ok h

theorem cases {x y : Traced α} (h : SameUpTo f x y) :
    (∃ a b, x.outcome = .ok a ∧ y.outcome = .ok b ∧ f a = f b) ∨
      ∃ e, x.outcome = .error e ∧ y.outcome = .error e := by
  rw [SameUpTo] at h
  cases hx : x.outcome with
  | ok a =>
    cases hy : y.outcome with
    | ok b =>
      rw [hx, hy] at h
      exact .inl ⟨a, b, rfl, rfl, Except.ok.inj h⟩
    | error e => rw [hx, hy] at h; exact nomatch h
  | error e =>
    cases hy : y.outcome with
    | ok b => rw [hx, hy] at h; exact nomatch h
    | error e' =>
      rw [hx, hy] at h
      exact .inr ⟨e, rfl, congrArg _ (Except.error.inj h).symm⟩

theorem of_returns {x y : Traced α} {a b : α} (hx : x.Returns a) (hy : y.Returns b)
    (h : f a = f b) : SameUpTo f x y := by
  rw [SameUpTo, show x.outcome = .ok a from hx, show y.outcome = .ok b from hy]
  exact congrArg Except.ok h

theorem bind {x y : Traced α} {k l : α → Traced β} (h : SameUpTo f x y)
    (hkl : ∀ a b, x.Returns a → y.Returns b → f a = f b → SameUpTo g (k a) (l b)) :
    SameUpTo g (x >>= k) (y >>= l) := by
  rw [SameUpTo, outcome_bind, outcome_bind]
  obtain ⟨a, b, hx, hy, hab⟩ | ⟨e, hx, hy⟩ := h.cases
  · rw [hx, hy]
    exact hkl a b hx hy hab
  · rw [hx, hy]
    rfl

theorem bind_right {x : Traced α} {k l : α → Traced β}
    (h : ∀ a, x.Returns a → SameUpTo g (k a) (l a)) : SameUpTo g (x >>= k) (x >>= l) :=
  bind (f := id) (refl x) fun a b ha hb _ ↦ by
    rw [ha.unique hb]
    exact h b hb

theorem inOrder {xs ys : List (Traced α)} (h : List.Forall₂ (SameUpTo f) xs ys) :
    SameUpTo (List.map f) (ClassTable.inOrder xs) (ClassTable.inOrder ys) := by
  induction h with
  | nil => exact refl _
  | cons hxy _ ih =>
    refine bind hxy fun a b _ _ hab ↦ bind ih fun as bs _ _ habs ↦ pure ?_
    rw [List.map_cons, List.map_cons, hab, habs]

end SameUpTo

theorem returns_inOrder {xs : List (Traced α)} {as : List α} :
    (ClassTable.inOrder xs).Returns as ↔ List.Forall₂ Returns xs as := by
  induction xs generalizing as with
  | nil => rw [ClassTable.inOrder, returns_pure, List.forall₂_nil_left_iff, eq_comm]
  | cons x xs ih =>
    rw [ClassTable.inOrder, returns_bind, List.forall₂_cons_left_iff]
    constructor
    · rintro ⟨a, ha, h⟩
      obtain ⟨rest, hrest, h⟩ := returns_bind.mp h
      exact ⟨a, rest, ha, ih.mp hrest, (returns_pure.mp h).symm⟩
    · rintro ⟨a, rest, ha, hrest, rfl⟩
      exact ⟨a, ha, returns_bind.mpr ⟨rest, ih.mpr hrest, returns_pure.mpr rfl⟩⟩

end Traced

end Schemata
