import Mathlib.Data.List.Forall2
import Schemata.Trace

/-!
# Outcomes

A traced computation returns a value, fails with an error, or gives up for want of depth. Statements
about the engine rarely mention the log, so they speak of two things only: `Traced.Returns x a` says
that `x` returns `a`, and `Traced.Ends x` says that `x` does not give up.

Sequencing is read off the outcomes. The second half is about `mapM` on outcomes, the shape in which
a renderer asks for the nodes it is built around: it returns exactly when every part returns, and it
fails as a part does when every part before it returns.
-/

namespace Schemata

/-! ## Sequencing outcomes -/

section Sequence

variable {ε α β : Type}

theorem bind_eq_ok_iff {x : Except ε α} {f : α → Except ε β} {b : β} :
    x >>= f = .ok b ↔ ∃ a, x = .ok a ∧ f a = .ok b := by
  cases x <;> simp [bind, Except.bind]

theorem bind_eq_error_iff {x : Except ε α} {f : α → Except ε β} {e : ε} :
    x >>= f = .error e ↔ x = .error e ∨ ∃ a, x = .ok a ∧ f a = .error e := by
  cases x <;> simp [bind, Except.bind]

theorem bind_congr_of_ok {x : Except ε α} {f f' : α → Except ε β}
    (h : ∀ a, x = .ok a → f a = f' a) : x >>= f = x >>= f' := by
  cases x with
  | error e => simp only [bind, Except.bind]
  | ok a => exact h a rfl

theorem foldlM_induction {f : β → α → Except ε β} {motive : β → Prop}
    (hf : ∀ b x c, motive b → f b x = .ok c → motive c) {xs : List α} {b c : β}
    (hb : motive b) (h : xs.foldlM f b = .ok c) : motive c := by
  induction xs generalizing b with
  | nil =>
    rw [← Except.ok.inj h]
    exact hb
  | cons x xs ih =>
    rw [List.foldlM_cons] at h
    obtain ⟨d, hd, h⟩ := bind_eq_ok_iff.mp h
    exact ih (hf b x d hb hd) h

end Sequence

namespace Traced

variable {α β : Type}

/-- The computation returns a value. -/
def Returns (x : Traced α) (a : α) : Prop := x.outcome = .ok a

/-- The computation does not give up: it returns a value or fails with an error. -/
def Ends (x : Traced α) : Prop := x.outcome ≠ .error .exhausted

theorem Returns.ends {x : Traced α} {a : α} (h : x.Returns a) : x.Ends := by
  rw [Ends, show x.outcome = .ok a from h]
  exact fun h' ↦ nomatch h'

theorem Returns.unique {x : Traced α} {a b : α} (ha : x.Returns a) (hb : x.Returns b) : a = b :=
  Except.ok.inj (Eq.trans (Eq.symm ha) hb)

@[simp] theorem outcome_map (f : α → β) (x : Traced α) :
    (f <$> x).outcome = f <$> x.outcome := by
  rw [show (f <$> x).outcome = x.outcome >>= fun a ↦ (pure (f a) : Traced β).outcome from
    outcome_bind x fun a ↦ pure (f a)]
  cases x.outcome <;> rfl

theorem ok_bind (a : α) (log : List LogRecord) (f : α → Traced β) :
    (⟨.ok a, log⟩ >>= f : Traced β) = ⟨(f a).outcome, log ++ (f a).log⟩ := rfl

@[simp] theorem returns_pure {a b : α} : (pure a : Traced α).Returns b ↔ a = b := by
  simp [Returns]

@[simp] theorem returns_ofExcept {x : Except Error α} {a : α} :
    (ofExcept x).Returns a ↔ x = .ok a := by
  cases x <;> simp [Returns, ofExcept, Except.mapError]

theorem outcome_ofExcept_eq_error_iff {x : Except Error α} {f : Failure} :
    (ofExcept x).outcome = .error f ↔ ∃ e, x = .error e ∧ f = .error e := by
  cases x <;> simp [ofExcept, Except.mapError, eq_comm]

theorem returns_bind {x : Traced α} {f : α → Traced β} {b : β} :
    (x >>= f).Returns b ↔ ∃ a, x.Returns a ∧ (f a).Returns b := by
  rw [Returns, outcome_bind, bind_eq_ok_iff]
  rfl

theorem returns_map {f : α → β} {x : Traced α} {b : β} :
    (f <$> x).Returns b ↔ ∃ a, x.Returns a ∧ f a = b := by
  rw [Returns, outcome_map]
  cases hx : x.outcome <;> simp [Returns, hx, Functor.map, Except.map]

theorem exists_returns_of_map {f : α → β} {x : Traced α} {b : β}
    (h : x.outcome.toOption.map f = some b) : ∃ a, x.Returns a ∧ f a = b := by
  cases hx : x.outcome with
  | ok a =>
    rw [hx] at h
    exact ⟨a, hx, Option.some.inj h⟩
  | error e =>
    rw [hx] at h
    exact nomatch h

@[simp] theorem ends_pure {a : α} : (pure a : Traced α).Ends := fun h ↦ nomatch h

@[simp] theorem ends_ofExcept {x : Except Error α} : (ofExcept x).Ends := by
  cases x <;> exact fun h ↦ nomatch h

theorem Returns.foldlM_induction_of_mem {f : β → α → Traced β} {motive : β → Prop} {xs : List α}
    (hf : ∀ x ∈ xs, ∀ b c, motive b → (f b x).Returns c → motive c) {b c : β}
    (hb : motive b) (h : (xs.foldlM f b).Returns c) : motive c := by
  induction xs generalizing b with
  | nil =>
    rw [← returns_pure.mp h]
    exact hb
  | cons x xs ih =>
    obtain ⟨hx, hxs⟩ := List.forall_mem_cons.mp hf
    rw [List.foldlM_cons] at h
    obtain ⟨d, hd, h⟩ := returns_bind.mp h
    exact ih hxs (hx b d hb hd) h

theorem Returns.foldlM_induction {f : β → α → Traced β} {motive : β → Prop}
    (hf : ∀ b x c, motive b → (f b x).Returns c → motive c) {xs : List α} {b c : β}
    (hb : motive b) (h : (xs.foldlM f b).Returns c) : motive c :=
  h.foldlM_induction_of_mem (fun x _ b c ↦ hf b x c) hb

/-- Steps that return or fail in one way make a sequence that does. -/
theorem foldlM_returns_or {f : β → α → Traced β} {P : Failure → Prop} {xs : List α}
    (h : ∀ x ∈ xs, ∀ b, (∃ c, (f b x).Returns c) ∨ ∃ e, P e ∧ (f b x).outcome = .error e) (b : β) :
    (∃ c, (xs.foldlM f b).Returns c) ∨ ∃ e, P e ∧ (xs.foldlM f b).outcome = .error e := by
  induction xs generalizing b with
  | nil => exact .inl ⟨b, rfl⟩
  | cons x xs ih =>
    obtain ⟨hx, hxs⟩ := List.forall_mem_cons.mp h
    rw [List.foldlM_cons]
    rcases hx b with ⟨d, hd⟩ | ⟨e, he, hx⟩
    · rcases ih hxs d with ⟨c, hc⟩ | ⟨e, he, hxs⟩
      · exact .inl ⟨c, returns_bind.mpr ⟨d, hd, hc⟩⟩
      · refine .inr ⟨e, he, ?_⟩
        rw [outcome_bind]
        exact bind_eq_error_iff.mpr (.inr ⟨d, hd, hxs⟩)
    · refine .inr ⟨e, he, ?_⟩
      rw [outcome_bind]
      exact bind_eq_error_iff.mpr (.inl hx)

theorem not_returns_foldlM {f : β → α → Traced β} {xs : List α} {x : α} (hx : x ∈ xs)
    (h : ∀ b c, ¬(f b x).Returns c) (b c : β) : ¬(xs.foldlM f b).Returns c := by
  induction xs generalizing b with
  | nil => exact absurd hx List.not_mem_nil
  | cons y xs ih =>
    rw [List.foldlM_cons, returns_bind]
    rintro ⟨d, hd, hc⟩
    rcases List.mem_cons.mp hx with rfl | hx
    · exact h b d hd
    · exact ih hx d hc

theorem returns_foldlM_congr {f f' : β → α → Traced β}
    (h : ∀ b x c, (f b x).Returns c ↔ (f' b x).Returns c) {xs : List α} {b c : β} :
    (xs.foldlM f b).Returns c ↔ (xs.foldlM f' b).Returns c := by
  induction xs generalizing b with
  | nil => exact Iff.rfl
  | cons x xs ih =>
    simp only [List.foldlM_cons, returns_bind, h, ih]

theorem ends_bind {x : Traced α} {f : α → Traced β} (hx : x.Ends)
    (hf : ∀ a, x.Returns a → (f a).Ends) : (x >>= f).Ends := by
  rw [Ends, outcome_bind, ne_eq, bind_eq_error_iff]
  rintro (h | ⟨a, ha, h⟩)
  · exact hx h
  · exact hf a ha h

theorem ends_map {f : α → β} {x : Traced α} (h : x.Ends) : (f <$> x).Ends := by
  rw [Ends, outcome_map]
  cases hx : x.outcome with
  | ok a => exact fun h ↦ nomatch h
  | error e => exact fun h' ↦ h (hx.trans (congrArg _ (Except.error.inj h')))

theorem ends_foldlM {f : β → α → Traced β} (hf : ∀ b x, (f b x).Ends) {xs : List α} {b : β} :
    (xs.foldlM f b).Ends := by
  induction xs generalizing b with
  | nil => exact ends_pure
  | cons x xs ih =>
    rw [List.foldlM_cons]
    exact ends_bind (hf b x) fun _ _ ↦ ih

end Traced

/-! ## Outcomes of several parts -/

section Parts

variable {α β : Type} {f f' : α → Except Failure β}

theorem exists_of_mem_right {R : α → β → Prop} {xs : List α} {ys : List β}
    (h : List.Forall₂ R xs ys) {y : β} (hy : y ∈ ys) : ∃ x ∈ xs, R x y := by
  induction h with
  | nil => exact absurd hy List.not_mem_nil
  | @cons x z xs ys hxz _ ih =>
    rcases List.mem_cons.mp hy with rfl | hy
    · exact ⟨x, List.mem_cons_self, hxz⟩
    · obtain ⟨x', hx', h⟩ := ih hy
      exact ⟨x', List.mem_cons_of_mem x hx', h⟩

theorem exists_getElem?_of_forall₂ {R : α → β → Prop} {xs : List α} {ys : List β}
    (h : List.Forall₂ R xs ys) {i : Nat} {x : α} (hx : xs[i]? = some x) :
    ∃ y, ys[i]? = some y ∧ R x y := by
  induction h generalizing i with
  | nil => exact nomatch hx
  | @cons z y xs ys hzy _ ih =>
    cases i with
    | zero =>
      obtain rfl := Option.some.inj hx
      exact ⟨y, rfl, hzy⟩
    | succ i => exact ih hx

theorem exists_forall₂ {R : α → β → Prop} {xs : List α} (h : ∀ x ∈ xs, ∃ y, R x y) :
    ∃ ys, List.Forall₂ R xs ys := by
  induction xs with
  | nil => exact ⟨[], .nil⟩
  | cons x xs ih =>
    obtain ⟨⟨y, hy⟩, hxs⟩ := List.forall_mem_cons.mp h
    obtain ⟨ys, hys⟩ := ih hxs
    exact ⟨y :: ys, .cons hy hys⟩

theorem exists_forall₂_iff {R : α → β → Prop} {xs : List α} :
    (∃ ys, List.Forall₂ R xs ys) ↔ ∀ x ∈ xs, ∃ y, R x y := by
  refine ⟨fun ⟨ys, h⟩ x hx ↦ ?_, exists_forall₂⟩
  obtain ⟨i, hi⟩ := List.mem_iff_getElem?.mp hx
  obtain ⟨y, -, hxy⟩ := exists_getElem?_of_forall₂ h hi
  exact ⟨y, hxy⟩

theorem forall₂_and {R S : α → β → Prop} {xs : List α} {ys : List β}
    (hR : List.Forall₂ R xs ys) (hS : List.Forall₂ S xs ys) :
    List.Forall₂ (fun x y ↦ R x y ∧ S x y) xs ys := by
  induction hR with
  | nil => exact .nil
  | cons hxy _ ih =>
    cases hS with
    | cons hxy' hS => exact .cons ⟨hxy, hxy'⟩ (ih hS)

theorem forall₂_imp_of_mem {R S : α → β → Prop} {xs : List α} {ys : List β}
    (h : List.Forall₂ R xs ys) (hRS : ∀ x ∈ xs, ∀ y ∈ ys, R x y → S x y) :
    List.Forall₂ S xs ys := by
  induction h with
  | nil => exact .nil
  | @cons x y xs ys hxy _ ih =>
    refine .cons (hRS x List.mem_cons_self y List.mem_cons_self hxy) (ih fun z hz w hw ↦ ?_)
    exact hRS z (List.mem_cons_of_mem x hz) w (List.mem_cons_of_mem y hw)

theorem mapM_eq_ok_iff {ε : Type} {f : α → Except ε β} {xs : List α} {ys : List β} :
    xs.mapM f = .ok ys ↔ List.Forall₂ (fun x y ↦ f x = .ok y) xs ys := by
  induction xs generalizing ys with
  | nil => simp [pure, Except.pure, eq_comm]
  | cons x xs ih =>
    rw [List.mapM_cons, bind_eq_ok_iff, List.forall₂_cons_left_iff]
    constructor
    · rintro ⟨y, hy, h⟩
      obtain ⟨zs, hzs, h⟩ := bind_eq_ok_iff.mp h
      exact ⟨y, zs, hy, ih.mp hzs, (Except.ok.inj h).symm⟩
    · rintro ⟨y, zs, hy, hzs, rfl⟩
      exact ⟨y, hy, bind_eq_ok_iff.mpr ⟨zs, ih.mpr hzs, rfl⟩⟩

theorem mapM_eq_error_iff {xs : List α} {e : Failure} :
    xs.mapM f = .error e ↔
      ∃ pre x post, xs = pre ++ x :: post ∧ (∀ z ∈ pre, ∃ y, f z = .ok y) ∧ f x = .error e := by
  induction xs with
  | nil => simp [pure, Except.pure]
  | cons x xs ih =>
    rw [List.mapM_cons, bind_eq_error_iff]
    constructor
    · rintro (hx | ⟨y, hy, h⟩)
      · exact ⟨[], x, xs, rfl, by simp, hx⟩
      · rcases bind_eq_error_iff.mp h with hxs | ⟨ys, -, h⟩
        · obtain ⟨pre, z, post, rfl, hpre, hz⟩ := ih.mp hxs
          exact ⟨x :: pre, z, post, rfl, List.forall_mem_cons.mpr ⟨⟨y, hy⟩, hpre⟩, hz⟩
        · exact nomatch h
    · rintro ⟨pre, z, post, h, hpre, hz⟩
      cases pre with
      | nil =>
        obtain ⟨rfl, rfl⟩ : x = z ∧ xs = post := by simpa using h
        exact .inl hz
      | cons w pre =>
        obtain ⟨rfl, rfl⟩ : x = w ∧ xs = pre ++ z :: post := by simpa using h
        obtain ⟨⟨y, hy⟩, hpre⟩ := List.forall_mem_cons.mp hpre
        exact .inr ⟨y, hy, bind_eq_error_iff.mpr (.inl (ih.mpr ⟨pre, z, post, rfl, hpre, hz⟩))⟩

/-- Parts that do not give up may be replaced by equal ones; the others are never reached. -/
theorem mapM_congr_of_ends {xs : List α}
    (hf : ∀ x ∈ xs, f x ≠ .error .exhausted → f' x = f x)
    (h : xs.mapM f ≠ .error .exhausted) : xs.mapM f' = xs.mapM f := by
  induction xs with
  | nil => rfl
  | cons x xs ih =>
    rw [List.mapM_cons] at h ⊢
    rw [List.mapM_cons]
    have hx : f x ≠ .error .exhausted := fun hx ↦ h (bind_eq_error_iff.mpr (.inl hx))
    rw [hf x List.mem_cons_self hx]
    cases hfx : f x with
    | error e => rfl
    | ok y =>
      have hxs : xs.mapM f ≠ .error .exhausted := fun hxs ↦
        h (bind_eq_error_iff.mpr (.inr ⟨y, hfx, bind_eq_error_iff.mpr (.inl hxs)⟩))
      rw [ih (fun z hz ↦ hf z (List.mem_cons_of_mem x hz)) hxs]

end Parts

end Schemata
