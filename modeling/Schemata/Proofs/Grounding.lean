import Mathlib.Order.WellFounded
import Schemata.Proofs.Expansion

/-!
# Grounded builds

A plan is always made where the host answers, so a job ends exactly if no infinite chain of requests
starts from it. Between two expansions requests only descend, from types to their arguments and to
what their tags put in their place (`grounded_of_settled`), and the objects around a job are of
different types. So where finitely many types can be reached and nothing descends for ever, a build
that does not end enters one composition inside the other without an object in between
(`grounded_of_met`); and a build that does so does not end (`not_composesForever`).
-/

namespace Schemata

variable {σ : Type}

open Traced

/-! ## Plans are made -/

namespace Generator

variable {g : Generator σ}

theorem ends_enumNames (h : g.host.Answers) (t : TypeRef σ) (ms : List (Member σ))
    (names : List String) : (g.enumNames t ms names).Ends := by
  induction ms generalizing names with
  | nil => exact ends_pure
  | cons m ms ih =>
    rw [enumNames]
    split
    · exact ends_bind (h.isAssignable _ _) fun _ _ ↦ ih _
    · exact ends_bind ends_pure fun _ _ ↦ ih _

theorem ends_kindPlan (h : g.host.Answers) (t : TypeRef σ) (tags : List (Tag σ))
    (mode : Mode σ) : (g.kindPlan t tags mode).Ends := by
  have hobject : (g.objectPlan t tags mode).Ends :=
    ends_bind (Extension.ends_collect _ _) fun _ _ ↦
      ends_bind (Property.ends_extract h t _) fun _ _ ↦ ends_pure
  have henumeration : (g.enumeration t).Ends :=
    ends_bind (h.members t) fun ms _ ↦
      ends_bind (ends_enumNames h t ms []) fun _ _ ↦ ends_pure
  unfold kindPlan
  cases t.kind with
  | object | primitive => exact hobject
  | enum => exact ends_map henumeration
  | array | dictionary => exact ends_pure

theorem ends_plan (h : g.host.Answers) (job : Job σ) : (g.plan job).Ends := by
  cases job with
  | definition t mode =>
    refine ends_bind (h.tags t) fun tags _ ↦ ends_bind ends_ofExcept fun override _ ↦ ?_
    cases override with
    | some u => exact ends_pure
    | none =>
      cases g.simpleType t with
      | some s => exact ends_pure
      | none =>
        refine ends_bind ends_ofExcept fun composition _ ↦ ?_
        cases composition with
        | some c => exact ends_pure
        | none => exact ends_kindPlan h t tags mode
  | embedded t mode composition extra =>
    refine ends_bind (h.tags t) fun tags _ ↦ ends_bind ends_ofExcept fun override _ ↦ ?_
    cases override with
    | some u => exact ends_pure
    | none => exact ends_pure
  | misplaced => exact fun h ↦ nomatch h

end Generator

/-! ## Descending -/

/-- The second type is an argument of the first one, or what its tags put in its place. -/
inductive Host.Descends (host : Host σ) : TypeRef σ → TypeRef σ → Prop where
  | argument {t u : TypeRef σ} (hu : u ∈ t.generics) : Descends host t u
  | override {t u : TypeRef σ} {tags : List (Tag σ)} (htags : (host.tags t).Returns tags)
      (hu : definedBy tags = .ok (some u)) : Descends host t u

/-- No infinite chain of arguments and replacements starts from the type. -/
def Host.Bottoms (host : Host σ) (t : TypeRef σ) : Prop :=
  Acc (fun u t ↦ host.Descends t u) t

namespace Generator

variable {g : Generator σ} {t : TypeRef σ} {mode : Mode σ} {job job' : Job σ} {Q : Job σ → Prop}

/-! ## Between two expansions -/

/-- The jobs of a closed family either end or are not expanded and stay in the family. -/
def Settled (g : Generator σ) (Q : Job σ → Prop) : Prop :=
  ∀ job, Q job → g.Grounded job ∨
    (¬g.SpellsObject job ∧ ¬g.Composes job ∧ ∀ job', g.Asks job job' → Q job')

/-- Descending ends for definitions and for embedded types that nothing replaces. -/
theorem grounded_of_bottoms (hQ : g.Settled Q) (ht : g.host.Bottoms t) :
    (∀ mode, Q (.definition t mode) → g.Grounded (.definition t mode)) ∧
      ∀ mode extra, Q (.embedded t mode none extra) →
        g.Grounded (.embedded t mode none extra) := by
  induction ht with
  | intro t _ ih =>
    -- a mention leads to the definition of the same type, so definitions come first
    have hdefinition : ∀ mode, Q (.definition t mode) → g.Grounded (.definition t mode) := by
      intro mode hjob
      rcases hQ _ hjob with hgrounded | ⟨hobject, hcomposes, hasked⟩
      · exact hgrounded
      · refine ⟨_, fun job' hask ↦ ?_⟩
        have hjob' : Q job' := hasked job' hask
        obtain ⟨plan, hplan, hnext⟩ := hask.definitionJob
        cases hnext with
        | override htags hu => exact (ih _ (.override htags hu)).1 mode hjob'
        | part => exact absurd ⟨_, _, hplan⟩ hcomposes
        | item hu => exact (ih _ (.argument hu)).2 mode none hjob'
        | value hu => exact (ih _ (.argument hu)).2 mode none hjob'
        | property => exact absurd ⟨_, _, _, hplan⟩ hobject
    refine ⟨hdefinition, fun mode extra hjob ↦ ?_⟩
    rcases hQ _ hjob with hgrounded | ⟨-, -, hasked⟩
    · exact hgrounded
    · refine ⟨_, fun job' hask ↦ ?_⟩
      have hjob' : Q job' := hasked job' hask
      cases hask.embeddedJob with
      | override htags hu => exact (ih _ (.override htags hu)).2 mode extra hjob'
      | argument hu => exact (ih _ (.argument hu)).2 mode none hjob'
      | itself => exact hdefinition mode hjob'

/-- Descending ends for embedded types that a composition replaces: it is entered once. -/
theorem grounded_replaced_of_bottoms (hQ : g.Settled Q)
    (hbottoms : ∀ job, Q job → ∀ u ∈ job.types, g.host.Bottoms u) {c : Composition σ}
    (ht : g.host.Bottoms t) {extra : Option Entries} (hjob : Q (.embedded t mode (some c) extra)) :
    g.Grounded (.embedded t mode (some c) extra) := by
  induction ht with
  | intro t _ ih =>
    rcases hQ _ hjob with hgrounded | ⟨-, -, hasked⟩
    · exact hgrounded
    · refine ⟨_, fun job' hask ↦ ?_⟩
      have hjob' : Q job' := hasked job' hask
      have hplain : ∀ u, job' = Plan.plain mode u → g.Grounded job' := by
        rintro u rfl
        exact (grounded_of_bottoms hQ (hbottoms _ hjob' u List.mem_cons_self)).2 mode none hjob'
      cases hask.embeddedJob with
      | override htags hu => exact ih _ (.override htags hu) hjob'
      | argument hu => exact hplain _ rfl
      | part hu => exact hplain _ rfl

/-- **Between two expansions a build descends, and descending ends.** -/
theorem grounded_of_settled (hQ : g.Settled Q)
    (hbottoms : ∀ job, Q job → ∀ u ∈ job.types, g.host.Bottoms u) (hjob : Q job) :
    g.Grounded job := by
  cases job with
  | definition t mode =>
    exact (grounded_of_bottoms hQ (hbottoms _ hjob t List.mem_cons_self)).1 mode hjob
  | embedded t mode composition extra =>
    have ht : g.host.Bottoms t := hbottoms _ hjob t List.mem_cons_self
    cases composition with
    | none => exact (grounded_of_bottoms hQ ht).2 mode extra hjob
    | some c => exact grounded_replaced_of_bottoms hQ hbottoms ht hjob
  | misplaced => exact ⟨_, fun _ hask ↦ absurd hask not_asks_misplaced⟩

/-! ## Compositions inside compositions -/

/-- The first job comes to the second one without being expanded as an object. -/
def Passes (g : Generator σ) (job job' : Job σ) : Prop := ¬g.SpellsObject job ∧ g.Asks job job'

/-- The second composition is entered inside the first one, without an object in between. -/
def Recomposes (g : Generator σ) (job job' : Job σ) : Prop :=
  g.Composes job ∧ g.Composes job' ∧ Relation.TransGen g.Passes job job'

/-- Rendering the root comes to an infinite chain of compositions, each of which is entered inside
the one before without an object in between. -/
def ComposesForever (g : Generator σ) (root : Job σ) : Prop :=
  ∃ f : ℕ → Job σ, (∃ os cs, g.Meets root os cs (f 0)) ∧ ∀ n, g.Recomposes (f n) (f (n + 1))

/-- A build starts with nothing around it, these are all types that it can reach, and no type among
them descends for ever. -/
structure Confined (g : Generator σ) (root : Job σ) (among : List (TypeRef σ)) : Prop where
  start : root.mode.inlining = []
  among : ∀ t ∈ root.types, ∀ u, g.host.Reachable t u → among.contains u
  bottoms : ∀ t ∈ root.types, ∀ u, g.host.Reachable t u → g.host.Bottoms u

section Confined

variable {root : Job σ} {among os cs : List (TypeRef σ)}

theorem Confined.length_objects_le (hroot : g.Confined root among)
    (h : g.Meets root os cs job) : os.length ≤ among.length := by
  refine (h.distinct_objects hroot.start).length_le fun u hu ↦ ?_
  obtain ⟨t, ht, hreach⟩ := h.reachable_around (.inl hu)
  exact hroot.among t ht u hreach

theorem Meets.passes (h : g.Meets root os cs job)
    (hpath : Relation.ReflTransGen g.Passes job job') :
    ∃ entered, g.Meets root os (entered ++ cs) job' := by
  induction hpath with
  | refl => exact ⟨[], h⟩
  | tail _ hpass ih =>
    obtain ⟨entered, h⟩ := ih
    obtain ⟨entered', h⟩ := h.next hpass.1 hpass.2
    refine ⟨entered' ++ entered, ?_⟩
    rw [List.append_assoc]
    exact h

theorem Meets.recomposes (h : g.Meets root os cs job) (hnext : g.Recomposes job job') :
    ∃ cs', g.Meets root os cs' job' ∧ cs.length < cs'.length := by
  obtain ⟨hcomposes, -, hpath⟩ := hnext
  obtain ⟨t, mode, rfl⟩ := hcomposes.exists_definition
  obtain ⟨next, hpass, hpath⟩ := Relation.TransGen.head'_iff.mp hpath
  obtain ⟨entered, h⟩ := (h.composition hcomposes hpass.2).passes hpath
  refine ⟨entered ++ t :: cs, h, ?_⟩
  rw [List.length_append, List.length_cons]
  omega

/-- A job is grounded if every job inside more objects is, and every composition that the job comes
to inside the same objects. -/
theorem grounded_of_composed (hroot : g.Confined root among)
    (hmore : ∀ os' cs' job', g.Meets root os' cs' job' → os.length < os'.length →
      g.Grounded job')
    (h : g.Meets root os cs job)
    (hcomposed : ∀ job', Relation.ReflTransGen g.Passes job job' → g.Composes job' →
      g.Grounded job') : g.Grounded job := by
  -- the family of the jobs inside these objects from which only settled compositions are met
  let Q (job : Job σ) : Prop := (∃ cs, g.Meets root os cs job) ∧
    ∀ job', Relation.ReflTransGen g.Passes job job' → g.Composes job' → g.Grounded job'
  have hsettled : g.Settled Q := by
    rintro job ⟨⟨cs, h⟩, hcomposed⟩
    by_cases hobject : g.SpellsObject job
    · refine .inl ⟨_, fun job' hask ↦ ?_⟩
      cases job with
      | definition t mode =>
        exact hmore _ _ job' (h.object hobject hask) (Nat.lt_succ_self os.length)
      | embedded => exact absurd hobject not_spellsObject_embedded
      | misplaced => exact absurd hask not_asks_misplaced
    · by_cases hcomposes : g.Composes job
      · exact .inl (hcomposed job .refl hcomposes)
      · refine .inr ⟨hobject, hcomposes, fun job' hask ↦ ?_⟩
        exact ⟨⟨cs, h.passed hobject hcomposes hask⟩, fun job'' hpath ↦
          hcomposed job'' (hpath.head ⟨hobject, hask⟩)⟩
  have hbottoms : ∀ job, Q job → ∀ u ∈ job.types, g.host.Bottoms u := by
    rintro job ⟨⟨cs, h⟩, -⟩ u hu
    obtain ⟨t, ht, hreach⟩ := h.reachable hu
    exact hroot.bottoms t ht u hreach
  exact grounded_of_settled hsettled hbottoms ⟨⟨cs, h⟩, hcomposed⟩

/-- A composition is grounded if every job inside more objects is, and if no infinite chain of
compositions starts from it. -/
theorem Composes.grounded (hroot : g.Confined root among)
    (hmore : ∀ os' cs' job', g.Meets root os' cs' job' → os.length < os'.length →
      g.Grounded job')
    (hacc : Acc (fun job' job ↦ g.Recomposes job job') job) (hcomposes : g.Composes job)
    (h : g.Meets root os cs job) : g.Grounded job := by
  induction hacc generalizing cs with
  | intro job _ ih =>
    -- what is met before the next composition is settled, and the next composition by induction
    refine ⟨_, fun next hask ↦ ?_⟩
    have hpass : g.Passes job next := ⟨hcomposes.not_spellsObject, hask⟩
    obtain ⟨entered, hnext⟩ := h.next hpass.1 hask
    refine grounded_of_composed hroot hmore hnext fun job' hpath hcomposes' ↦ ?_
    obtain ⟨entered', hjob'⟩ := hnext.passes hpath
    exact ih job' ⟨hcomposes, hcomposes', .head' hpass hpath⟩ hcomposes' hjob'

theorem acc_recomposes (hfinite : ¬g.ComposesForever root) (h : g.Meets root os cs job) :
    Acc (fun job' job ↦ g.Recomposes job job') job := by
  by_contra hacc
  obtain ⟨f, rfl, hchain⟩ := not_acc_iff_exists_descending_chain.mp hacc
  exact hfinite ⟨f, ⟨os, cs, h⟩, hchain⟩

/-- **A build that does not compose for ever ends.** -/
theorem grounded_of_met (hroot : g.Confined root among) (hfinite : ¬g.ComposesForever root)
    (h : g.Meets root os cs job) : g.Grounded job := by
  -- the induction is on the number of types that may still become objects around the job
  induction hn : among.length - os.length using Nat.strong_induction_on
    generalizing os cs job with
  | _ n ih =>
    have hmore : ∀ os' cs' job', g.Meets root os' cs' job' → os.length < os'.length →
        g.Grounded job' := by
      intro os' cs' job' h' hlt
      have hle : os'.length ≤ among.length := hroot.length_objects_le h'
      exact ih (among.length - os'.length) (by omega) h' rfl
    refine grounded_of_composed hroot hmore h fun job' hpath hcomposes ↦ ?_
    obtain ⟨entered, h'⟩ := h.passes hpath
    exact hcomposes.grounded hroot hmore (acc_recomposes hfinite h') h'

theorem Meets.grounded (h : g.Meets root os cs job) (hroot : g.Grounded root) :
    g.Grounded job := by
  induction h with
  | root => exact hroot
  | object _ _ hask ih | composition _ _ hask ih | passed _ _ _ hask ih => exact ih.inv hask

theorem not_composesForever (hroot : g.Grounded root) : ¬g.ComposesForever root := by
  rintro ⟨f, ⟨os, cs, h⟩, hchain⟩
  have hacc : Acc (Relation.TransGen fun job' job ↦ g.Asks job job') (f 0) :=
    (h.grounded hroot).transGen
  refine not_acc_iff_exists_descending_chain.mpr ⟨f, rfl, fun n ↦ ?_⟩ hacc
  obtain ⟨-, -, hpath⟩ := hchain n
  have hasks : Relation.TransGen g.Asks (f n) (f (n + 1)) :=
    Relation.TransGen.mono (fun _ _ hpass ↦ hpass.2) _ _ hpath
  exact Relation.transGen_swap.mpr hasks

end Confined

end Generator

end Schemata
