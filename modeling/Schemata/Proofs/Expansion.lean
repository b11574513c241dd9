import Schemata.Proofs.Reach

/-!
# Expansions

A definition is expanded as an object or, when the tags of its type compose other types, as a
composition. `Generator.Meets` follows a build from its root and keeps the types of the expansions
around each job, the objects and the compositions apart. The types of the objects are exactly those
that the mode of the job lists, so a type is never expanded as an object inside its own object. The
types of the compositions are listed nowhere in the mode: nothing keeps a composed type from being
expanded again inside its own composition.

`Meets.start_or_mentioned` is the invariant behind this. Only the root and what its tags put in its
place are defined without having been mentioned first, and a mention leads to a definition only
outside the objects of its type.
-/

namespace Schemata

variable {σ : Type}

open Traced

/-- The circumstances of a job. -/
def Job.mode : Job σ → Mode σ
  | .definition _ mode => mode
  | .embedded _ mode _ _ => mode
  | .misplaced _ mode => mode

@[simp] theorem Job.mode_ofPlace (mode : Mode σ) (composition : Option (Composition σ))
    (extra : Option Entries) (place : TypePlace σ) :
    (Job.ofPlace mode composition extra place).mode = mode := by
  cases place <;> rfl

theorem Job.definition_ne_ofPlace {t : TypeRef σ} {mode mode' : Mode σ}
    {composition : Option (Composition σ)} {extra : Option Entries} (place : TypePlace σ) :
    Job.definition t mode ≠ Job.ofPlace mode' composition extra place := by
  cases place <;> exact (nomatch ·)

namespace Generator

variable {g : Generator σ} {t : TypeRef σ} {mode : Mode σ} {job job' : Job σ}

/-! ## Expanded jobs -/

/-- The job is expanded as an object. -/
def SpellsObject (g : Generator σ) (job : Job σ) : Prop :=
  ∃ head ps mode, (g.plan job).Returns (.object head ps mode)

/-- The job is expanded as a composition. -/
def Composes (g : Generator σ) (job : Job σ) : Prop :=
  ∃ c mode, (g.plan job).Returns (.composition c mode)

section Embedded

variable {composition : Option (Composition σ)} {extra : Option Entries}

theorem not_spellsObject_embedded : ¬g.SpellsObject (.embedded t mode composition extra) := by
  rintro ⟨head, ps, inner, h⟩
  obtain ⟨tags, -, ⟨u, -, h⟩ | ⟨-, h⟩⟩ := returns_embeddedPlan_iff.mp h
  · exact nomatch h
  · exact nomatch h

theorem not_composes_embedded : ¬g.Composes (.embedded t mode composition extra) := by
  rintro ⟨c, inner, h⟩
  obtain ⟨tags, -, ⟨u, -, h⟩ | ⟨-, h⟩⟩ := returns_embeddedPlan_iff.mp h
  · exact nomatch h
  · exact nomatch h

end Embedded

theorem Composes.exists_definition (h : g.Composes job) : ∃ t mode, job = .definition t mode := by
  cases job with
  | definition t mode => exact ⟨t, mode, rfl⟩
  | embedded => exact absurd h not_composes_embedded
  | misplaced => exact nomatch h

theorem Composes.not_spellsObject (h : g.Composes job) : ¬g.SpellsObject job := by
  rintro ⟨head, ps, inner, hobject⟩
  obtain ⟨c, m, hcomposition⟩ := h
  exact nomatch hobject.unique hcomposition

theorem Composes.tags (h : g.Composes (.definition t mode)) :
    ∃ tags c, (g.host.tags t).Returns tags ∧ Composition.find? tags = .ok (some c) := by
  obtain ⟨c, inner, hplan⟩ := h
  generalize hcomposition : Plan.composition c inner = plan at hplan
  cases returns_definitionPlan_iff.mp hplan with
  | override => exact nomatch hcomposition
  | simple => exact nomatch hcomposition
  | composed htags _ _ hc => exact ⟨_, _, htags, hc⟩
  | byKind _ _ _ _ hplan =>
    cases kindCase_of_kindPlan hplan with
    | object => exact nomatch hcomposition
    | enumeration => exact nomatch hcomposition
    | container =>
      rcases containerPlan_cases t mode with ⟨_, h⟩ | ⟨_, _, h⟩ | ⟨_, _, h⟩
      · exact nomatch hcomposition.trans h
      · exact nomatch hcomposition.trans h
      · exact nomatch hcomposition.trans h

/-! ## Requests -/

theorem Asks.definitionJob (h : g.Asks (.definition t mode) job) :
    ∃ plan, (g.plan (.definition t mode)).Returns plan ∧ g.DefinitionJob t mode plan job := by
  obtain ⟨plan, before, after, hplan, hjobs, -⟩ := h
  refine ⟨plan, hplan, definitionJob_of_mem hplan ?_⟩
  rw [hjobs]
  exact List.mem_append_right before List.mem_cons_self

theorem Asks.embeddedJob {composition : Option (Composition σ)} {extra : Option Entries}
    (h : g.Asks (.embedded t mode composition extra) job) :
    g.EmbeddedJob t mode composition extra job := by
  obtain ⟨plan, before, after, hplan, hjobs, -⟩ := h
  refine embeddedJob_of_mem hplan ?_
  rw [hjobs]
  exact List.mem_append_right before List.mem_cons_self

theorem Asks.reachable (h : g.Asks job job') {u : TypeRef σ} (hu : u ∈ job'.types) :
    ∃ t ∈ job.types, g.host.Reachable t u := by
  obtain ⟨plan, before, after, hplan, hjobs, -⟩ := h
  refine reachable_of_mem_jobs hplan ?_ hu
  rw [hjobs]
  exact List.mem_append_right before List.mem_cons_self

/-- An object asks for its properties, with its type among those that are being spelled out. -/
theorem Asks.of_spellsObject (hobject : g.SpellsObject (.definition t mode))
    (h : g.Asks (.definition t mode) job) :
    ∃ (inner : Mode σ) (p : Property σ), inner.inline = mode.inline ∧
      inner.inlining = TypeRef.insertNew mode.inlining t ∧ job = Plan.ofProperty inner p := by
  obtain ⟨head, ps, inner, hobject⟩ := hobject
  obtain ⟨plan, hplan, hjob⟩ := h.definitionJob
  obtain rfl := hplan.unique hobject
  cases hjob with
  | property hp hinline hinlining => exact ⟨inner, _, hinline, hinlining, rfl⟩

theorem Asks.of_composes (hcomposes : g.Composes (.definition t mode))
    (h : g.Asks (.definition t mode) job) : ∃ u, job = Plan.plain mode u := by
  obtain ⟨c, inner, hcomposes⟩ := hcomposes
  obtain ⟨plan, hplan, hjob⟩ := h.definitionJob
  obtain rfl := hplan.unique hcomposes
  cases hjob with
  | part _ _ hu => exact ⟨_, rfl⟩

theorem Asks.mode_eq (hobject : ¬g.SpellsObject job) (h : g.Asks job job') :
    job'.mode = job.mode := by
  cases job with
  | definition t mode =>
    obtain ⟨plan, hplan, hjob⟩ := h.definitionJob
    cases hjob with
    | property => exact absurd ⟨_, _, _, hplan⟩ hobject
    | _ => rfl
  | embedded t mode composition extra =>
    cases h.embeddedJob <;> rfl
  | misplaced => exact absurd h not_asks_misplaced

/-! ## Jobs that are met -/

/-- Rendering the root comes to the job inside the objects and the compositions of these types. -/
inductive Meets (g : Generator σ) (root : Job σ) :
    List (TypeRef σ) → List (TypeRef σ) → Job σ → Prop where
  /-- Around the root there is nothing. -/
  | root : Meets g root [] [] root
  /-- A property is met inside the object. -/
  | object {os cs : List (TypeRef σ)} {t : TypeRef σ} {mode : Mode σ} {job : Job σ}
      (h : Meets g root os cs (.definition t mode))
      (hobject : g.SpellsObject (.definition t mode)) (hask : g.Asks (.definition t mode) job) :
      Meets g root (t :: os) cs job
  /-- A part is met inside the composition. -/
  | composition {os cs : List (TypeRef σ)} {t : TypeRef σ} {mode : Mode σ} {job : Job σ}
      (h : Meets g root os cs (.definition t mode))
      (hcomposes : g.Composes (.definition t mode)) (hask : g.Asks (.definition t mode) job) :
      Meets g root os (t :: cs) job
  /-- Everything else stays inside the same expansions. -/
  | passed {os cs : List (TypeRef σ)} {job job' : Job σ} (h : Meets g root os cs job)
      (hobject : ¬g.SpellsObject job) (hcomposes : ¬g.Composes job) (hask : g.Asks job job') :
      Meets g root os cs job'

namespace Meets

variable {root : Job σ} {os cs : List (TypeRef σ)}

theorem next (h : g.Meets root os cs job) (hobject : ¬g.SpellsObject job)
    (hask : g.Asks job job') : ∃ entered, g.Meets root os (entered ++ cs) job' := by
  by_cases hcomposes : g.Composes job
  · obtain ⟨t, mode, rfl⟩ := hcomposes.exists_definition
    exact ⟨[t], h.composition hcomposes hask⟩
  · exact ⟨[], h.passed hobject hcomposes hask⟩

theorem reachable (h : g.Meets root os cs job) {u : TypeRef σ} (hu : u ∈ job.types) :
    ∃ t ∈ root.types, g.host.Reachable t u := by
  induction h generalizing u with
  | root => exact ⟨u, hu, .refl⟩
  | object _ _ hask ih | composition _ _ hask ih | passed _ _ _ hask ih =>
    obtain ⟨v, hv, hvu⟩ := hask.reachable hu
    obtain ⟨t, ht, htv⟩ := ih hv
    exact ⟨t, ht, htv.trans hvu⟩

theorem reachable_around (h : g.Meets root os cs job) {u : TypeRef σ} (hu : u ∈ os ∨ u ∈ cs) :
    ∃ t ∈ root.types, g.host.Reachable t u := by
  induction h with
  | root => exact absurd hu (by simp)
  | object h _ _ ih =>
    rcases hu with hu | hu
    · rcases List.mem_cons.mp hu with rfl | hu
      · exact h.reachable List.mem_cons_self
      · exact ih (.inl hu)
    · exact ih (.inr hu)
  | composition h _ _ ih =>
    rcases hu with hu | hu
    · exact ih (.inl hu)
    · rcases List.mem_cons.mp hu with rfl | hu
      · exact h.reachable List.mem_cons_self
      · exact ih (.inr hu)
  | passed _ _ _ _ ih => exact ih hu

/-- What the circumstances of the root satisfy, and those inside an object if those around it do,
holds of all circumstances: compositions and replacements hand them on as they are. -/
theorem mode_induction {motive : List (TypeRef σ) → Mode σ → Prop} (h : g.Meets root os cs job)
    (start : motive [] root.mode)
    (inside : ∀ {os t mode job}, g.SpellsObject (.definition t mode) →
      g.Asks (.definition t mode) job → motive os mode → motive (t :: os) job.mode) :
    motive os job.mode := by
  induction h with
  | root => exact start
  | object _ hobject hask ih => exact inside hobject hask ih
  | composition _ hcomposes hask ih =>
    rw [hask.mode_eq hcomposes.not_spellsObject]
    exact ih
  | passed _ hobject _ hask ih =>
    rw [hask.mode_eq hobject]
    exact ih

theorem inline_eq (h : g.Meets root os cs job) : job.mode.inline = root.mode.inline := by
  refine h.mode_induction (motive := fun _ mode ↦ mode.inline = root.mode.inline) rfl ?_
  intro os t mode job hobject hask ih
  obtain ⟨inner, p, hinline, -, rfl⟩ := hask.of_spellsObject hobject
  rw [Plan.ofProperty, Job.mode_ofPlace]
  exact hinline.trans ih

/-- The mode lists the types of the objects around a job, after those that it started with. -/
theorem contains_inlining_or (h : g.Meets root os cs job) (u : TypeRef σ) :
    job.mode.inlining.contains u = (root.mode.inlining.contains u || os.contains u) := by
  refine h.mode_induction (motive := fun os mode ↦
    mode.inlining.contains u = (root.mode.inlining.contains u || os.contains u)) ?_ ?_
  · rw [List.contains_nil, Bool.or_false]
  · intro os t mode job hobject hask ih
    obtain ⟨inner, p, -, hinlining, rfl⟩ := hask.of_spellsObject hobject
    rw [Plan.ofProperty, Job.mode_ofPlace, hinlining, TypeRef.contains_insertNew,
      List.contains_cons, Bool.or_comm (u == _), ← Bool.or_assoc]
    exact congrArg (· || _) ih

theorem contains_inlining (hroot : root.mode.inlining = []) (h : g.Meets root os cs job)
    (u : TypeRef σ) : job.mode.inlining.contains u = os.contains u := by
  rw [h.contains_inlining_or, hroot, List.contains_nil, Bool.false_or]

/-- A definition stands at the start of the build, or its type was mentioned outside its own
objects. -/
theorem start_or_mentioned (h : g.Meets root os cs (.definition t mode)) :
    (os = [] ∧ cs = []) ∨ ∃ extra, g.Meets root os cs (.embedded t mode none extra) ∧
      g.Mentions t mode extra ∧ mode.inlining.contains t = false := by
  generalize hjob : Job.definition t mode = job at h
  induction h generalizing t mode with
  | root => exact .inl ⟨rfl, rfl⟩
  | object _ hobject hask =>
    obtain ⟨inner, p, -, -, rfl⟩ := hask.of_spellsObject hobject
    exact absurd hjob (Job.definition_ne_ofPlace p.type)
  | composition _ hcomposes hask =>
    obtain ⟨u, rfl⟩ := hask.of_composes hcomposes
    exact nomatch hjob
  | @passed os cs job _ h _ _ hask ih =>
    cases job with
    | definition v m =>
      obtain ⟨plan, -, hnext⟩ := hask.definitionJob
      cases hnext with
      | override htags hu =>
        obtain ⟨rfl, rfl⟩ := Job.definition.inj hjob
        -- a type that its tags replace is never mentioned, so its definition stands at the start
        rcases ih rfl with hstart | ⟨extra, -, hmention, -⟩
        · exact .inl hstart
        · obtain ⟨tags, htags', hnone⟩ := hmention.override
          rw [htags.unique htags', hnone] at hu
          exact nomatch hu
      | part | item | value => exact nomatch hjob
      | property => exact absurd hjob (Job.definition_ne_ofPlace _)
    | embedded v m composition extra =>
      cases hask.embeddedJob with
      | itself hmention _ hnew =>
        obtain ⟨rfl, rfl⟩ := Job.definition.inj hjob
        exact .inr ⟨extra, h, hmention, hnew⟩
      | override | argument | part => exact nomatch hjob
    | misplaced => exact absurd hask not_asks_misplaced

theorem not_contains_objects (hroot : root.mode.inlining = [])
    (h : g.Meets root os cs (.definition t mode)) : os.contains t = false := by
  rcases h.start_or_mentioned with ⟨rfl, -⟩ | ⟨extra, -, -, hnew⟩
  · rfl
  · rw [← h.contains_inlining hroot]
    exact hnew

theorem distinct_objects (hroot : root.mode.inlining = []) (h : g.Meets root os cs job) :
    TypeRef.Distinct os := by
  induction h with
  | root => exact List.Pairwise.nil
  | object h _ _ ih => exact ih.cons (h.not_contains_objects hroot)
  | composition _ _ _ ih => exact ih
  | passed _ _ _ _ ih => exact ih

end Meets

end Generator

end Schemata
