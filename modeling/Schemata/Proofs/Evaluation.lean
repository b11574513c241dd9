import Schemata.Proofs.Step

/-!
# Evaluation

A budget of nested jobs only ever decides whether rendering gives up: two budgets under which a job
does not give up give it the same outcome (`outcome_render_of_le`). So a job has at most one result,
and `Generator.Renders` and `Generator.Halts` speak of jobs without naming a budget. `renders_iff`
unfolds one step of the result, and `Renders.induction` is the induction principle that every
statement about all rendered nodes is proved with.

`Generator.Asks` relates a job to the jobs that rendering it comes to: the jobs of its plan up to
the first one that has no node. A job halts exactly when no infinite chain of such requests starts
from it, which is `halts_iff_acc`.
-/

namespace Schemata

variable {σ : Type}

open Traced

namespace Plan

variable {ask : Job σ → Except Failure (Node σ)} {plan : Plan σ}

theorem run_congr_of_ends {ask' : Job σ → Except Failure (Node σ)}
    (hask : ∀ job ∈ plan.jobs, ask job ≠ .error .exhausted → ask' job = ask job)
    (h : plan.run ask ≠ .error .exhausted) : plan.run ask' = plan.run ask := by
  have hjobs : plan.jobs.mapM ask ≠ .error .exhausted := fun hjobs ↦ h (by rw [run, hjobs]; rfl)
  rw [run, run, mapM_congr_of_ends hask hjobs]

theorem run_congr {ask' : Job σ → Except Failure (Node σ)}
    (h : ∀ job ∈ plan.jobs, ask' job = ask job) : plan.run ask' = plan.run ask := by
  have hjobs : plan.jobs.mapM ask' = plan.jobs.mapM ask := by
    generalize plan.jobs = jobs at h
    induction jobs with
    | nil => rfl
    | cons job jobs ih =>
      obtain ⟨hjob, hjobs⟩ := List.forall_mem_cons.mp h
      rw [List.mapM_cons, List.mapM_cons, hjob, ih hjobs]
  rw [run, run, hjobs]

theorem run_eq_ok_iff {node : Node σ} :
    plan.run ask = .ok node ↔
      ∃ nodes, List.Forall₂ (fun job node ↦ ask job = .ok node) plan.jobs nodes ∧
        plan.assemble nodes = node := by
  rw [run, map_eq_pure_bind, bind_eq_ok_iff]
  refine exists_congr fun nodes ↦ and_congr mapM_eq_ok_iff ?_
  exact ⟨fun h ↦ Except.ok.inj h, fun h ↦ congrArg Except.ok h⟩

theorem run_eq_error_iff {e : Failure} :
    plan.run ask = .error e ↔ plan.jobs.mapM ask = .error e := by
  rw [run]
  cases plan.jobs.mapM ask with
  | error e' => exact ⟨fun h ↦ congrArg _ (Except.error.inj h), fun h ↦ congrArg _ h⟩
  | ok nodes =>
    constructor
    · intro h
      cases h
    · intro h
      cases h

end Plan

namespace Generator

variable {g : Generator σ} {job : Job σ} {node : Node σ}

/-! ## Budgets -/

theorem outcome_render_succ (g : Generator σ) (budget : Nat) (job : Job σ) :
    (g.render (budget + 1) job).outcome =
      (g.plan job).outcome >>= fun plan ↦
        plan.run fun job ↦ (g.render budget job).outcome :=
  outcome_step job

theorem outcome_render_of_plan {plan : Plan σ} (budget : Nat) (h : (g.plan job).Returns plan) :
    (g.render (budget + 1) job).outcome =
      plan.run fun job ↦ (g.render budget job).outcome := by
  rw [outcome_render_succ, show (g.plan job).outcome = .ok plan from h]
  rfl

theorem outcome_render_of_le {budget budget' : Nat} (hle : budget ≤ budget')
    (h : (g.render budget job).Ends) :
    (g.render budget' job).outcome = (g.render budget job).outcome := by
  -- a job asks its jobs with one less, under both budgets, so the induction is on the smaller one
  induction budget generalizing budget' job with
  | zero => exact absurd rfl h
  | succ budget ih =>
    obtain ⟨budget', rfl⟩ : ∃ b, budget' = b + 1 := ⟨budget' - 1, by omega⟩
    rw [Ends, outcome_render_succ] at h
    rw [outcome_render_succ, outcome_render_succ]
    cases hplan : (g.plan job).outcome with
    | error e => rfl
    | ok plan =>
      rw [hplan] at h
      exact Plan.run_congr_of_ends (fun job _ hjob ↦ ih (by omega) hjob) h

/-! ## Results -/

/-- The job is rendered as the node, given enough budget. -/
def Renders (g : Generator σ) (job : Job σ) (node : Node σ) : Prop :=
  ∃ budget, (g.render budget job).Returns node

theorem returns_render_of_le {budget budget' : Nat} (hle : budget ≤ budget')
    (h : (g.render budget job).Returns node) : (g.render budget' job).Returns node :=
  (outcome_render_of_le hle h.ends).trans h

theorem Renders.unique {node' : Node σ} (h : g.Renders job node) (h' : g.Renders job node') :
    node = node' := by
  obtain ⟨b, hb⟩ := h
  obtain ⟨b', hb'⟩ := h'
  exact (returns_render_of_le (Nat.le_max_left b b') hb).unique
    (returns_render_of_le (Nat.le_max_right b b') hb')

theorem exists_budget_of_renders {jobs : List (Job σ)} {nodes : List (Node σ)}
    (h : List.Forall₂ g.Renders jobs nodes) :
    ∃ budget, List.Forall₂ (fun job node ↦ (g.render budget job).Returns node) jobs nodes := by
  induction h with
  | nil => exact ⟨0, .nil⟩
  | cons hjob _ ih =>
    obtain ⟨b, hb⟩ := hjob
    obtain ⟨b', hb'⟩ := ih
    refine ⟨max b b', .cons (returns_render_of_le (Nat.le_max_left b b') hb) ?_⟩
    exact hb'.imp fun _ _ h ↦ returns_render_of_le (Nat.le_max_right b b') h

theorem renders_iff :
    g.Renders job node ↔ ∃ plan nodes, (g.plan job).Returns plan ∧
      List.Forall₂ g.Renders plan.jobs nodes ∧ plan.assemble nodes = node := by
  constructor
  · rintro ⟨budget, h⟩
    cases budget with
    | zero => exact nomatch h
    | succ budget =>
      rw [Returns, outcome_render_succ] at h
      obtain ⟨plan, hplan, h⟩ := bind_eq_ok_iff.mp h
      obtain ⟨nodes, hnodes, h⟩ := Plan.run_eq_ok_iff.mp h
      exact ⟨plan, nodes, hplan, hnodes.imp fun _ _ h ↦ ⟨budget, h⟩, h⟩
  · rintro ⟨plan, nodes, hplan, hnodes, h⟩
    obtain ⟨budget, hbudget⟩ := exists_budget_of_renders hnodes
    refine ⟨budget + 1, ?_⟩
    rw [Returns, outcome_render_succ]
    exact bind_eq_ok_iff.mpr ⟨plan, hplan, Plan.run_eq_ok_iff.mpr ⟨nodes, hbudget, h⟩⟩

/-- **Induction on results.** What assembling keeps holds of every node a job is rendered as. -/
theorem Renders.induction {motive : Job σ → Node σ → Prop}
    (step : ∀ job plan nodes, (g.plan job).Returns plan →
      List.Forall₂ (fun job node ↦ g.Renders job node ∧ motive job node) plan.jobs nodes →
      motive job (plan.assemble nodes))
    (h : g.Renders job node) : motive job node := by
  obtain ⟨budget, h⟩ := h
  induction budget generalizing job node with
  | zero => exact nomatch h
  | succ budget ih =>
    rw [Returns, outcome_render_succ] at h
    obtain ⟨plan, hplan, h⟩ := bind_eq_ok_iff.mp h
    obtain ⟨nodes, hnodes, rfl⟩ := Plan.run_eq_ok_iff.mp h
    exact step job plan nodes hplan (hnodes.imp fun _ _ h ↦ ⟨⟨budget, h⟩, ih h⟩)

/-! ## Halting -/

/-- Given enough budget, rendering the job gives a node or fails with an error. -/
def Halts (g : Generator σ) (job : Job σ) : Prop := ∃ budget, (g.render budget job).Ends

/-- Rendering the first job comes to rendering the second one. -/
def Asks (g : Generator σ) (job job' : Job σ) : Prop :=
  ∃ plan before after, (g.plan job).Returns plan ∧ plan.jobs = before ++ job' :: after ∧
    ∀ earlier ∈ before, ∃ node, g.Renders earlier node

theorem asks_of_jobs_eq_singleton {plan : Plan σ} {job' : Job σ}
    (hplan : (g.plan job).Returns plan) (hjobs : plan.jobs = [job']) : g.Asks job job' :=
  ⟨plan, [], [], hplan, hjobs, fun _ hmem ↦ absurd hmem List.not_mem_nil⟩

theorem not_asks_misplaced {value : Value} {mode : Mode σ} {job : Job σ} :
    ¬g.Asks (.misplaced value mode) job :=
  fun ⟨_, _, _, hplan, _⟩ ↦ nomatch hplan

/-- No infinite chain of requests starts from the job. -/
def Grounded (g : Generator σ) (job : Job σ) : Prop := Acc (fun job' job ↦ g.Asks job job') job

/-- If asking for several jobs under a budget does not give up, then those at the front that can be
rendered at all are rendered under it. -/
theorem returns_of_mapM_ends {budget : Nat} {before after : List (Job σ)}
    (hbefore : ∀ job ∈ before, ∃ node, g.Renders job node)
    (h : (before ++ after).mapM (fun job ↦ (g.render budget job).outcome) ≠ .error .exhausted) :
    ∀ job ∈ before, ∃ node, (g.render budget job).Returns node := by
  induction before with
  | nil => exact fun job hjob ↦ absurd hjob List.not_mem_nil
  | cons job before ih =>
    obtain ⟨⟨node, b, hb⟩, hbefore⟩ := List.forall_mem_cons.mp hbefore
    rw [List.cons_append, List.mapM_cons] at h
    have hends : (g.render budget job).Ends := fun hx ↦ h (bind_eq_error_iff.mpr (.inl hx))
    have hnode : (g.render budget job).Returns node := by
      have hmax := returns_render_of_le (Nat.le_max_left b budget) hb
      rwa [Returns, outcome_render_of_le (Nat.le_max_right b budget) hends] at hmax
    refine List.forall_mem_cons.mpr ⟨⟨node, hnode⟩, ih hbefore fun hrest ↦ h ?_⟩
    exact bind_eq_error_iff.mpr (.inr ⟨node, hnode, bind_eq_error_iff.mpr (.inl hrest)⟩)

/-- A job that does not give up leaves enough budget for the jobs it comes to. -/
theorem ends_of_asks {budget : Nat} {job' : Job σ} (h : (g.render (budget + 1) job).Ends)
    (hask : g.Asks job job') : (g.render budget job').Ends := by
  obtain ⟨plan, before, after, hplan, hjobs, hbefore⟩ := hask
  have hrun : (before ++ job' :: after).mapM (fun job ↦ (g.render budget job).outcome) ≠
      .error .exhausted := by
    rw [← hjobs, ne_eq, ← Plan.run_eq_error_iff, ← outcome_render_of_plan budget hplan]
    exact h
  intro hjob'
  refine hrun (mapM_eq_error_iff.mpr ⟨before, job', after, rfl, ?_, hjob'⟩)
  exact returns_of_mapM_ends hbefore hrun

/-- Jobs that halt as far as they are reached do not give up as a whole, given enough budget. -/
theorem exists_budget_of_halts {jobs : List (Job σ)}
    (h : ∀ before job after, jobs = before ++ job :: after →
      (∀ earlier ∈ before, ∃ node, g.Renders earlier node) → g.Halts job) :
    ∃ budget, jobs.mapM (fun job ↦ (g.render budget job).outcome) ≠ .error .exhausted := by
  induction jobs with
  | nil => exact ⟨0, fun h ↦ nomatch h⟩
  | cons job jobs ih =>
    obtain ⟨b, hb⟩ := h [] job jobs rfl fun _ hmem ↦ absurd hmem List.not_mem_nil
    cases hjob : (g.render b job).outcome with
    | error e =>
      refine ⟨b, fun hx ↦ hb ?_⟩
      rw [List.mapM_cons, hjob] at hx
      rw [hjob]
      exact congrArg Except.error (Except.error.inj hx)
    | ok node =>
      -- the rest is only reached because this job is rendered, so the induction applies to it
      obtain ⟨b', hb'⟩ := ih fun before next after hjobs hbefore ↦
        h (job :: before) next after (congrArg _ hjobs)
          (List.forall_mem_cons.mpr ⟨⟨node, b, hjob⟩, hbefore⟩)
      have hrest : jobs.mapM (fun job ↦ (g.render (max b b') job).outcome) =
          jobs.mapM (fun job ↦ (g.render b' job).outcome) :=
        mapM_congr_of_ends (fun _ _ hx ↦ outcome_render_of_le (Nat.le_max_right b b') hx) hb'
      refine ⟨max b b', ?_⟩
      rw [List.mapM_cons, outcome_render_of_le (Nat.le_max_left b b') hb, hjob, hrest]
      intro hx
      rcases bind_eq_error_iff.mp hx with hx | ⟨_, _, hx⟩
      · exact nomatch hx
      · rcases bind_eq_error_iff.mp hx with hx | ⟨_, _, hx⟩
        · exact hb' hx
        · exact nomatch hx

/-- **A job halts exactly when no infinite chain of requests starts from it.** -/
theorem halts_iff_grounded (hplan : ∀ job, (g.plan job).Ends) :
    g.Halts job ↔ g.Grounded job := by
  constructor
  · rintro ⟨budget, h⟩
    -- every request leaves one less, so a chain is not longer than the budget
    induction budget generalizing job with
    | zero => exact absurd rfl h
    | succ budget ih => exact ⟨job, fun job' hask ↦ ih (ends_of_asks h hask)⟩
  · intro h
    induction h with
    | intro job _ ih =>
      cases hjob : (g.plan job).outcome with
      | error e =>
        -- a job that cannot be planned fails before it asks for anything
        refine ⟨1, fun hx ↦ hplan job ?_⟩
        rw [outcome_render_succ, hjob] at hx
        rw [hjob]
        exact congrArg Except.error (Except.error.inj hx)
      | ok plan =>
        obtain ⟨budget, hbudget⟩ := exists_budget_of_halts fun before job' after hjobs hbefore ↦
          ih job' ⟨plan, before, after, hjob, hjobs, hbefore⟩
        refine ⟨budget + 1, fun hx ↦ hbudget ?_⟩
        rw [outcome_render_of_plan budget hjob] at hx
        exact Plan.run_eq_error_iff.mp hx

end Generator

end Schemata
