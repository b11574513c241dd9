import Schemata.Proofs.Entries
import Schemata.Proofs.Plan

/-!
# Steps follow plans

`outcome_step` says that a rendering step is planning, followed by rendering the jobs of the plan in
order, followed by assembling their nodes. The step itself interleaves records with rendering, so
the two are equal in their outcomes and not in their logs. Everything proved about rendering goes
through this equation.

There is one lemma for each function that a step is made of. The only loop is the one over the
properties of an object, which looks at the body built so far to find names that are taken; a plan
drops the repeated names beforehand.
-/

namespace Schemata

variable {σ : Type} {g : Generator σ} {render : Job σ → Traced (Node σ)}

open Traced

/-! ## Running plans -/

namespace Plan

theorem run_of_jobs_eq_singleton {ask : Job σ → Except Failure (Node σ)} {plan : Plan σ}
    {job : Job σ} (h : plan.jobs = [job]) :
    plan.run ask = ask job >>= fun node ↦ .ok (plan.assemble [node]) := by
  rw [run, h, List.mapM_cons, List.mapM_nil]
  cases ask job <;> rfl

theorem run_extended (ask : Job σ → Except Failure (Node σ)) (extra : Entries)
    (plan : Plan σ) :
    (extended extra plan).run ask = plan.run ask >>= fun node ↦
      .ok ⟨Extension.merge node.schema extra, node.references⟩ := by
  rw [run, run, jobs]
  cases plan.jobs.mapM ask <;> rfl

/-- A body with one more property. -/
def extend (body : Generator.Body σ) (p : Property σ) (node : Node σ) : Generator.Body σ where
  properties := body.properties ++ [(.str p.name, .map node.schema)]
  required := if p.required then body.required ++ [p.name] else body.required
  references := TypeRef.union body.references node.references

theorem bodyFrom_cons (body : Generator.Body σ) (p : Property σ) (ps : List (Property σ))
    (node : Node σ) (nodes : List (Node σ)) :
    bodyFrom body (p :: ps) (node :: nodes) = bodyFrom (extend body p node) ps nodes := by
  rw [bodyFrom, bodyFrom, extend, List.zipWith_cons_cons, List.append_cons, List.filter_cons]
  split <;> simp

end Plan

/-! ## Embedding -/

theorem outcome_embedAll (mode : Mode σ) (ts : List (TypeRef σ)) :
    (Generator.embedAll render mode ts).outcome =
      (fun nodes ↦ (nodes.map (.map ·.schema), TypeRef.unionAll (nodes.map (·.references)))) <$>
        (ts.map (Plan.plain mode)).mapM fun job ↦ (render job).outcome := by
  induction ts with
  | nil => rfl
  | cons t ts ih =>
    rw [Generator.embedAll, Generator.embed, outcome_bind, List.map_cons, List.mapM_cons]
    simp only [outcome_bind, ih, outcome_pure, map_eq_pure_bind, bind_assoc, pure_bind]
    rfl

theorem outcome_compose (c : Composition σ) (mode : Mode σ) :
    (Generator.compose render c mode).outcome =
      (Plan.composition c mode).run fun job ↦ (render job).outcome := by
  rw [Generator.compose, outcome_bind, outcome_embedAll, Plan.run, Plan.jobs]
  simp only [outcome_pure, map_eq_pure_bind, bind_assoc, pure_bind]
  rfl

theorem outcome_container (t : TypeRef σ) (mode : Mode σ) :
    (Generator.container render t mode).outcome =
      (Generator.containerPlan t mode).run fun job ↦ (render job).outcome := by
  obtain ⟨f, s, kind, generics, handle⟩ := t
  have hitems : ∀ (element : TypeRef σ) (rest : List (TypeRef σ)),
      (Generator.container render ⟨f, s, .array, element :: rest, handle⟩ mode).outcome =
        (Generator.containerPlan ⟨f, s, .array, element :: rest, handle⟩ mode).run
          fun job ↦ (render job).outcome := by
    intro element rest
    unfold Generator.container Generator.containerPlan
    by_cases hb : SimpleType.binaryElements.contains element.simpleName
    · dsimp only
      rw [if_pos hb, if_pos hb]
      rfl
    · dsimp only
      rw [if_neg hb, if_neg hb, outcome_bind, Plan.run_of_jobs_eq_singleton rfl]
      rfl
  have hvalues : ∀ value : TypeRef σ,
      (do
        let values ← Generator.embed render value mode
        return ⟨[(.str "type", .str "object"), (.str "additionalProperties", .map values.schema)],
          values.references⟩ : Traced (Node σ)).outcome =
        (Plan.values value mode).run fun job ↦ (render job).outcome := by
    intro value
    rw [outcome_bind, Plan.run_of_jobs_eq_singleton rfl]
    rfl
  -- only an array looks at its first argument, and only the other kinds at the second one
  rcases generics with _ | ⟨key, _ | ⟨value, rest⟩⟩
  · cases kind <;> rfl
  · cases kind
    case array => exact hitems key []
    all_goals rfl
  · cases kind
    case array => exact hitems key (value :: rest)
    all_goals exact hvalues value

theorem outcome_referenceOrInline (t : TypeRef σ) (mode : Mode σ) :
    (g.referenceOrInline render t mode).outcome =
      (g.referencePlan t mode).run fun job ↦ (render job).outcome := by
  unfold Generator.referenceOrInline Generator.referencePlan
  cases g.simpleType t with
  | some s => rfl
  | none =>
    dsimp only
    split
    · rw [Plan.run_of_jobs_eq_singleton rfl]
      cases (render (.definition t mode)).outcome <;> rfl
    · rfl

theorem outcome_fallback (t : TypeRef σ) (mode : Mode σ) :
    (g.fallback render t mode).outcome =
      (g.fallbackPlan t mode).run fun job ↦ (render job).outcome := by
  unfold Generator.fallback Generator.fallbackPlan
  split
  · exact outcome_container t mode
  · exact outcome_referenceOrInline t mode

/-! ## Processors -/

/-- What a processor does is its plan, if it takes the type at all. -/
theorem outcome_process (rule : ProcessorRule σ) (t : TypeRef σ) (mode : Mode σ)
    (composition : Option (Composition σ)) (extra : Option Entries) :
    (Generator.process render rule t mode composition extra).outcome =
      match Generator.rulePlan t mode composition extra rule with
      | some plan => some <$> plan.run fun job ↦ (render job).outcome
      | none => .ok none := by
  cases rule with
  | declines => rfl
  | unwrap names =>
    unfold Generator.process Generator.rulePlan
    rcases composition with _ | c
    · rcases t.generics with _ | ⟨inner, _ | ⟨second, rest⟩⟩
      · rfl
      · dsimp only
        by_cases hname : names.contains t.fullName
        · rw [if_pos hname, if_pos hname, Generator.embed, outcome_map]
          dsimp only
          rw [Plan.run_of_jobs_eq_singleton rfl]
          cases (render (.embedded inner mode none none)).outcome <;> rfl
        · rw [if_neg hname, if_neg hname]
          rfl
      · rfl
    · rfl
  | anyOfArguments names =>
    rw [Generator.process, Generator.rulePlan]
    split
    · rw [outcome_map, outcome_compose]
    · rfl
  | itemsOf selector =>
    unfold Generator.process Generator.rulePlan
    rcases t.generics with _ | ⟨first, rest⟩
    · rfl
    · dsimp only
      by_cases hsel : selector.selects t
      · rw [if_pos hsel, if_pos hsel, Generator.embed, outcome_bind]
        dsimp only
        rw [Plan.run_of_jobs_eq_singleton rfl]
        cases (render (.embedded first mode none none)).outcome <;> rfl
      · rw [if_neg hsel, if_neg hsel]
        rfl
  | constant name schema references =>
    rw [Generator.process, Generator.rulePlan]
    split <;> rfl
  | circumstances name =>
    rw [Generator.process, Generator.rulePlan]
    split <;> rfl

theorem outcome_processFirst (t : TypeRef σ) (mode : Mode σ)
    (composition : Option (Composition σ)) (extra : Option Entries) (chain : List (Processor σ)) :
    (Generator.processFirst render t mode composition extra chain).outcome =
      match chain.findSome? fun p ↦ Generator.rulePlan t mode composition extra p.rule with
      | some plan => some <$> plan.run fun job ↦ (render job).outcome
      | none => .ok none := by
  induction chain with
  | nil => rfl
  | cons p chain ih =>
    rw [Generator.processFirst, outcome_bind, outcome_process, List.findSome?_cons]
    cases Generator.rulePlan t mode composition extra p.rule with
    | some plan =>
      dsimp only
      cases plan.run fun job ↦ (render job).outcome <;> rfl
    | none => exact ih

/-! ## Definitions -/

/-- The properties of an object: each name once, and the names that are taken not at all. -/
theorem outcome_foldlM_addProperty (t : TypeRef σ) (mode : Mode σ) (ps : List (Property σ))
    (body : Generator.Body σ) (taken : List String)
    (h : ∀ name, Value.hasKey body.properties (.str name) = taken.contains name) :
    (ps.foldlM (Generator.addProperty render t mode) body).outcome =
      Plan.bodyFrom body (Property.firsts taken ps) <$>
        ((Property.firsts taken ps).map (Plan.ofProperty mode)).mapM
          fun job ↦ (render job).outcome := by
  induction ps generalizing body taken with
  | nil =>
    refine congrArg Except.ok ?_
    simp [Plan.bodyFrom, Property.firsts]
  | cons p ps ih =>
    rw [List.foldlM_cons, outcome_bind, Generator.addProperty, Property.firsts, h]
    by_cases hp : taken.contains p.name
    · -- a repeated name is only logged, so the body stays as it is
      rw [if_pos hp, if_pos hp, outcome_bind]
      exact ih body taken h
    · rw [if_neg hp, if_neg hp, outcome_bind, List.map_cons, List.mapM_cons]
      cases (render (Plan.ofProperty mode p)).outcome with
      | error e => rfl
      | ok node =>
        have htaken : ∀ name, Value.hasKey (Plan.extend body p node).properties (.str name) =
            (taken ++ [p.name]).contains name := by
          intro name
          rw [Plan.extend, Value.hasKey_append_str, h, List.contains_append, List.contains_cons,
            List.contains_nil, Bool.or_false, BEq.comm]
        refine (ih (Plan.extend body p node) (taken ++ [p.name]) htaken).trans ?_
        simp only [map_eq_pure_bind, bind_assoc, pure_bind, Plan.bodyFrom_cons]
        rfl

theorem outcome_object (t : TypeRef σ) (tags : List (Tag σ)) (mode : Mode σ) :
    (g.object render t tags mode).outcome =
      (g.objectPlan t tags mode).outcome >>= fun plan ↦ plan.run fun job ↦ (render job).outcome := by
  rw [Generator.object, Generator.objectPlan]
  simp only [outcome_bind, bind_assoc]
  refine bind_congr fun extra ↦ bind_congr fun properties ↦ ?_
  rw [outcome_foldlM_addProperty t _ properties {} [] fun _ ↦ rfl]
  simp only [map_eq_pure_bind, bind_assoc, pure_bind]
  rfl

theorem outcome_define (t : TypeRef σ) (mode : Mode σ) :
    (g.define render t mode).outcome =
      (g.definitionPlan t mode).outcome >>= fun plan ↦ plan.run fun job ↦ (render job).outcome := by
  rw [Generator.define, Generator.definitionPlan]
  simp only [outcome_bind, bind_assoc]
  refine bind_congr fun tags ↦ bind_congr fun override ↦ ?_
  cases override with
  | some u =>
    refine Eq.trans ?_ (Plan.run_of_jobs_eq_singleton rfl).symm
    cases (render (.definition u mode)).outcome <;> rfl
  | none =>
    cases g.simpleType t with
    | some s => rfl
    | none =>
      simp only [outcome_bind, bind_assoc]
      refine bind_congr fun composition ↦ ?_
      cases composition with
      | some c => exact outcome_compose c mode
      | none =>
        unfold Generator.kindPlan
        cases t.kind with
        | enum =>
          simp only [outcome_map]
          cases (g.enumeration t).outcome <;> rfl
        | array => exact outcome_container t mode
        | dictionary => exact outcome_container t mode
        | object => exact outcome_object t tags mode
        | primitive => exact outcome_object t tags mode

theorem outcome_embedStep (t : TypeRef σ) (mode : Mode σ)
    (composition : Option (Composition σ)) (extra : Option Entries) :
    (g.embedStep render t mode composition extra).outcome =
      (g.embeddedPlan t mode composition extra).outcome >>= fun plan ↦
        plan.run fun job ↦ (render job).outcome := by
  rw [Generator.embedStep, Generator.embeddedPlan]
  simp only [outcome_bind, bind_assoc]
  refine bind_congr fun tags ↦ bind_congr fun override ↦ ?_
  cases override with
  | some u =>
    refine Eq.trans ?_ (Plan.run_of_jobs_eq_singleton rfl).symm
    cases (render (.embedded u mode composition extra)).outcome <;> rfl
  | none =>
    refine Eq.trans ?_ (Plan.run_extended _ _ _).symm
    dsimp only
    -- the first rule with a plan is the first processor that does not decline
    rw [outcome_bind, outcome_processFirst]
    unfold Generator.basePlan
    cases g.settings.chain.findSome? fun p ↦
        Generator.rulePlan t mode composition extra p.rule with
    | some plan =>
      dsimp only
      cases plan.run fun job ↦ (render job).outcome <;> rfl
    | none =>
      cases composition with
      | some c => exact (outcome_bind _ _).trans (congrArg (· >>= _) (outcome_compose c mode))
      | none => exact (outcome_bind _ _).trans (congrArg (· >>= _) (outcome_fallback t mode))

/-! ## Steps -/

/-- A step is planning, then rendering the jobs of the plan in order, then assembling their nodes.
The step records what it does between one job and the next, so this is about outcomes alone. -/
theorem outcome_step (job : Job σ) :
    (g.step render job).outcome =
      (g.plan job).outcome >>= fun plan ↦ plan.run fun job ↦ (render job).outcome := by
  cases job with
  | definition t mode => exact outcome_define t mode
  | embedded t mode composition extra => exact outcome_embedStep t mode composition extra
  | misplaced => rfl

end Schemata
