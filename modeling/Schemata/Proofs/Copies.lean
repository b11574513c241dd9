import Schemata.Proofs.Expansion

/-!
# Copies of inlined types

In inline mode a type is copied into whatever embeds it. A copy is rendered under the circumstances
of its place: the types of the objects around it are being spelled out, and the innermost of these
objects whose tags say what is required decides that for the copy. The first makes no difference to
a copy that leads back to none of the objects (`Generator.outcome_render_within`); the second does.
So a copy comes out as the type would by itself, had the surrounding objects' decision been the
default (`Generator.outcome_copy`).

Circumstances are handed on unchanged by everything but objects. `Plan.mapMode` changes them in a
plan, and a plan made under changed circumstances is the changed plan.
-/

namespace Schemata

variable {σ : Type}

open Traced

/-! ## Changed circumstances -/

/-- The job under changed circumstances. -/
def Job.mapMode (f : Mode σ → Mode σ) : Job σ → Job σ
  | .definition t mode => .definition t (f mode)
  | .embedded t mode composition extra => .embedded t (f mode) composition extra
  | .misplaced value mode => .misplaced value (f mode)

@[simp] theorem Job.mapMode_ofPlace (f : Mode σ → Mode σ) (mode : Mode σ)
    (composition : Option (Composition σ)) (extra : Option Entries) (place : TypePlace σ) :
    (Job.ofPlace mode composition extra place).mapMode f =
      .ofPlace (f mode) composition extra place := by
  cases place <;> rfl

namespace Plan

/-- The plan under changed circumstances. -/
def mapMode (f : Mode σ → Mode σ) : Plan σ → Plan σ
  | finished node => finished node
  | delegated job => delegated (job.mapMode f)
  | composition c mode => composition c (f mode)
  | items element mode => items element (f mode)
  | values value mode => values value (f mode)
  | object head properties mode => object head properties (f mode)
  | extended extra plan => extended extra (plan.mapMode f)

variable {f : Mode σ → Mode σ}

@[simp] theorem jobs_mapMode (f : Mode σ → Mode σ) (plan : Plan σ) :
    (plan.mapMode f).jobs = plan.jobs.map (Job.mapMode f) := by
  induction plan with
  | finished | delegated | items | values => rfl
  | composition =>
    simp only [mapMode, jobs, List.map_map]
    rfl
  | object =>
    simp only [mapMode, jobs, List.map_map]
    exact List.map_congr_left fun p _ ↦ (Job.mapMode_ofPlace f _ _ _ p.type).symm
  | extended extra plan ih => exact ih

@[simp] theorem assemble_mapMode (f : Mode σ → Mode σ) (plan : Plan σ) :
    (plan.mapMode f).assemble = plan.assemble := by
  induction plan with
  | extended extra plan ih =>
    funext nodes
    rw [mapMode, assemble, assemble, ih]
  | _ => rfl

theorem run_mapMode (ask : Job σ → Except Failure (Node σ)) (plan : Plan σ) :
    (plan.mapMode f).run ask = plan.run fun job ↦ ask (job.mapMode f) := by
  rw [run, run, jobs_mapMode, assemble_mapMode, List.mapM_map]
  rfl

end Plan

namespace Generator

variable {g : Generator σ} {t : TypeRef σ} {mode : Mode σ} {f : Mode σ → Mode σ}

/-! ## Plans under changed circumstances -/

theorem containerPlan_mapMode (t : TypeRef σ) (mode : Mode σ) :
    containerPlan t (f mode) = (containerPlan t mode).mapMode f := by
  unfold containerPlan
  split
  · rfl
  · split <;> rfl
  · rfl
  · rfl

theorem rulePlan_mapMode {rule : ProcessorRule σ} (hrule : rule.IsBuiltin) (t : TypeRef σ)
    (mode : Mode σ) (composition : Option (Composition σ)) (extra : Option Entries) :
    rulePlan t (f mode) composition extra rule =
      (rulePlan t mode composition extra rule).map (Plan.mapMode f) := by
  cases rule with
  | unwrap names =>
    dsimp only [rulePlan]
    split
    · split <;> rfl
    · rfl
  | anyOfArguments names =>
    dsimp only [rulePlan]
    split <;> rfl
  | _ => exact absurd hrule id

theorem referencePlan_mapMode (hinline : (f mode).inline = mode.inline)
    (hinlining : (f mode).inlining.contains t = mode.inlining.contains t) :
    g.referencePlan t (f mode) = (g.referencePlan t mode).mapMode f := by
  unfold referencePlan
  rw [hinline, hinlining]
  split
  · rfl
  · split <;> rfl

theorem basePlan_mapMode (hbuiltins : g.settings.BuiltinsOnly)
    (hinline : (f mode).inline = mode.inline)
    (hinlining : (f mode).inlining.contains t = mode.inlining.contains t)
    (composition : Option (Composition σ)) (extra : Option Entries) :
    g.basePlan t (f mode) composition extra = (g.basePlan t mode composition extra).mapMode f := by
  have hchain : g.settings.chain.findSome?
        (fun p ↦ rulePlan t (f mode) composition extra p.rule) =
      (g.settings.chain.findSome? fun p ↦ rulePlan t mode composition extra p.rule).map
        (Plan.mapMode f) := by
    rw [List.map_findSome?]
    have hrules := hbuiltins
    unfold Settings.BuiltinsOnly at hrules
    generalize g.settings.chain = chain at hrules
    induction chain with
    | nil => rfl
    | cons p chain ih =>
      obtain ⟨hp, hchain⟩ := List.forall_mem_cons.mp hrules
      rw [List.findSome?_cons, List.findSome?_cons, rulePlan_mapMode hp, ih hchain]
      rfl
  unfold basePlan
  rw [hchain]
  cases g.settings.chain.findSome? fun p ↦ rulePlan t mode composition extra p.rule with
  | some plan => rfl
  | none =>
    cases composition with
    | some c => rfl
    | none =>
      dsimp only [Option.map]
      unfold fallbackPlan
      split
      · exact containerPlan_mapMode t mode
      · exact referencePlan_mapMode hinline hinlining

theorem outcome_embeddedPlan_mapMode (hbuiltins : g.settings.BuiltinsOnly)
    (hinline : (f mode).inline = mode.inline)
    (hinlining : (f mode).inlining.contains t = mode.inlining.contains t)
    (composition : Option (Composition σ)) (extra : Option Entries) :
    (g.embeddedPlan t (f mode) composition extra).outcome =
      Plan.mapMode f <$> (g.embeddedPlan t mode composition extra).outcome := by
  rw [embeddedPlan, embeddedPlan]
  simp only [outcome_bind, map_bind]
  refine bind_congr fun tags ↦ bind_congr fun override ↦ ?_
  cases override with
  | some u => rfl
  | none =>
    rw [basePlan_mapMode hbuiltins hinline hinlining]
    rfl

/-- A definition is planned alike under changed circumstances if it is as an object. Objects may
change in further ways. -/
theorem outcome_definitionPlan_of_object {F : Plan σ → Plan σ}
    (hF : ∀ plan, (∀ head ps inner, plan ≠ .object head ps inner) → F plan = plan.mapMode f)
    (hobject : ∀ tags, (g.host.tags t).Returns tags →
      (g.objectPlan t tags (f mode)).outcome = F <$> (g.objectPlan t tags mode).outcome) :
    (g.definitionPlan t (f mode)).outcome = F <$> (g.definitionPlan t mode).outcome := by
  have hok : ∀ plan, (∀ head ps inner, plan ≠ .object head ps inner) →
      (.ok (plan.mapMode f) : Except Failure (Plan σ)) = F <$> .ok plan :=
    fun plan hplan ↦ congrArg Except.ok (hF plan hplan).symm
  rw [definitionPlan, definitionPlan, outcome_bind, outcome_bind, map_bind]
  cases htags : (g.host.tags t).outcome with
  | error e => rfl
  | ok tags =>
    change (_ : Traced _).outcome = F <$> (_ : Traced _).outcome
    rw [outcome_bind, outcome_bind, map_bind]
    refine bind_congr fun override ↦ ?_
    cases override with
    | some u => exact hok (.delegated (.definition u mode)) (by simp)
    | none =>
      cases g.simpleType t with
      | some s => exact hok (.finished ⟨s.schema, []⟩) (by simp)
      | none =>
        dsimp only
        rw [outcome_bind, outcome_bind, map_bind]
        refine bind_congr fun composition ↦ ?_
        cases composition with
        | some c => exact hok (.composition c mode) (by simp)
        | none =>
          dsimp only
          rcases g.kindPlan_cases t tags with hcase | hcase | hcase
          · rw [hcase, hcase]
            exact hobject tags htags
          · rw [hcase, hcase, outcome_map]
            cases (g.enumeration t).outcome with
            | error e => rfl
            | ok node => exact hok (.finished node) (by simp)
          · rw [hcase, hcase, containerPlan_mapMode]
            exact hok _ fun _ _ _ ↦ containerPlan_ne_object

end Generator

/-! ## Copies inside other types -/

/-- The same circumstances inside types that are being spelled out. -/
def Mode.within (around : List (TypeRef σ)) (mode : Mode σ) : Mode σ :=
  { mode with inlining := around ++ mode.inlining }

namespace Generator

variable {g : Generator σ} {t : TypeRef σ} {mode : Mode σ} {job : Job σ}
  {around : List (TypeRef σ)}

theorem contains_within (ht : around.contains t = false) :
    (mode.within around).inlining.contains t = mode.inlining.contains t := by
  rw [Mode.within, List.contains_append, ht, Bool.false_or]

theorem outcome_objectPlan_within (ht : around.contains t = false) (tags : List (Tag σ)) :
    (g.objectPlan t tags (mode.within around)).outcome =
      Plan.mapMode (Mode.within around) <$> (g.objectPlan t tags mode).outcome := by
  rw [objectPlan, objectPlan]
  simp only [outcome_bind, map_bind]
  refine bind_congr fun extra ↦ bind_congr fun properties ↦ ?_
  -- the object is added behind the types around it
  rw [Mode.within, TypeRef.insertNew_append ht]
  rfl

theorem outcome_plan_within (hbuiltins : g.settings.BuiltinsOnly)
    (h : ∀ t ∈ job.types, around.contains t = false) :
    (g.plan (job.mapMode (Mode.within around))).outcome =
      Plan.mapMode (Mode.within around) <$> (g.plan job).outcome := by
  cases job with
  | definition t mode =>
    have ht : around.contains t = false := h t List.mem_cons_self
    exact outcome_definitionPlan_of_object (fun _ _ ↦ rfl) fun tags _ ↦
      outcome_objectPlan_within ht tags
  | embedded t mode composition extra =>
    have ht : around.contains t = false := h t List.mem_cons_self
    exact outcome_embeddedPlan_mapMode (f := Mode.within around) hbuiltins rfl (contains_within ht)
      composition extra
  | misplaced => rfl

/-- **The types around a job make no difference** if nothing that can be reached leads back to
them. -/
theorem outcome_render_within (hbuiltins : g.settings.BuiltinsOnly) (budget : Nat)
    (h : ∀ t ∈ job.types, ∀ u, g.host.Reachable t u → around.contains u = false) :
    (g.render budget (job.mapMode (Mode.within around))).outcome =
      (g.render budget job).outcome := by
  induction budget generalizing job with
  | zero => rfl
  | succ budget ih =>
    rw [outcome_render_succ, outcome_render_succ,
      outcome_plan_within hbuiltins fun t ht ↦ h t ht t .refl]
    cases hplan : (g.plan job).outcome with
    | error e => rfl
    | ok plan =>
      change (plan.mapMode (Mode.within around)).run _ = plan.run _
      rw [Plan.run_mapMode]
      refine Plan.run_congr fun job' hjob' ↦ ih fun u hu v huv ↦ ?_
      obtain ⟨t, ht, htu⟩ := reachable_of_mem_jobs hplan hjob' hu
      exact h t ht v (htu.trans huv)

/-! ## What is required inside objects -/

end Generator

/-- What is required inside the objects of these types, the innermost first, given the default. -/
def Host.requireInside (host : Host σ) (default : Bool) : List (TypeRef σ) → Bool
  | [] => default
  | t :: around =>
    match (host.tags t).outcome with
    | .ok tags => Generator.requireOf tags (host.requireInside default around)
    | .error _ => host.requireInside default around

theorem Host.requireInside_cons {host : Host σ} {default : Bool} {t : TypeRef σ}
    {around : List (TypeRef σ)} {tags : List (Tag σ)} (htags : (host.tags t).Returns tags) :
    host.requireInside default (t :: around) =
      Generator.requireOf tags (host.requireInside default around) := by
  rw [requireInside, show (host.tags t).outcome = .ok tags from htags]

namespace Generator

variable {g : Generator σ} {t : TypeRef σ} {mode inner : Mode σ} {job : Job σ} {head : Entries}
  {ps : List (Property σ)}

/-- The innermost object around a job whose tags say what is required decides it. -/
theorem Meets.require_eq {root : Job σ} {os cs : List (TypeRef σ)} (h : g.Meets root os cs job) :
    job.mode.require = g.host.requireInside root.mode.require os := by
  refine h.mode_induction (motive := fun os mode ↦
    mode.require = g.host.requireInside root.mode.require os) rfl ?_
  intro os t mode job hobject hask ih
  obtain ⟨head, ps, inner, hplan⟩ := hobject
  obtain ⟨tags, hspells⟩ := exists_spellsWith hplan
  obtain ⟨plan, hplan', hjob⟩ := hask.definitionJob
  obtain rfl := hplan'.unique hplan
  rw [Host.requireInside_cons hspells.returns_tags, ← ih]
  cases hjob with
  | property =>
    rw [Plan.ofProperty, Job.mode_ofPlace, hspells.inner_eq]

/-- **Copies are builds under the surrounding decision.** A type that is met inside objects it does
not lead back to comes out as it would by itself if what is required there were the default. -/
theorem outcome_copy (hbuiltins : g.settings.BuiltinsOnly) {root : Job σ}
    (hinline : root.mode.inline = true) (hstart : root.mode.inlining = [])
    {os cs : List (TypeRef σ)} (h : g.Meets root os cs (.definition t mode))
    (hback : ∀ u, g.host.Reachable t u → os.contains u = false) (budget : Nat) :
    (g.render budget (.definition t mode)).outcome =
      (g.build budget t true (some (g.host.requireInside root.mode.require os))).outcome := by
  have hmode : mode = Mode.within mode.inlining
      { inline := true, require := g.host.requireInside root.mode.require os } := by
    rw [← h.require_eq, ← h.inline_eq.trans hinline]
    simp only [Mode.within, Job.mode, List.append_nil]
  have haround : ∀ u, g.host.Reachable t u → mode.inlining.contains u = false :=
    fun u hu ↦ (h.contains_inlining hstart u).trans (hback u hu)
  have htypes : ∀ (m : Mode σ), ∀ v ∈ (Job.definition t m).types, ∀ u, g.host.Reachable v u →
      mode.inlining.contains u = false := by
    intro m v hv u hu
    obtain rfl := List.mem_singleton.mp hv
    exact haround u hu
  conv_lhs => rw [hmode]
  exact outcome_render_within hbuiltins budget (htypes _)

end Generator

end Schemata
