import Schemata.Proofs.References
import Schemata.Proofs.Termination

/-!
# Where references come from

Only one step records a reference: an embedded type that nothing gives another form is referenced
when it is not to be spelled out. So every recorded reference can be traced back to a place that the
build met (`Renders.exists_cut`), and in inline mode the mode of that place lists the type. What a
mode lists was listed at the start or is the type of an object around the place. References are
therefore recorded inside the objects of their own types only, whatever is between the object and
the place: containers, wrappers, compositions or overrides.

An object leads to everything that is met inside it, so a type that is referenced in inline mode
leads back to itself. And whatever the mode, only a type that has no other form than its own
definition comes to be referenced.
-/

namespace Schemata

variable {σ : Type}

open Traced

/-! ## References of plans -/

namespace Plan

/-- The references of a node that is known. -/
def known : Plan σ → List (TypeRef σ)
  | finished node => node.references
  | extended _ plan => plan.known
  | _ => []

variable {plan : Plan σ} {nodes : List (Node σ)} {r : TypeRef σ}

theorem mem_references_headD (h : r ∈ (nodes.headD default).references) :
    ∃ node ∈ nodes, r ∈ node.references := by
  cases nodes with
  | nil => exact absurd h List.not_mem_nil
  | cons node nodes => exact ⟨node, List.mem_cons_self, h⟩

theorem mem_references_assemble (h : r ∈ (plan.assemble nodes).references) :
    r ∈ plan.known ∨ ∃ node ∈ nodes, r ∈ node.references := by
  induction plan with
  | finished node => exact .inl h
  | delegated job => exact .inr (mem_references_headD h)
  | composition c mode =>
    obtain ⟨s, hs, hr⟩ := TypeRef.mem_unionAll h
    obtain ⟨node, hnode, rfl⟩ := List.mem_map.mp hs
    exact .inr ⟨node, hnode, hr⟩
  | items element mode => exact .inr (mem_references_headD h)
  | values value mode => exact .inr (mem_references_headD h)
  | object head properties mode =>
    rcases TypeRef.mem_foldl_union h with h | ⟨s, hs, hr⟩
    · exact absurd h List.not_mem_nil
    · obtain ⟨node, hnode, rfl⟩ := List.mem_map.mp hs
      exact .inr ⟨node, hnode, hr⟩
  | extended extra plan ih => exact ih h

theorem known_containerPlan (t : TypeRef σ) (mode : Mode σ) :
    (Generator.containerPlan t mode).known = [] := by
  unfold Generator.containerPlan
  split
  · rfl
  · split <;> rfl
  · rfl
  · rfl

end Plan

namespace Generator

variable {g : Generator σ} {t r : TypeRef σ} {mode : Mode σ} {job job' : Job σ} {node : Node σ}

theorem known_definitionPlan {plan : Plan σ} (h : (g.definitionPlan t mode).Returns plan) :
    plan.known = [] := by
  cases returns_definitionPlan_iff.mp h with
  | override | simple | composed => rfl
  | byKind _ _ _ _ hplan =>
    cases kindCase_of_kindPlan hplan with
    | object | enumeration => rfl
    | container => exact Plan.known_containerPlan t mode

theorem known_referencePlan (h : r ∈ (g.referencePlan t mode).known) :
    r = t ∧ g.simpleType t = none ∧ (mode.inline && !mode.inlining.contains t) = false := by
  unfold referencePlan at h
  split at h
  · exact absurd h List.not_mem_nil
  next hsimple =>
    split at h
    · exact absurd h List.not_mem_nil
    next hmode => exact ⟨List.mem_singleton.mp h, hsimple, Bool.eq_false_iff.mpr hmode⟩

/-- **References are recorded where a type is cut.** -/
theorem cuts_of_mem_known (hbuiltins : g.settings.BuiltinsOnly) {plan : Plan σ}
    (hplan : (g.plan job).Returns plan) (h : r ∈ plan.known) :
    ∃ mode extra, job = .embedded r mode none extra ∧ g.Mentions r mode extra ∧
      g.Cuts r mode extra := by
  cases job with
  | definition t mode =>
    rw [known_definitionPlan hplan] at h
    exact absurd h List.not_mem_nil
  | embedded t mode composition extra =>
    obtain ⟨tags, htags, ⟨u, -, rfl⟩ | ⟨hnone, rfl⟩⟩ := returns_embeddedPlan_iff.mp hplan
    · exact absurd h List.not_mem_nil
    rw [Plan.known] at h
    unfold basePlan at h
    split at h
    next rule hrule =>
      -- a built-in processor renders arguments and knows nothing itself
      obtain ⟨p, hp, hrule⟩ := List.exists_of_findSome?_eq_some hrule
      rcases (hbuiltins p hp).rulePlan_cases hrule with ⟨inner, -, rfl⟩ | rfl
      · exact absurd h List.not_mem_nil
      · exact absurd h List.not_mem_nil
    next hdeclined =>
      cases composition with
      | some c => exact absurd h List.not_mem_nil
      | none =>
        dsimp only at h
        unfold fallbackPlan at h
        split at h
        · rw [Plan.known_containerPlan] at h
          exact absurd h List.not_mem_nil
        next hkind =>
          obtain ⟨rfl, hsimple, hmode⟩ := known_referencePlan h
          simp only [hsimple, Option.isNone_none, Bool.true_and, Bool.or_eq_true,
            decide_eq_true_eq, not_or] at hkind
          have hmentions : g.Mentions r mode extra :=
            ⟨⟨tags, htags, hnone⟩, hdeclined, hsimple, hkind.1, hkind.2⟩
          refine ⟨mode, extra, rfl, hmentions, ?_⟩
          rw [Cuts, Returns, outcome_render_of_plan 0 hmentions.returns_plan]
          unfold referencePlan
          rw [hsimple, hmode]
          rfl
  | misplaced => cases hplan

theorem Cuts.mentions (hbuiltins : g.settings.BuiltinsOnly) {extra : Option Entries}
    (h : g.Cuts t mode extra) : g.Mentions t mode extra := by
  rw [Cuts, Returns, outcome_render_succ] at h
  obtain ⟨plan, hplan, h⟩ := bind_eq_ok_iff.mp h
  obtain ⟨nodes, hnodes, h⟩ := Plan.run_eq_ok_iff.mp h
  have ht : t ∈ (plan.assemble nodes).references := by
    rw [h]
    exact List.mem_singleton_self t
  rcases Plan.mem_references_assemble ht with ht | ⟨node, hnode, -⟩
  · obtain ⟨_, _, hjob, hmentions, -⟩ := cuts_of_mem_known hbuiltins hplan ht
    cases hjob
    exact hmentions
  · -- nothing else can be rendered under the budget of a cut
    obtain ⟨_, _, hrenders⟩ := exists_of_mem_right hnodes hnode
    cases hrenders

/-! ## Tracing references -/

theorem asks_of_mem {plan : Plan σ} {nodes : List (Node σ)} (hplan : (g.plan job).Returns plan)
    (hnodes : List.Forall₂ g.Renders plan.jobs nodes) (h : job' ∈ plan.jobs) :
    g.Asks job job' := by
  obtain ⟨before, after, hjobs⟩ := List.append_of_mem h
  refine ⟨plan, before, after, hplan, hjobs, fun earlier hearlier ↦ ?_⟩
  have hmem : earlier ∈ plan.jobs := by
    rw [hjobs]
    exact List.mem_append_left _ hearlier
  obtain ⟨node, -, hnode⟩ := exists_of_mem_right hnodes.flip hmem
  exact ⟨node, hnode⟩

namespace Meets

variable {root : Job σ} {os cs : List (TypeRef σ)}

theorem asked (h : g.Meets root os cs job) (hask : g.Asks job job') :
    ∃ os' cs', g.Meets root os' cs' job' := by
  by_cases hobject : g.SpellsObject job
  · cases job with
    | definition t mode => exact ⟨t :: os, cs, h.object hobject hask⟩
    | embedded => exact absurd hobject not_spellsObject_embedded
    | misplaced => exact absurd hask not_asks_misplaced
  · obtain ⟨entered, h⟩ := h.next hobject hask
    exact ⟨os, entered ++ cs, h⟩

theorem leads_inside (h : g.Meets root os cs job) {u v : TypeRef σ} (hu : u ∈ os)
    (hv : v ∈ job.types) : Relation.TransGen g.host.Leads u v := by
  induction h generalizing v with
  | root => exact absurd hu List.not_mem_nil
  | @object os cs t mode job h _ hask ih =>
    obtain ⟨plan, -, hjob⟩ := hask.definitionJob
    have hleads : g.host.Leads t v := hjob.leads hv
    rcases List.mem_cons.mp hu with rfl | hu
    · exact .single hleads
    · exact (ih hu List.mem_cons_self).tail hleads
  | composition _ _ hask ih =>
    obtain ⟨w, hw, hwv⟩ := hask.reachable hv
    exact (ih hu hw).trans_left hwv
  | passed _ _ _ hask ih =>
    obtain ⟨w, hw, hwv⟩ := hask.reachable hv
    exact (ih hu hw).trans_left hwv

end Meets

/-- Every reference of a node was cut at a place that rendering the node came to. -/
theorem Renders.exists_cut (hbuiltins : g.settings.BuiltinsOnly) (h : g.Renders job node)
    (hr : r ∈ node.references) {root : Job σ} {os cs : List (TypeRef σ)}
    (hmet : g.Meets root os cs job) :
    ∃ os' cs' mode extra, g.Meets root os' cs' (.embedded r mode none extra) ∧
      g.Mentions r mode extra ∧ g.Cuts r mode extra := by
  refine h.induction (motive := fun job node ↦ r ∈ node.references → ∀ os cs,
    g.Meets root os cs job → ∃ os' cs' mode extra,
      g.Meets root os' cs' (.embedded r mode none extra) ∧ g.Mentions r mode extra ∧
        g.Cuts r mode extra) ?_ hr os cs hmet
  intro job plan nodes hplan hnodes hr os cs hmet
  rcases Plan.mem_references_assemble hr with hr | ⟨node, hnode, hr⟩
  · obtain ⟨mode, extra, rfl, hmentions, hcut⟩ := cuts_of_mem_known hbuiltins hplan hr
    exact ⟨os, cs, mode, extra, hmet, hmentions, hcut⟩
  · obtain ⟨job', hjob', -, hmotive⟩ := exists_of_mem_right hnodes hnode
    obtain ⟨os', cs', hmet'⟩ := hmet.asked
      (asks_of_mem hplan (hnodes.imp fun _ _ h ↦ h.1) hjob')
    exact hmotive hr os' cs' hmet'

/-- In inline mode a type is cut where it was being spelled out at the start, or inside its own
object. -/
theorem Meets.inside_of_cuts (hbuiltins : g.settings.BuiltinsOnly) {root : Job σ}
    (hinline : root.mode.inline = true) {os cs : List (TypeRef σ)} {extra : Option Entries}
    (h : g.Meets root os cs (.embedded t mode none extra)) (hcut : g.Cuts t mode extra) :
    root.mode.inlining.contains t ∨ os.contains t := by
  have hmode : mode.inlining.contains t :=
    ((hcut.mentions hbuiltins).cuts_iff (h.inline_eq.trans hinline)).mp hcut
  rw [← Bool.or_eq_true, ← h.contains_inlining_or]
  exact hmode

end Generator

/-! ## Answers in inline mode -/

namespace Request

/-- The circumstances of a request. -/
def mode (g : Generator σ) : Request σ → Mode σ
  | .build _ inline require => { inline, require := require.getD g.settings.requireNonNulls }
  | .embedded _ mode _ _ => mode
  | .composition _ mode => mode
  | .reference _ mode => mode

/-- How a request is answered. -/
def plan (g : Generator σ) : Request σ → Plan σ
  | .build t inline require =>
    .delegated (.definition t { inline, require := require.getD g.settings.requireNonNulls })
  | .embedded t mode c extra => .delegated (.embedded t mode c extra)
  | .composition c mode => .composition c mode
  | .reference t mode => g.referencePlan t mode

variable {g : Generator σ} {request : Request σ}

theorem mode_of_mem_jobs {job : Job σ} (h : job ∈ (request.plan g).jobs) :
    job.mode = request.mode g := by
  cases request with
  | build | embedded =>
    obtain rfl := List.mem_singleton.mp h
    rfl
  | composition c mode =>
    obtain ⟨u, -, rfl⟩ := List.mem_map.mp h
    rfl
  | reference t mode =>
    rw [plan] at h
    unfold Generator.referencePlan at h
    split at h
    · exact absurd h List.not_mem_nil
    · split at h
      · obtain rfl := List.mem_singleton.mp h
        rfl
      · exact absurd h List.not_mem_nil

theorem contains_of_mem_known (hinline : (request.mode g).inline = true) {r : TypeRef σ}
    (h : r ∈ (request.plan g).known) : (request.mode g).inlining.contains r := by
  cases request with
  | build | embedded | composition => exact absurd h List.not_mem_nil
  | reference t mode =>
    obtain ⟨rfl, -, hmode⟩ := Generator.known_referencePlan h
    rw [show mode.inline = true from hinline, Bool.true_and, Bool.not_eq_false'] at hmode
    exact hmode

end Request

namespace Generator

variable {g : Generator σ} {request : Request σ} {node : Node σ} {budget : Nat}

theorem outcome_answer (g : Generator σ) (budget : Nat) (request : Request σ) :
    (g.answer budget request).outcome =
      (request.plan g).run fun job ↦ (g.render budget job).outcome := by
  have hdelegated : ∀ job : Job σ, (g.render budget job).outcome =
      (Plan.delegated job).run fun job ↦ (g.render budget job).outcome := by
    intro job
    rw [Plan.run_of_jobs_eq_singleton rfl]
    cases (g.render budget job).outcome <;> rfl
  cases request with
  | build t inline require => exact hdelegated _
  | embedded t mode composition extra => exact hdelegated _
  | composition c mode => exact outcome_compose c mode
  | reference t mode => exact outcome_referenceOrInline t mode

/-- The answer refers to a type only from inside the object of the type itself, or because the type
was being spelled out when the request was made. -/
structure CutsInside (g : Generator σ) (request : Request σ) (node : Node σ) : Prop where
  /-- Every recorded reference comes from such a place. -/
  recorded : ∀ r ∈ node.references, (request.mode g).inlining.contains r ∨
    ∃ start ∈ (request.plan g).jobs, ∃ os cs mode extra,
      g.Meets start os cs (.embedded r mode none extra) ∧ g.Cuts r mode extra ∧ os.contains r
  /-- No type is cut at any other place. -/
  inside : ∀ start ∈ (request.plan g).jobs, ∀ os cs t mode extra,
    g.Meets start os cs (.embedded t mode none extra) → g.Cuts t mode extra →
      (request.mode g).inlining.contains t ∨ os.contains t

/-- **References are recorded inside expansions of their types.** -/
theorem cutsInside_of_returns (hbuiltins : g.settings.BuiltinsOnly)
    (hinline : (request.mode g).inline = true) (h : (g.answer budget request).Returns node) :
    g.CutsInside request node := by
  have hinside : ∀ start ∈ (request.plan g).jobs, ∀ os cs t mode extra,
      g.Meets start os cs (.embedded t mode none extra) → g.Cuts t mode extra →
        (request.mode g).inlining.contains t ∨ os.contains t := by
    intro start hstart os cs t mode extra hmet hcut
    rw [← Request.mode_of_mem_jobs hstart] at hinline ⊢
    exact hmet.inside_of_cuts hbuiltins hinline hcut
  refine ⟨fun r hr ↦ ?_, hinside⟩
  obtain ⟨nodes, hnodes, rfl⟩ :=
    Plan.run_eq_ok_iff.mp ((outcome_answer g budget request).symm.trans h)
  rcases Plan.mem_references_assemble hr with hr | ⟨node, hnode, hr⟩
  · exact .inl (Request.contains_of_mem_known hinline hr)
  · obtain ⟨start, hstart, hrenders⟩ := exists_of_mem_right hnodes hnode
    obtain ⟨os, cs, mode, extra, hmet, -, hcut⟩ :=
      Renders.exists_cut hbuiltins ⟨budget, hrenders⟩ hr .root
    refine (hinside start hstart os cs r mode extra hmet hcut).imp_right fun hos ↦ ?_
    exact ⟨start, hstart, os, cs, mode, extra, hmet, hcut, hos⟩

end Generator

/-! ## Types that lead back to themselves -/

/-- The type leads back to itself: from some reference to it, it can be reached again. -/
def Host.Recursive (host : Host σ) (t : TypeRef σ) : Prop :=
  ∃ u, u == t ∧ Relation.TransGen host.Leads u t

/-- A type that an inline build references leads back to itself, and can be reached. -/
theorem Generator.recursive_of_mem_references {g : Generator σ}
    (hbuiltins : g.settings.BuiltinsOnly) {budget : Nat} {t r : TypeRef σ} {require : Option Bool}
    {node : Node σ} (h : (g.build budget t true require).Returns node) (hr : r ∈ node.references) :
    g.host.Recursive r ∧ g.host.Reachable t r := by
  have hroot : g.Meets (inlineRoot t (require.getD g.settings.requireNonNulls)) [] []
      (inlineRoot t (require.getD g.settings.requireNonNulls)) := .root
  obtain ⟨os, cs, mode, extra, hmet, -, hcut⟩ :=
    Renders.exists_cut hbuiltins ⟨budget, h⟩ hr hroot
  have hos : os.contains r := (hmet.inside_of_cuts hbuiltins rfl hcut).resolve_left (nomatch ·)
  obtain ⟨u, hu, hru⟩ := List.contains_iff_exists_mem_beq.mp hos
  have hleads : Relation.TransGen g.host.Leads u r := hmet.leads_inside hu List.mem_cons_self
  obtain ⟨t', ht', hreach⟩ := hmet.reachable (u := r) List.mem_cons_self
  obtain rfl := List.mem_singleton.mp ht'
  exact ⟨⟨u, BEq.symm hru, hleads⟩, hreach⟩

/-! ## What may be referenced -/

namespace Generator

variable {g : Generator σ} {r : TypeRef σ} {request : Request σ} {node : Node σ} {budget : Nat}

theorem Mentions.rulePlan_eq_none {mode : Mode σ} {extra : Option Entries}
    (h : g.Mentions r mode extra) {p : Processor σ} (hp : p ∈ g.settings.chain) :
    rulePlan r mode none extra p.rule = none :=
  List.findSome?_eq_none_iff.mp h.declined p hp

/-- The type has no form but its own definition: no simple type, override, container or built-in
wrapper stands for it. -/
structure Referable (g : Generator σ) (r : TypeRef σ) : Prop where
  simple : g.settings.simpleTypes.get? r.fullName = none
  override : ∃ tags, (g.host.tags r).Returns tags ∧ definedBy tags = .ok none
  array : r.kind ≠ .array
  dictionary : r.kind ≠ .dictionary
  optional : g.settings.includeBuiltins = true →
    ¬(r.fullName = "typing.Optional" ∧ r.generics.length = 1)
  union : g.settings.includeBuiltins = true →
    ¬(r.fullName = "typing.Union" ∧ r.generics ≠ [])

theorem Mentions.referable {mode : Mode σ} {extra : Option Entries}
    (h : g.Mentions r mode extra) : g.Referable r where
  simple := h.simple
  override := h.override
  array := h.array
  dictionary := h.dictionary
  optional := by
    rintro hincluded ⟨hname, hgenerics⟩
    obtain ⟨inner, hinner⟩ := List.length_eq_one_iff.mp hgenerics
    have hnone := h.rulePlan_eq_none (p := .optionalUnwrap ["typing.Optional"])
      (by simp [Settings.chain, hincluded, Processor.builtins])
    simp [Processor.optionalUnwrap, rulePlan, hinner, hname] at hnone
  union := by
    rintro hincluded ⟨hname, hgenerics⟩
    have hnone := h.rulePlan_eq_none (p := .union ["typing.Union"])
      (by simp [Settings.chain, hincluded, Processor.builtins])
    simp [Processor.union, rulePlan, hname, hgenerics] at hnone

/-- **Only types without another form are referenced**, by whatever call that may be answered with a
node. -/
theorem referable_of_mem_references (hbuiltins : g.settings.BuiltinsOnly)
    (hrequest : ∀ t mode, request ≠ .reference t mode)
    (h : (g.answer budget request).Returns node) (hr : r ∈ node.references) : g.Referable r := by
  obtain ⟨nodes, hnodes, rfl⟩ :=
    Plan.run_eq_ok_iff.mp ((outcome_answer g budget request).symm.trans h)
  have hknown : (request.plan g).known = [] := by
    cases request with
    | build | embedded | composition => rfl
    | reference t mode => exact absurd rfl (hrequest t mode)
  rcases Plan.mem_references_assemble hr with hr | ⟨node, hnode, hr⟩
  · rw [hknown] at hr
    exact absurd hr List.not_mem_nil
  · obtain ⟨start, -, hrenders⟩ := exists_of_mem_right hnodes hnode
    obtain ⟨_, _, _, _, -, hmentions, -⟩ :=
      Renders.exists_cut hbuiltins ⟨budget, hrenders⟩ hr .root
    exact hmentions.referable

/-- The reference to books that a shelf is rendered with is to a type without another form. -/
theorem referable_of_mem_references_shelf :
    ∃ node, (Shelves.generator.answer 9 (.build Shelves.shelf false none)).Returns node ∧
      node.references = [Shelves.book] ∧ ∀ r ∈ node.references, Shelves.generator.Referable r := by
  have hbuiltins : Shelves.generator.settings.BuiltinsOnly := Settings.builtinsOnly_of_nil rfl
  have hrequest : ∀ t mode, (.build Shelves.shelf false none : Request Unit) ≠ .reference t mode :=
    nofun
  obtain ⟨node, hnode, hreferences⟩ : ∃ node,
      (Shelves.generator.answer 9 (.build Shelves.shelf false none)).Returns node ∧
        node.references = [Shelves.book] := ⟨_, rfl, rfl⟩
  exact ⟨node, hnode, hreferences,
    fun _ hr ↦ referable_of_mem_references hbuiltins hrequest hnode hr⟩

end Generator

end Schemata
