import Schemata.Proofs.Copies
import Schemata.Proofs.Cuts
import Schemata.Proofs.Memberwise
import Schemata.Proofs.Requirements

/-!
# Requirements that follow the default

Whether properties are required is decided by a flag that every object hands on to what it spells
out, unless its tags decide otherwise. The flag changes nothing about a build but the lists under
`required`: with the flag off, the same properties are extracted, the same jobs are rendered and the
same schemas are put together, with no list where there was one.

So a build with the flag and one without it require the same exactly if no object that inherits the
flag has a property that could be required (`Generator.sameRequired_iff`), and then they are equal.
With what is known about copies this settles what the tags of an object mean for the types that are
spelled out inside it: these tags take the place of the default there.
-/

namespace Schemata

variable {σ : Type}

open Traced

/-! ## Without the flag -/

/-- The circumstances with nothing required by default. -/
def Mode.optional (mode : Mode σ) : Mode σ := { mode with require := false }

namespace Property

variable {host : Host σ} {settings : Settings σ} {t : TypeRef σ}

/-- The property, not required. -/
def optional (p : Property σ) : Property σ := { p with required := false }

theorem Makes.optional {verbatim require : Bool} {m : Member σ} {p : Property σ}
    (h : Makes verbatim require m p) : Makes verbatim false m p.optional where
  named := h.named
  typed := h.typed
  composition := h.composition
  required := (nomatch ·)
  notRequired _ := rfl
  extra := h.extra

theorem Makes.exists_of_optional {verbatim : Bool} {m : Member σ} {p : Property σ}
    (h : Makes verbatim false m p) (htype : ∀ v, ¬Typed m (.other v)) (require : Bool) :
    ∃ p', Makes verbatim require m p' := by
  cases require with
  | false => exact ⟨p, h⟩
  | true =>
    cases hplace : p.type with
    | other v => exact absurd (hplace ▸ h.typed) (htype v)
    | type t =>
      exact ⟨{ p with required := t.isPrimitive || (Tag.find? m.tags "NotNull").isSome },
        h.named, h.typed, h.composition, fun _ ↦ ⟨t, hplace, rfl⟩, (nomatch ·), h.extra⟩

theorem takesPart_congr_require (require require' : Bool) {floor : Option Visibility}
    {verbatim : Bool} {m : Member σ} : TakesPart host settings ⟨t, floor, verbatim, require⟩ m ↔
      TakesPart host settings ⟨t, floor, verbatim, require'⟩ m := by
  rw [takesPart_iff, takesPart_iff, passes_iff, passes_iff]
  rfl

theorem returns_extract_optional {require : Bool} {ps : List (Property σ)}
    (h : (extract host settings t require).Returns ps) :
    (extract host settings t false).Returns (ps.map optional) := by
  obtain ⟨floor, verbatim, ms, cs, declared, hread, hms, hcs, hmakes, rfl⟩ := exists_readAs h
  refine (returns_extract_iff hread hms hcs).mpr ⟨declared.map optional, ?_, ?_⟩
  · simp only [takesPart_congr_require false require]
    exact List.forall₂_map_right_iff.mpr (hmakes.imp fun _ _ h ↦ h.optional)
  · rw [List.map_append, List.map_map]
    rfl

end Property

/-- What stands in the place of the types of the members of a type are types. -/
def Host.PlacesTypes (host : Host σ) (t : TypeRef σ) : Prop :=
  ∀ ms, (host.members t).Returns ms → ∀ m ∈ ms, ∀ v, ¬Property.Typed m (.other v)

namespace Property

variable {host : Host σ} {settings : Settings σ} {t : TypeRef σ}

theorem exists_extract_of_optional (hplaces : host.PlacesTypes t) {ps : List (Property σ)}
    (h : (extract host settings t false).Returns ps) (require : Bool) :
    ∃ ps', (extract host settings t require).Returns ps' := by
  obtain ⟨floor, verbatim, ms, cs, declared, hread, hms, hcs, hmakes, rfl⟩ := exists_readAs h
  obtain ⟨declared', hmakes'⟩ : ∃ declared', List.Forall₂ (Makes verbatim require)
      (ms.filter (TakesPart host settings ⟨t, floor, verbatim, false⟩ ·)) declared' := by
    refine exists_forall₂ fun m hm ↦ ?_
    obtain ⟨p, -, hp⟩ := exists_of_mem_right hmakes.flip hm
    exact hp.exists_of_optional (hplaces ms hms m (List.mem_filter.mp hm).1) require
  refine ⟨_, (returns_extract_iff hread hms hcs).mpr ⟨declared', ?_, rfl⟩⟩
  simp only [takesPart_congr_require require false]
  exact hmakes'

theorem firsts_map_optional (taken : List String) (ps : List (Property σ)) :
    firsts taken (ps.map optional) = (firsts taken ps).map optional := by
  induction ps generalizing taken with
  | nil => rfl
  | cons p ps ih =>
    rw [List.map_cons, firsts, firsts, show p.optional.name = p.name from rfl, ih, ih]
    split <;> rfl

end Property

/-- What the tags say about what is required. -/
def Tag.decision? (tags : List (Tag σ)) : Option (TagValue σ) :=
  (Tag.find? tags "JsonSchema").bind (·.get? "require_non_nulls")

/-- Whether the tags of a type that is planned by itself say what is required in its object. -/
def Job.decided (host : Host σ) : Job σ → Bool
  | .definition t _ => ((host.tags t).outcome.toOption.bind Tag.decision?).isSome
  | _ => false

theorem Job.decided_of_returns {host : Host σ} {t : TypeRef σ} {tags : List (Tag σ)}
    (htags : (host.tags t).Returns tags) (mode : Mode σ) :
    (Job.definition t mode).decided host = (Tag.decision? tags).isSome := by
  rw [decided, show (host.tags t).outcome = .ok tags from htags]
  rfl

namespace Plan

/-- The plan without the flag: an object requires none of its properties, and everything else is
handed on. -/
def optional : Plan σ → Plan σ
  | object head ps mode => object head (ps.map Property.optional) mode.optional
  | plan => plan.mapMode Mode.optional

/-- The plan without the flag, given whether tags decide. -/
def optionalUnless (decided : Bool) : Plan σ → Plan σ
  | object head ps mode => if decided then object head ps mode else (object head ps mode).optional
  | plan => plan.optional

variable {plan : Plan σ}

theorem jobs_optional (plan : Plan σ) :
    plan.optional.jobs = plan.jobs.map (Job.mapMode Mode.optional) := by
  cases plan with
  | object head ps mode =>
    rw [optional, jobs, jobs, List.map_map, List.map_map]
    exact List.map_congr_left fun p _ ↦ (Job.mapMode_ofPlace Mode.optional _ _ _ p.type).symm
  | _ => exact jobs_mapMode _ _

theorem step_mapMode (f : Mode σ → Mode σ) (plan : Plan σ) :
    (plan.mapMode f).step = plan.step := by
  induction plan with
  | extended extra plan ih =>
    funext i
    exact congrFun ih i
  | _ => rfl

theorem step_optional (plan : Plan σ) : plan.optional.step = plan.step := by
  cases plan with
  | object => rfl
  | _ => exact step_mapMode _ _

theorem Transparent.mapMode (f : Mode σ → Mode σ) (h : plan.Transparent) :
    (plan.mapMode f).Transparent := by
  induction plan with
  | extended extra plan ih => exact ⟨h.1, ih h.2⟩
  | object => exact h
  | _ => exact trivial

theorem Transparent.optional (h : plan.Transparent) : plan.optional.Transparent := by
  cases plan with
  | object => exact h
  | _ => exact h.mapMode Mode.optional

/-- An object lists what its body requires, if that is anything. -/
theorem required_mem_objectSchema {head : Entries} {body : Generator.Body σ}
    (hhead : ∀ v, (.str "required", v) ∉ head) (v : Value) :
    (.str "required", v) ∈ objectSchema head body ↔
      body.required ≠ [] ∧ v = .list (body.required.map .str) := by
  have hschema : ∀ w, (.str "required", w) ∉
      Value.put head (.str "properties") (.map body.properties) := fun w hw ↦
    hhead w ((Value.mem_put_str (by simp)).mp hw)
  rw [objectSchema]
  split
  next hnil =>
    rw [List.isEmpty_iff] at hnil
    exact iff_of_false (hschema v) fun h ↦ h.1 hnil
  next hcons =>
    rw [List.isEmpty_iff] at hcons
    rw [Value.put_str_eq_append hschema, List.mem_append, or_iff_right (hschema v),
      List.mem_singleton]
    simp [hcons]

theorem required_bodyOf_optional (ps : List (Property σ)) (nodes : List (Node σ)) :
    (bodyOf (ps.map Property.optional) nodes).required = [] := by
  have hfilter : (ps.map Property.optional).filter (·.required) = [] := by
    refine List.filter_eq_nil_iff.mpr fun p hp ↦ ?_
    obtain ⟨q, -, rfl⟩ := List.mem_map.mp hp
    exact Bool.false_ne_true
  rw [bodyOf, bodyFrom, hfilter]
  rfl

end Plan

namespace Generator

variable {g : Generator σ} {job : Job σ} {plan : Plan σ} {t : TypeRef σ} {mode : Mode σ}

theorem requireOf_of_eq_some {tags : List (Tag σ)} {v : TagValue σ}
    (h : Tag.decision? tags = some v) (require : Bool) : requireOf tags require = v.truthy := by
  rw [Tag.decision?] at h
  rw [requireOf, h]

theorem requireOf_of_eq_none {tags : List (Tag σ)} (h : Tag.decision? tags = none)
    (require : Bool) : requireOf tags require = require := by
  rw [Tag.decision?] at h
  rw [requireOf, h]

/-- An object is planned without the flag, unless its tags decide. -/
theorem returns_objectPlan_optional {tags : List (Tag σ)}
    (h : (g.objectPlan t tags mode).Returns plan) :
    (g.objectPlan t tags mode.optional).Returns
      (plan.optionalUnless (Tag.decision? tags).isSome) := by
  obtain ⟨extra, hextra, h⟩ := returns_bind.mp h
  obtain ⟨all, hall, h⟩ := returns_bind.mp h
  obtain rfl := returns_pure.mp h
  refine returns_bind.mpr ⟨extra, hextra, ?_⟩
  cases hdecision : Tag.decision? tags with
  | some v =>
    simp only [requireOf_of_eq_some hdecision] at hall ⊢
    exact returns_bind.mpr ⟨all, hall, rfl⟩
  | none =>
    simp only [requireOf_of_eq_none hdecision] at hall ⊢
    refine returns_bind.mpr ⟨_, Property.returns_extract_optional hall, ?_⟩
    rw [Property.firsts_map_optional]
    rfl

theorem exists_objectPlan_of_optional {tags : List (Tag σ)} (hplaces : g.host.PlacesTypes t)
    (h : (g.objectPlan t tags mode.optional).Returns plan) :
    ∃ plan, (g.objectPlan t tags mode).Returns plan := by
  obtain ⟨extra, hextra, h⟩ := returns_bind.mp h
  obtain ⟨all, hall, -⟩ := returns_bind.mp h
  have hall' : ∃ all', (Property.extract g.host g.settings t
      (requireOf tags mode.require)).Returns all' := by
    cases hdecision : Tag.decision? tags with
    | some v =>
      rw [requireOf_of_eq_some hdecision] at hall ⊢
      exact ⟨all, hall⟩
    | none =>
      rw [requireOf_of_eq_none hdecision] at hall
      exact Property.exists_extract_of_optional hplaces hall _
  obtain ⟨all', hall'⟩ := hall'
  exact ⟨_, returns_bind.mpr ⟨extra, hextra, returns_bind.mpr ⟨all', hall', rfl⟩⟩⟩

theorem optionalUnless_eq_mapMode (h : ∀ head ps inner, plan ≠ .object head ps inner)
    (decided : Bool) : plan.optionalUnless decided = plan.mapMode Mode.optional := by
  cases plan with
  | object head ps inner => exact absurd rfl (h head ps inner)
  | _ => rfl

/-- **Every plan has a counterpart without the flag.** -/
theorem returns_plan_optionalUnless (hbuiltins : g.settings.BuiltinsOnly)
    (hplan : (g.plan job).Returns plan) :
    (g.plan (job.mapMode Mode.optional)).Returns
      (plan.optionalUnless (job.decided g.host)) := by
  cases job with
  | embedded t mode composition extra =>
    have hobject : ∀ head ps inner, plan ≠ .object head ps inner := fun head ps inner h ↦
      not_spellsObject_embedded ⟨head, ps, inner, h ▸ hplan⟩
    rw [optionalUnless_eq_mapMode hobject, Returns]
    refine (outcome_embeddedPlan_mapMode (f := Mode.optional) hbuiltins rfl rfl composition
      extra).trans ?_
    rw [show (g.embeddedPlan t mode composition extra).outcome = .ok plan from hplan]
    rfl
  | definition t mode =>
    cases returns_definitionPlan_iff.mp hplan with
    | override htags hu => exact returns_definitionPlan_iff.mpr (.override htags hu)
    | simple htags hnone hs => exact returns_definitionPlan_iff.mpr (.simple htags hnone hs)
    | composed htags hnone hs hc =>
      exact returns_definitionPlan_iff.mpr (.composed htags hnone hs hc)
    | byKind htags hnone hs hc hkind =>
      refine returns_definitionPlan_iff.mpr (.byKind htags hnone hs hc ?_)
      rw [Job.decided_of_returns htags]
      rcases g.kindPlan_cases t _ with hcase | hcase | hcase
      · rw [hcase] at hkind ⊢
        exact returns_objectPlan_optional hkind
      · rw [hcase] at hkind ⊢
        obtain ⟨node, hnode, rfl⟩ := returns_map.mp hkind
        exact returns_map.mpr ⟨node, hnode, rfl⟩
      · rw [hcase] at hkind ⊢
        obtain rfl := returns_pure.mp hkind
        rw [optionalUnless_eq_mapMode fun _ _ _ ↦ containerPlan_ne_object, ← containerPlan_mapMode]
        exact returns_pure.mpr rfl
  | misplaced => cases hplan

/-- The job is an object that does not inherit the flag. -/
def Decides (g : Generator σ) (job : Job σ) : Prop := g.SpellsObject job ∧ job.decided g.host = true

/-- The counterpart is the plan itself for an object whose tags decide, and the plan with nothing
required otherwise. -/
theorem returns_plan_optional (hbuiltins : g.settings.BuiltinsOnly)
    (hplan : (g.plan job).Returns plan) :
    (¬g.Decides job ∧ (g.plan (job.mapMode Mode.optional)).Returns plan.optional) ∨
      (g.Decides job ∧ (g.plan (job.mapMode Mode.optional)).Returns plan) := by
  have hreturns := returns_plan_optionalUnless hbuiltins hplan
  by_cases hdecides : g.Decides job
  · obtain ⟨⟨head, ps, inner, hobject⟩, hdecided⟩ := hdecides
    obtain rfl := hplan.unique hobject
    rw [hdecided] at hreturns
    exact .inr ⟨⟨⟨head, ps, inner, hplan⟩, hdecided⟩, hreturns⟩
  · refine .inl ⟨hdecides, ?_⟩
    cases plan with
    | object head ps inner =>
      have hfree : job.decided g.host = false :=
        Bool.eq_false_iff.mpr fun h ↦ hdecides ⟨⟨head, ps, inner, hplan⟩, h⟩
      rw [hfree] at hreturns
      exact hreturns
    | _ => exact hreturns

/-- Without the flag no more can be planned than with it, unless something that is no type stands in
the place of one. -/
theorem exists_plan_of_optional (hbuiltins : g.settings.BuiltinsOnly)
    (hplaces : ∀ t ∈ job.types, g.host.PlacesTypes t)
    (h : (g.plan (job.mapMode Mode.optional)).Returns plan) :
    ∃ plan, (g.plan job).Returns plan := by
  cases job with
  | embedded t mode composition extra =>
    rw [Returns, show g.plan _ = g.embeddedPlan t mode.optional composition extra from rfl,
      outcome_embeddedPlan_mapMode (f := Mode.optional) hbuiltins rfl rfl] at h
    cases hplan : (g.embeddedPlan t mode composition extra).outcome with
    | ok plan => exact ⟨plan, hplan⟩
    | error e =>
      rw [hplan] at h
      cases h
  | definition t mode =>
    cases returns_definitionPlan_iff.mp h with
    | override htags hu => exact ⟨_, returns_definitionPlan_iff.mpr (.override htags hu)⟩
    | simple htags hnone hs => exact ⟨_, returns_definitionPlan_iff.mpr (.simple htags hnone hs)⟩
    | composed htags hnone hs hc =>
      exact ⟨_, returns_definitionPlan_iff.mpr (.composed htags hnone hs hc)⟩
    | @byKind tags _ htags hnone hs hc hkind =>
      obtain ⟨plan, hplan⟩ : ∃ plan, (g.kindPlan t tags mode).Returns plan := by
        rcases g.kindPlan_cases t tags with hcase | hcase | hcase
        · rw [hcase] at hkind ⊢
          exact exists_objectPlan_of_optional (hplaces t List.mem_cons_self) hkind
        · rw [hcase] at hkind ⊢
          exact ⟨plan, hkind⟩
        · rw [hcase]
          exact ⟨_, returns_pure.mpr rfl⟩
      exact ⟨plan, returns_definitionPlan_iff.mpr (.byKind htags hnone hs hc hplan)⟩
  | misplaced => cases h

/-! ## What follows the default -/

/-- The schema of the job requires something by default: some object in it has no decision of its
own or around it, and has a property that could be required. -/
inductive FollowsDefault (g : Generator σ) : Job σ → Prop where
  /-- The job itself is such an object. -/
  | here {job : Job σ} {head : Entries} {ps : List (Property σ)} {inner : Mode σ} {p : Property σ}
      (hplan : (g.plan job).Returns (.object head ps inner)) (hfree : ¬g.Decides job)
      (hp : p ∈ ps) (hrequired : p.required = true) : FollowsDefault g job
  /-- The default is handed on to what the job asks for. -/
  | inside {job job' : Job σ} (hfree : ¬g.Decides job) (hask : g.Asks job job')
      (h : FollowsDefault g job') : FollowsDefault g job

variable {node node' : Node σ}

theorem Renders.exists_optional (hbuiltins : g.settings.BuiltinsOnly) (h : g.Renders job node) :
    ∃ node', g.Renders (job.mapMode Mode.optional) node' := by
  refine h.induction (motive := fun (job : Job σ) _ ↦
    ∃ node', g.Renders (job.mapMode Mode.optional) node') ?_
  intro job plan nodes hplan hnodes
  rcases returns_plan_optional hbuiltins hplan with ⟨-, hoptional⟩ | ⟨-, hoptional⟩
  · obtain ⟨nodes', hnodes'⟩ := exists_forall₂ (R := fun (job : Job σ) node' ↦
        g.Renders (job.mapMode Mode.optional) node') fun job' hjob' ↦ by
      obtain ⟨node, -, -, hnode⟩ := exists_of_mem_right hnodes.flip hjob'
      exact hnode
    refine ⟨_, renders_iff.mpr ⟨_, nodes', hoptional, ?_, rfl⟩⟩
    rw [Plan.jobs_optional]
    exact List.forall₂_map_left_iff.mpr hnodes'
  · exact ⟨_, renders_iff.mpr ⟨plan, nodes, hoptional, hnodes.imp fun _ _ h ↦ h.1, rfl⟩⟩

theorem Renders.exists_of_optional (hbuiltins : g.settings.BuiltinsOnly)
    (hplaces : ∀ t ∈ job.types, ∀ u, g.host.Reachable t u → g.host.PlacesTypes u)
    (h : g.Renders (job.mapMode Mode.optional) node') : ∃ node, g.Renders job node := by
  refine h.induction (motive := fun job' _ ↦ ∀ job : Job σ, job.mapMode Mode.optional = job' →
    (∀ t ∈ job.types, ∀ u, g.host.Reachable t u → g.host.PlacesTypes u) →
      ∃ node, g.Renders job node) ?_ job rfl hplaces
  rintro - plan' nodes' hplan' hnodes' job rfl hplaces
  obtain ⟨plan, hplan⟩ := exists_plan_of_optional hbuiltins
    (fun t ht ↦ hplaces t ht t .refl) hplan'
  rcases returns_plan_optional hbuiltins hplan with ⟨-, hoptional⟩ | ⟨-, hoptional⟩
  · obtain rfl := hplan'.unique hoptional
    obtain ⟨nodes, hnodes⟩ : ∃ nodes, List.Forall₂ g.Renders plan.jobs nodes := by
      refine exists_forall₂ fun job' hjob' ↦ ?_
      have hmem : job'.mapMode Mode.optional ∈ plan.optional.jobs := by
        rw [Plan.jobs_optional]
        exact List.mem_map_of_mem hjob'
      obtain ⟨node, -, -, hmotive⟩ := exists_of_mem_right hnodes'.flip hmem
      refine hmotive job' rfl fun u hu v huv ↦ ?_
      obtain ⟨t, ht, htu⟩ := reachable_of_mem_jobs hplan hjob' hu
      exact hplaces t ht v (htu.trans huv)
    exact ⟨_, renders_iff.mpr ⟨plan, nodes, hplan, hnodes, rfl⟩⟩
  · obtain rfl := hplan'.unique hoptional
    exact ⟨_, renders_iff.mpr ⟨plan', nodes', hplan, hnodes'.imp fun _ _ h ↦ h.1, rfl⟩⟩

/-- **The flag makes no difference where nothing follows it.** -/
theorem Renders.optional (hbuiltins : g.settings.BuiltinsOnly) (h : g.Renders job node)
    (hfree : ¬g.FollowsDefault job) : g.Renders (job.mapMode Mode.optional) node := by
  refine h.induction (motive := fun (job : Job σ) node ↦ ¬g.FollowsDefault job →
    g.Renders (job.mapMode Mode.optional) node) ?_ hfree
  intro job plan nodes hplan hnodes hfollows
  have hrenders : List.Forall₂ g.Renders plan.jobs nodes := hnodes.imp fun _ _ h ↦ h.1
  rcases returns_plan_optional hbuiltins hplan with ⟨hfree, hoptional⟩ | ⟨-, hoptional⟩
  · have hjobs : List.Forall₂ g.Renders plan.optional.jobs nodes := by
      rw [Plan.jobs_optional]
      refine List.forall₂_map_left_iff.mpr (forall₂_imp_of_mem hnodes fun job' hjob' _ _ h ↦ ?_)
      exact h.2 fun h' ↦ hfollows (.inside hfree (asks_of_mem hplan hrenders hjob') h')
    refine renders_iff.mpr ⟨_, nodes, hoptional, hjobs, ?_⟩
    cases plan with
    | object head ps inner =>
      have hps : ps.map Property.optional = ps := by
        refine List.map_congr_left (g := id) (fun p hp ↦ ?_) |>.trans (List.map_id ps)
        have hrequired : p.required = false :=
          Bool.eq_false_iff.mpr fun h ↦ hfollows (.here hplan hfree hp h)
        rw [Property.optional, ← hrequired]
        rfl
      rw [Plan.optional, hps]
      rfl
    | _ => exact congrFun (Plan.assemble_mapMode _ _) nodes
  · exact renders_iff.mpr ⟨plan, nodes, hoptional, hrenders, rfl⟩

/-- Without the flag, a job that does not decide is put together by the optional plan. -/
theorem exists_nodes_of_optional (hbuiltins : g.settings.BuiltinsOnly)
    (hplan : (g.plan job).Returns plan) (hfree : ¬g.Decides job)
    (h : g.Renders (job.mapMode Mode.optional) node') :
    ∃ nodes', List.Forall₂ g.Renders plan.optional.jobs nodes' ∧
      plan.optional.assemble nodes' = node' := by
  obtain ⟨plan', nodes', hplan', hnodes', hnode'⟩ := renders_iff.mp h
  have hoptional := (returns_plan_optional hbuiltins hplan).resolve_right fun h ↦ hfree h.1
  obtain rfl := hplan'.unique hoptional.2
  exact ⟨nodes', hnodes', hnode'⟩

/-- Where something follows the flag, a list is missing without it. -/
theorem FollowsDefault.exists_requires (h : g.FollowsDefault job)
    (hbuiltins : g.settings.BuiltinsOnly)
    (havoid : g.host.ExtensionsAvoid ("required" :: reservedKeys))
    (hjob : job.Avoids ("required" :: reservedKeys)) (hnode : g.Renders job node)
    (hnode' : g.Renders (job.mapMode Mode.optional) node') :
    ∃ path v, Requires node.schema path v ∧ ∀ w, ¬Requires node'.schema path w := by
  induction h generalizing node node' with
  | @here job head ps inner p hplan hfree hp hrequired =>
    obtain ⟨plan, nodes, hplan', -, rfl⟩ := renders_iff.mp hnode
    obtain rfl := hplan'.unique hplan
    obtain ⟨nodes', -, rfl⟩ := exists_nodes_of_optional hbuiltins hplan hfree hnode'
    have hhead := fun v ↦ (transparent_plan hbuiltins havoid hjob hplan v).2
    refine ⟨[], _, requires_nil.mpr ((Plan.required_mem_objectSchema hhead _).mpr ⟨?_, rfl⟩), ?_⟩
    · have hmem : p.name ∈ (Plan.bodyOf ps nodes).required :=
        List.mem_map_of_mem (List.mem_filter.mpr ⟨hp, hrequired⟩)
      exact List.ne_nil_of_mem hmem
    · intro w hw
      refine ((Plan.required_mem_objectSchema hhead _).mp (requires_nil.mp hw)).1 ?_
      exact Plan.required_bodyOf_optional ps nodes'
  | @inside job job' hfree hask h ih =>
    obtain ⟨plan, nodes, i, below, hplan, hnodes, rfl, hi, hbelow, hrenders⟩ :=
      hnode.exists_asked hask
    obtain ⟨nodes', hnodes', rfl⟩ := exists_nodes_of_optional hbuiltins hplan hfree hnode'
    have hi' : plan.optional.jobs[i]? = some (job'.mapMode Mode.optional) := by
      rw [Plan.jobs_optional, List.getElem?_map, hi]
      rfl
    obtain ⟨below', hbelow', hrenders'⟩ := exists_getElem?_of_forall₂ hnodes' hi'
    obtain ⟨path, v, hrequires, hnot⟩ := ih
      (avoids_of_mem_jobs havoid hjob hplan _ (List.mem_of_getElem? hi)) hrenders hrenders'
    have hplain := transparent_plan hbuiltins havoid hjob hplan
    -- the job stands at the same place with and without the flag
    refine ⟨plan.step i ++ path, v, ?_, fun w hw ↦ hnot w ?_⟩
    · exact (Plan.requires_step hplain hnodes.length_eq hbelow).mpr hrequires
    · rw [← Plan.step_optional] at hw
      exact (Plan.requires_step hplain.optional hnodes'.length_eq hbelow').mp hw

/-- **The flag decides exactly what follows it.** -/
theorem sameRequired_iff (hbuiltins : g.settings.BuiltinsOnly)
    (havoid : g.host.ExtensionsAvoid ("required" :: reservedKeys))
    (hjob : job.Avoids ("required" :: reservedKeys)) (hnode : g.Renders job node)
    (hnode' : g.Renders (job.mapMode Mode.optional) node') :
    SameRequired node.schema node'.schema ↔ ¬g.FollowsDefault job := by
  constructor
  · intro hsame hfollows
    obtain ⟨path, v, hrequires, hnot⟩ :=
      hfollows.exists_requires hbuiltins havoid hjob hnode hnode'
    exact hnot v ((hsame path v).mp hrequires)
  · intro hfree
    obtain rfl := (hnode.optional hbuiltins hfree).unique hnode'
    exact fun _ _ ↦ Iff.rfl

/-! ## Decisions and copies -/

section Override

variable {t n : TypeRef σ} {mode : Mode σ} {tags : List (Tag σ)} {v : TagValue σ}
  {cs : List (TypeRef σ)} {whole : Node σ} {budget : Nat}

/-- Inline builds with different flags are there together, unless something that is no type stands
somewhere in the place of one and is only looked at with the other flag. -/
theorem exists_build_of_flag (hbuiltins : g.settings.BuiltinsOnly) {flag flag' : Bool}
    (hplaces : flag = false → flag' = true → ∀ u, g.host.Reachable t u → g.host.PlacesTypes u)
    (hnode : g.Renders (inlineRoot t flag) node) :
    ∃ node', g.Renders (inlineRoot t flag') node' := by
  cases flag with
  | true =>
    cases flag' with
    | true => exact ⟨node, hnode⟩
    | false => exact hnode.exists_optional hbuiltins
  | false =>
    cases flag' with
    | false => exact ⟨node, hnode⟩
    | true =>
      have hroot : ∀ u ∈ (inlineRoot t true).types, ∀ w, g.host.Reachable u w →
          g.host.PlacesTypes w := by
        intro u hu
        obtain rfl := List.mem_singleton.mp hu
        exact hplaces rfl rfl
      exact Renders.exists_of_optional hbuiltins hroot hnode

/-- Inline builds with different flags are the same if nothing follows the flag, and require the
same in no other case. -/
theorem builds_of_flags (hbuiltins : g.settings.BuiltinsOnly) {flag flag' : Bool}
    (hnode : g.Renders (inlineRoot t flag) node) (hnode' : g.Renders (inlineRoot t flag') node') :
    (flag = flag' ∨ ¬g.FollowsDefault (inlineRoot t true) → node = node') ∧
      (g.host.ExtensionsAvoid ("required" :: reservedKeys) →
        (SameRequired node.schema node'.schema ↔
          flag = flag' ∨ ¬g.FollowsDefault (inlineRoot t true))) := by
  have hroot : (inlineRoot t true).Avoids ("required" :: reservedKeys) := trivial
  -- the job without the flag is the other one, made optional
  have hequal : ∀ {strict loose : Node σ}, g.Renders (inlineRoot t true) strict →
      g.Renders (inlineRoot t false) loose → ¬g.FollowsDefault (inlineRoot t true) →
        strict = loose := fun hstrict hloose hfree ↦
    (hstrict.optional hbuiltins hfree).unique hloose
  by_cases hflags : flag = flag'
  · subst hflags
    obtain rfl := hnode.unique hnode'
    exact ⟨fun _ ↦ rfl, fun _ ↦ iff_of_true (fun _ _ ↦ Iff.rfl) (.inl rfl)⟩
  · simp only [hflags, false_or]
    cases flag with
    | true =>
      obtain rfl := (Bool.eq_false_or_eq_true flag').resolve_left (Ne.symm hflags)
      exact ⟨hequal hnode hnode', fun havoid ↦
        sameRequired_iff hbuiltins havoid hroot hnode hnode'⟩
    | false =>
      obtain rfl := (Bool.eq_false_or_eq_true flag').resolve_right (Ne.symm hflags)
      refine ⟨fun hfree ↦ (hequal hnode' hnode hfree).symm, fun havoid ↦ ?_⟩
      rw [← sameRequired_iff hbuiltins havoid hroot hnode' hnode]
      exact ⟨fun h path v ↦ (h path v).symm, fun h path v ↦ (h path v).symm⟩

/-- **The tags of an object decide for what is spelled out in it.** Let the inline build of a type
return, let the tags of the type say what is required in it, and let another type that does not lead
back to it be spelled out right inside its object, behind containers, optional types, unions,
compositions or overrides. Then the copy comes out as the inline build of the other type would if
what the tags say were the default. The inline build under the real default returns as well, unless
it alone asks something that is no type whether it is primitive. The copy is this build if what the
tags say is the default, or if nothing follows the default in the other type. With metadata that
leaves `required` and the keys of subschemas alone, the copy can be found in the schema of the first
type, and it requires the same as the build in no other case. -/
theorem inline_override_iff (hbuiltins : g.settings.BuiltinsOnly) {require : Option Bool}
    (htags : (g.host.tags t).Returns tags)
    (hv : Tag.decision? tags = some v)
    (hwhole : (g.build budget t true require).Returns whole)
    (hmet : g.Meets (inlineRoot t (require.getD g.settings.requireNonNulls)) [t] cs
      (.definition n mode))
    (hback : ∀ u, g.host.Reachable n u → (u == t) = false) :
    ∃ copy, g.Renders (.definition n mode) copy ∧
      (∃ budget, (g.build budget n true (some v.truthy)).Returns copy) ∧
      (g.host.ExtensionsAvoid ("required" :: reservedKeys) → Stands copy.schema whole.schema) ∧
      ((v.truthy = false → require.getD g.settings.requireNonNulls = true →
          ∀ u, g.host.Reachable n u → g.host.PlacesTypes u) →
        ∃ budget alone, (g.build budget n true require).Returns alone) ∧
      ∀ budget alone, (g.build budget n true require).Returns alone →
        (v.truthy = require.getD g.settings.requireNonNulls ∨
          ¬g.FollowsDefault (inlineRoot n true) → copy = alone) ∧
        (g.host.ExtensionsAvoid ("required" :: reservedKeys) →
          (SameRequired copy.schema alone.schema ↔
            v.truthy = require.getD g.settings.requireNonNulls ∨
              ¬g.FollowsDefault (inlineRoot n true))) := by
  obtain ⟨copy, ⟨depth, hcopy⟩, hstands⟩ := hmet.exists_stands hbuiltins ⟨budget, hwhole⟩
  have hinside : g.host.requireInside (inlineRoot t (require.getD
      g.settings.requireNonNulls)).mode.require [t] = v.truthy := by
    rw [Host.requireInside_cons htags, requireOf_of_eq_some hv]
  have houtside : ∀ u, g.host.Reachable n u → [t].contains u = false := by
    intro u hu
    rw [List.contains_cons, hback u hu]
    rfl
  have hbuild : (g.build depth n true (some v.truthy)).Returns copy := by
    have houtcome := outcome_copy hbuiltins rfl rfl hmet houtside depth
    rw [hinside] at houtcome
    exact houtcome.symm.trans hcopy
  have hrenders : g.Renders (inlineRoot n v.truthy) copy := ⟨depth, hbuild⟩
  refine ⟨copy, ⟨depth, hcopy⟩, ⟨depth, hbuild⟩, fun havoid ↦ (hstands havoid trivial).2,
    fun hplaces ↦ ?_, fun budget alone halone ↦ ?_⟩
  · obtain ⟨alone, budget, halone⟩ := exists_build_of_flag hbuiltins hplaces hrenders
    exact ⟨budget, alone, halone⟩
  · exact builds_of_flags hbuiltins hrenders ⟨budget, halone⟩

end Override

end Generator

/-! ## A form about a person

The tags of a form say that nothing is required in it. A form has a person, and a person an age. -/

namespace Forms

open Generator

/-- A type with a property that could be required. -/
def person : TypeRef Unit := { fullName := "app.Person", simpleName := "Person" }

/-- A type whose tags say what is required. -/
def form : TypeRef Unit := { fullName := "app.Form", simpleName := "Form" }

/-- The tag that says that nothing is required. -/
def relaxed : Tag Unit :=
  .mk "marks.JsonSchema" [("require_non_nulls", .boolean (.bool false))] false

/-- The declarations. -/
def graph : TypeGraph Unit where
  declarations :=
    [{ type := form, tags := [relaxed],
        members := [{ name := "getPerson", declaredType := some person }] },
      { type := person, members := [{ name := "getAge", declaredType := some Shelves.number }] }]

/-- The generator with the usual settings. -/
def generator : Generator Unit := { host := graph.host }

variable {t u : TypeRef Unit}

theorem returns_tags_form : (graph.host.tags form).Returns [relaxed] := rfl

theorem simpleName_relaxed : relaxed.simpleName = "JsonSchema" := by
  rw [Tag.simpleName, show relaxed.name = "marks.JsonSchema" from rfl]
  decide

theorem decision?_relaxed : Tag.decision? [relaxed] = some (.boolean (.bool false)) := by
  rw [Tag.decision?, Tag.find?, List.find?_singleton, simpleName_relaxed]
  rfl

theorem leads_person (h : graph.host.Leads person u) : u = Shelves.number := by
  have hmembers : ∀ m ∈ graph.declared (·.members) person, m.tags = [] := by
    intro m hm
    obtain rfl := List.mem_singleton.mp hm
    rfl
  rcases TypeGraph.leads_cases rfl hmembers h with hu | ⟨m, hm, hu⟩ | ⟨c, hc, -⟩
  · exact absurd hu List.not_mem_nil
  · obtain rfl := List.mem_singleton.mp hm
    exact (Option.some.inj hu).symm
  · exact absurd hc List.not_mem_nil

theorem not_leads_number : ¬graph.host.Leads Shelves.number u := by
  intro h
  have hmembers : ∀ m ∈ graph.declared (·.members) Shelves.number, m.tags = [] :=
    fun m hm ↦ absurd hm List.not_mem_nil
  rcases TypeGraph.leads_cases rfl hmembers h with hu | ⟨m, hm, -⟩ | ⟨c, hc, -⟩
  · exact absurd hu List.not_mem_nil
  · exact absurd hm List.not_mem_nil
  · exact absurd hc List.not_mem_nil

theorem reachable_cases (h : graph.host.Reachable person u) : u = person ∨ u = Shelves.number := by
  induction h with
  | refl => exact .inl rfl
  | tail _ hleads ih =>
    rcases ih with rfl | rfl
    · exact .inr (leads_person hleads)
    · exact absurd hleads not_leads_number

theorem not_back (h : graph.host.Reachable person u) : (u == form) = false := by
  rcases reachable_cases h with rfl | rfl
  · decide
  · decide

/-- The circumstances inside a form. -/
def inside : Mode Unit := { inline := true, require := false, inlining := [form] }

/-- The object of the form asks for the person. -/
theorem returns_plan_form (require : Bool) :
    (generator.plan (inlineRoot form require)).Returns (.object
      [(.str "type", .str "object"), (.str "additionalProperties", .bool false)]
      [{ name := "person", type := .type person, required := false, extra := [(.str "example", .null)] }]
      inside) := rfl

theorem returns_plan_person : (generator.plan (.embedded person inside none
    (some [(.str "example", .null)]))).Returns
      (.extended [(.str "example", .null)] (.delegated (.definition person inside))) :=
  Mentions.returns_plan ⟨⟨[], rfl, rfl⟩, rfl, rfl, (nomatch ·), (nomatch ·)⟩

theorem meets_person (require : Bool) : generator.Meets (inlineRoot form require) [form] []
    (.definition person inside) :=
  have hproperty := Meets.root.object ⟨_, _, _, returns_plan_form require⟩
    (asks_of_jobs_eq_singleton (returns_plan_form require) rfl)
  hproperty.passed not_spellsObject_embedded not_composes_embedded
    (asks_of_jobs_eq_singleton returns_plan_person rfl)

/-- A person without anything that it requires. -/
def relaxedPerson : Node Unit :=
  ⟨[(.str "type", .str "object"), (.str "additionalProperties", .bool false),
    (.str "properties", .map [(.str "age", .map [(.str "type", .str "integer")])])], []⟩

/-- A person as it is by itself where properties are required by default. -/
def strictPerson : Node Unit :=
  ⟨relaxedPerson.schema ++ [(.str "required", .list [.str "age"])], []⟩

/-- A form around a person without anything that it requires. -/
def relaxedForm : Node Unit :=
  ⟨[(.str "type", .str "object"), (.str "additionalProperties", .bool false),
    (.str "properties", .map [(.str "person", .map relaxedPerson.schema)])], []⟩

theorem renders_person : generator.Renders (.definition person inside) relaxedPerson := ⟨9, rfl⟩

theorem renders_form (require : Bool) :
    generator.Renders (inlineRoot form require) relaxedForm := by
  have hembedded : generator.Renders (.embedded person inside none
      (some [(.str "example", .null)])) relaxedPerson :=
    renders_iff.mpr ⟨_, [relaxedPerson], returns_plan_person, .cons renders_person .nil, rfl⟩
  exact renders_iff.mpr
    ⟨_, [relaxedPerson], returns_plan_form require, .cons hembedded .nil, rfl⟩

theorem extensionsAvoid : graph.host.ExtensionsAvoid ("required" :: reservedKeys) where
  types {t tags element extra} htags hextra := by
    obtain rfl := returns_pure.mp htags
    have hcollect : ∀ tags : List (Tag Unit), tags = [] ∨ tags = [relaxed] →
        (Extension.collect tags element).Returns [(.str "example", .null)] := by
      rintro tags (rfl | rfl)
      · rfl
      · rfl
    have htags : graph.declared (·.tags) t = [] ∨ graph.declared (·.tags) t = [relaxed] := by
      rw [TypeGraph.declared]
      cases hd : graph.find? t with
      | none => exact .inl rfl
      | some d =>
        have hmem := List.mem_reverse.mp (List.mem_of_find?_eq_some hd)
        rcases List.mem_cons.mp hmem with rfl | hmem
        · exact .inr rfl
        · obtain rfl := List.mem_singleton.mp hmem
          exact .inl rfl
    obtain rfl := hextra.unique (hcollect _ htags)
    intro key _ v hv
    exact congrArg Prod.snd (List.mem_singleton.mp hv)
  members {t ms m element extra} hms hm hextra := by
    obtain ⟨d, hd, -, hm⟩ := TypeGraph.exists_declaration_of_member hms hm
    have htags : m.tags = [] := by
      rcases List.mem_cons.mp hd with rfl | hd
      · obtain rfl := List.mem_singleton.mp hm
        rfl
      · obtain rfl := List.mem_singleton.mp hd
        obtain rfl := List.mem_singleton.mp hm
        rfl
    rw [htags] at hextra
    exact Extension.avoids_of_collect_nil hextra

/-- Where nothing is required by default, the form says nothing new: the person stands in it as it
is by itself. -/
theorem inline_override_form : ∃ budget whole alone,
    (generator.build budget form true (some false)).Returns whole ∧
      (∃ budget, (generator.build budget person true (some false)).Returns alone) ∧
      generator.Renders (.definition person inside) alone ∧ Stands alone.schema whole.schema := by
  obtain ⟨budget, hwhole⟩ := renders_form false
  obtain ⟨copy, hcopy, -, hstands, halone, hequal⟩ :=
    inline_override_iff (Settings.builtinsOnly_of_nil rfl) returns_tags_form decision?_relaxed
      (show (generator.build budget form true (some false)).Returns relaxedForm from hwhole)
      (meets_person false) fun _ ↦ not_back
  obtain ⟨budget', alone, halone⟩ := halone fun _ h ↦ nomatch h
  obtain rfl : copy = alone := (hequal budget' alone halone).1 (.inl rfl)
  exact ⟨budget, relaxedForm, copy, hwhole, ⟨budget', halone⟩, hcopy, hstands extensionsAvoid⟩

/-- Where properties are required by default, a person requires its age, and a person that is
spelled out in a form does not. -/
theorem decided_inside : generator.settings.BuiltinsOnly ∧
    (graph.host.tags form).Returns [relaxed] ∧
    Tag.decision? [relaxed] = some (.boolean (.bool false)) ∧
    (∀ u, graph.host.Reachable person u → (u == form) = false) ∧
    generator.Meets (inlineRoot form true) [form] [] (.definition person inside) ∧
    generator.Renders (.definition person inside) relaxedPerson ∧
    (∃ budget, (generator.build budget form true none).Returns relaxedForm) ∧
    (∃ budget, (generator.build budget person true none).Returns strictPerson) ∧
    ¬SameRequired relaxedPerson.schema strictPerson.schema := by
  refine ⟨Settings.builtinsOnly_of_nil rfl, returns_tags_form, decision?_relaxed, fun _ ↦ not_back,
    meets_person true, renders_person, renders_form true, ⟨9, rfl⟩, fun hsame ↦ ?_⟩
  have hlist : Requires relaxedPerson.schema [] (.list [.str "age"]) :=
    (hsame [] _).mpr (requires_nil.mpr (by simp [strictPerson]))
  simpa [relaxedPerson] using requires_nil.mp hlist

end Forms

end Schemata
