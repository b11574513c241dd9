import Mathlib.Logic.Relation
import Schemata.Proofs.Evaluation
import Schemata.Proofs.Extraction

/-!
# Reach

A type leads to the types that it is described with: its generic arguments, what its tags put in its
place or compose, the types of its members and injected properties, and what the tags of its members
put in their place or compose. Rendering never leaves what can be reached in this way: the jobs that
a plan asks for are about types that the type of the job leads to.

`Generator.DefinitionJob` and `Generator.EmbeddedJob` say once what a plan can ask for.
-/

namespace Schemata

variable {σ : Type}

open Traced

namespace Host

variable (host : Host σ)

/-- The second type occurs in the description of the first one. -/
inductive Leads : TypeRef σ → TypeRef σ → Prop where
  /-- A generic argument. -/
  | argument {t u : TypeRef σ} (hu : u ∈ t.generics) : Leads t u
  /-- What the tags of the type put in its place. -/
  | override {t u : TypeRef σ} {tags : List (Tag σ)} (htags : (host.tags t).Returns tags)
      (hu : definedBy tags = .ok (some u)) : Leads t u
  /-- What the tags of the type compose. -/
  | part {t u : TypeRef σ} {tags : List (Tag σ)} {c : Composition σ}
      (htags : (host.tags t).Returns tags) (hc : Composition.find? tags = .ok (some c))
      (hu : u ∈ c.members) : Leads t u
  /-- The type of a member. -/
  | member {t u : TypeRef σ} {ms : List (Member σ)} {m : Member σ}
      (hms : (host.members t).Returns ms) (hm : m ∈ ms) (hu : m.declaredType = some u) : Leads t u
  /-- What the tags of a member put in the place of its type. -/
  | memberOverride {t u : TypeRef σ} {ms : List (Member σ)} {m : Member σ}
      (hms : (host.members t).Returns ms) (hm : m ∈ ms) (hu : definedBy m.tags = .ok (some u)) :
      Leads t u
  /-- What the tags of a member compose. -/
  | memberPart {t u : TypeRef σ} {ms : List (Member σ)} {m : Member σ} {c : Composition σ}
      (hms : (host.members t).Returns ms) (hm : m ∈ ms)
      (hc : Composition.find? m.tags = .ok (some c)) (hu : u ∈ c.members) : Leads t u
  /-- The type of an injected property. -/
  | custom {t : TypeRef σ} {cs : List (CustomProperty σ)} {c : CustomProperty σ}
      (hcs : (host.customProperties t).Returns cs) (hc : c ∈ cs) : Leads t c.type

/-- The second type can be reached from the first one. -/
def Reachable : TypeRef σ → TypeRef σ → Prop := Relation.ReflTransGen host.Leads

end Host

/-! ## The types of a job -/

/-- The types that a job is about: the type and the composition that takes its place. -/
def Job.types : Job σ → List (TypeRef σ)
  | .definition t _ => [t]
  | .embedded t _ composition _ => t :: (composition.map (·.members)).getD []
  | .misplaced _ _ => []

/-- A property is about its type and the composition that takes its place. -/
theorem Job.mem_types_ofPlace {mode : Mode σ} {composition : Option (Composition σ)}
    {extra : Option Entries} {place : TypePlace σ} {u : TypeRef σ}
    (h : u ∈ (Job.ofPlace mode composition extra place).types) :
    place = .type u ∨ ∃ c, composition = some c ∧ u ∈ c.members := by
  cases place with
  | other value => exact absurd h List.not_mem_nil
  | type t =>
    rcases List.mem_cons.mp h with rfl | h
    · exact .inl rfl
    · cases composition with
      | none => exact absurd h List.not_mem_nil
      | some c => exact .inr ⟨c, rfl, h⟩

namespace Host

variable {host : Host σ} {settings : Settings σ} {t u : TypeRef σ} {require : Bool}
  {ps : List (Property σ)} {p : Property σ}

theorem leads_of_typeOf {ms : List (Member σ)} {m : Member σ} (hms : (host.members t).Returns ms)
    (hm : m ∈ ms) (h : Property.typeOf m = some (.type u)) : host.Leads t u := by
  unfold Property.typeOf at h
  split at h
  · obtain ⟨v, hv, hu⟩ := Option.map_eq_some_iff.mp h
    obtain rfl := TypePlace.type.inj hu
    exact .member hms hm hv
  next v hv =>
    refine .memberOverride hms hm ?_
    rw [definedBy, hv, Option.bind_some, h]
    rfl

theorem leads_of_mem_extract (h : (Property.extract host settings t require).Returns ps)
    (hp : p ∈ ps) (hu : p.type = .type u ∨ ∃ c, p.composition = some c ∧ u ∈ c.members) :
    host.Leads t u := by
  rcases Property.origin_of_mem_extract h hp with ⟨ms, hms, m, hm, hp⟩ | ⟨cs, hcs, c, hc, hp⟩
  · rcases hu with hu | ⟨c, hc, hu⟩
    · exact leads_of_typeOf hms hm (hp.type.trans (congrArg _ hu))
    · exact .memberPart hms hm (hp.composition.trans (congrArg _ hc)) hu
  · rcases hu with hu | ⟨c', hc', -⟩
    · obtain rfl := TypePlace.type.inj (hp.type.symm.trans hu)
      exact .custom hcs hc
    · exact absurd (hp.composition.symm.trans hc') (by simp)

end Host

/-! ## The jobs of a plan -/

namespace Generator

variable {g : Generator σ} {t : TypeRef σ} {mode : Mode σ} {plan : Plan σ} {job : Job σ}

/-- The type is mentioned: no tag, processor, composition or kind gives it another form, so that it
has to be spelled out or referenced. -/
structure Mentions (g : Generator σ) (t : TypeRef σ) (mode : Mode σ) (extra : Option Entries) :
    Prop where
  override : ∃ tags, (g.host.tags t).Returns tags ∧ definedBy tags = .ok none
  declined : g.settings.chain.findSome? (fun p ↦ rulePlan t mode none extra p.rule) = none
  simple : g.simpleType t = none
  array : t.kind ≠ .array
  dictionary : t.kind ≠ .dictionary

/-- What the plan of a type by itself asks for. -/
inductive DefinitionJob (g : Generator σ) (t : TypeRef σ) (mode : Mode σ) :
    Plan σ → Job σ → Prop where
  /-- What the tags put in the place of the type. -/
  | override {tags : List (Tag σ)} {u : TypeRef σ} (htags : (g.host.tags t).Returns tags)
      (hu : definedBy tags = .ok (some u)) :
      DefinitionJob g t mode (.delegated (.definition u mode)) (.definition u mode)
  /-- A part of what the tags compose. -/
  | part {tags : List (Tag σ)} {c : Composition σ} {u : TypeRef σ}
      (htags : (g.host.tags t).Returns tags) (hc : Composition.find? tags = .ok (some c))
      (hu : u ∈ c.members) : DefinitionJob g t mode (.composition c mode) (Plan.plain mode u)
  /-- The element of an array. -/
  | item {u : TypeRef σ} (hu : u ∈ t.generics) :
      DefinitionJob g t mode (.items u mode) (Plan.plain mode u)
  /-- The value of a dictionary. -/
  | value {u : TypeRef σ} (hu : u ∈ t.generics) :
      DefinitionJob g t mode (.values u mode) (Plan.plain mode u)
  /-- A property, with the type among those that are being spelled out. -/
  | property {head : Entries} {ps : List (Property σ)} {p : Property σ} {inner : Mode σ}
      (hp : ∀ u, (p.type = .type u ∨ ∃ c, p.composition = some c ∧ u ∈ c.members) →
        g.host.Leads t u)
      (hinline : inner.inline = mode.inline)
      (hinlining : inner.inlining = TypeRef.insertNew mode.inlining t) :
      DefinitionJob g t mode (.object head ps inner) (Plan.ofProperty inner p)

/-- What the plan of an embedded type asks for. -/
inductive EmbeddedJob (g : Generator σ) (t : TypeRef σ) (mode : Mode σ) :
    Option (Composition σ) → Option Entries → Job σ → Prop where
  /-- What the tags put in the place of the type. -/
  | override {composition : Option (Composition σ)} {extra : Option Entries}
      {tags : List (Tag σ)} {u : TypeRef σ} (htags : (g.host.tags t).Returns tags)
      (hu : definedBy tags = .ok (some u)) :
      EmbeddedJob g t mode composition extra (.embedded u mode composition extra)
  /-- A generic argument. -/
  | argument {composition : Option (Composition σ)} {extra : Option Entries} {u : TypeRef σ}
      (hu : u ∈ t.generics) : EmbeddedJob g t mode composition extra (Plan.plain mode u)
  /-- A part of the composition that takes the place of the type. -/
  | part {c : Composition σ} {extra : Option Entries} {u : TypeRef σ} (hu : u ∈ c.members) :
      EmbeddedJob g t mode (some c) extra (Plan.plain mode u)
  /-- The type itself, spelled out. -/
  | itself {extra : Option Entries} (hmention : g.Mentions t mode extra)
      (hinline : mode.inline = true) (hnew : mode.inlining.contains t = false) :
      EmbeddedJob g t mode none extra (.definition t mode)

theorem mem_generics_of_containerPlan (h : job ∈ (containerPlan t mode).jobs) :
    ∃ u ∈ t.generics, job = Plan.plain mode u := by
  rcases containerPlan_cases t mode with ⟨node, hplan⟩ | ⟨u, hu, hplan⟩ | ⟨u, hu, hplan⟩
  · rw [hplan] at h
    exact absurd h List.not_mem_nil
  · rw [hplan] at h
    exact ⟨u, hu, List.mem_singleton.mp h⟩
  · rw [hplan] at h
    exact ⟨u, hu, List.mem_singleton.mp h⟩

theorem mem_generics_of_rulePlan {rule : ProcessorRule σ} {composition : Option (Composition σ)}
    {extra : Option Entries} (h : rulePlan t mode composition extra rule = some plan)
    (hjob : job ∈ plan.jobs) : ∃ u ∈ t.generics, job = Plan.plain mode u := by
  by_cases hrule : rule.IsBuiltin
  · rcases hrule.rulePlan_cases h with ⟨inner, hinner, rfl⟩ | rfl
    · exact ⟨inner, hinner, List.mem_singleton.mp hjob⟩
    · obtain ⟨u, hu, rfl⟩ := List.mem_map.mp hjob
      exact ⟨u, hu, rfl⟩
  · cases rule with
    | unwrap | anyOfArguments => exact absurd trivial hrule
    | declines => cases h
    | itemsOf selector =>
      dsimp only [rulePlan] at h
      split at h
      · cases h
      next hgenerics =>
        split at h
        · obtain rfl := Option.some.inj h
          rw [hgenerics]
          exact ⟨_, List.mem_cons_self, List.mem_singleton.mp hjob⟩
        · cases h
    | constant | circumstances =>
      -- nothing is asked for whose node is known
      dsimp only [rulePlan] at h
      split at h
      · obtain rfl := Option.some.inj h
        exact absurd hjob List.not_mem_nil
      · cases h

theorem definitionJob_of_containerPlan (h : job ∈ (containerPlan t mode).jobs) :
    g.DefinitionJob t mode (containerPlan t mode) job := by
  rcases containerPlan_cases t mode with ⟨node, hplan⟩ | ⟨u, hu, hplan⟩ | ⟨u, hu, hplan⟩
  · rw [hplan] at h
    exact absurd h List.not_mem_nil
  · rw [hplan] at h ⊢
    obtain rfl := List.mem_singleton.mp h
    exact .item hu
  · rw [hplan] at h ⊢
    obtain rfl := List.mem_singleton.mp h
    exact .value hu

theorem definitionJob_of_mem (hplan : (g.definitionPlan t mode).Returns plan)
    (h : job ∈ plan.jobs) : g.DefinitionJob t mode plan job := by
  cases returns_definitionPlan_iff.mp hplan with
  | override htags hoverride =>
    obtain rfl := List.mem_singleton.mp h
    exact .override htags hoverride
  | simple => exact absurd h List.not_mem_nil
  | composed htags _ _ hcomposition =>
    obtain ⟨u, hu, rfl⟩ := List.mem_map.mp h
    exact .part htags hcomposition hu
  | byKind _ _ _ _ hplan =>
    cases kindCase_of_kindPlan hplan with
    | object _ hproperties =>
      obtain ⟨p, hp, rfl⟩ := List.mem_map.mp h
      exact .property (fun u hu ↦
        Host.leads_of_mem_extract hproperties (Property.mem_of_mem_firsts hp) hu) rfl rfl
    | enumeration => exact absurd h List.not_mem_nil
    | container => exact definitionJob_of_containerPlan h

/-- A type that nothing takes is mentioned or rendered by its argument. -/
theorem embeddedJob_of_fallbackPlan {extra : Option Entries}
    (htags : ∃ tags, (g.host.tags t).Returns tags ∧ definedBy tags = .ok none)
    (hdeclined : g.settings.chain.findSome? (fun p ↦ rulePlan t mode none extra p.rule) = none)
    (h : job ∈ (g.fallbackPlan t mode).jobs) : g.EmbeddedJob t mode none extra job := by
  unfold fallbackPlan at h
  split at h
  · obtain ⟨u, hu, rfl⟩ := mem_generics_of_containerPlan h
    exact .argument hu
  next hkind =>
    unfold referencePlan at h
    split at h
    · exact absurd h List.not_mem_nil
    next hsimple =>
      split at h
      next hmode =>
        rw [Bool.and_eq_true, Bool.not_eq_true'] at hmode
        obtain rfl := List.mem_singleton.mp h
        simp only [hsimple, Option.isNone_none, Bool.true_and, Bool.or_eq_true,
          decide_eq_true_eq, not_or] at hkind
        exact .itself ⟨htags, hdeclined, hsimple, hkind.1, hkind.2⟩ hmode.1 hmode.2
      · exact absurd h List.not_mem_nil

theorem embeddedJob_of_mem {composition : Option (Composition σ)} {extra : Option Entries}
    (hplan : (g.embeddedPlan t mode composition extra).Returns plan) (h : job ∈ plan.jobs) :
    g.EmbeddedJob t mode composition extra job := by
  obtain ⟨tags, htags, ⟨u, hoverride, rfl⟩ | ⟨hoverride, rfl⟩⟩ := returns_embeddedPlan_iff.mp hplan
  · obtain rfl := List.mem_singleton.mp h
    exact .override htags hoverride
  · rw [Plan.jobs] at h
    unfold basePlan at h
    split at h
    next hrule =>
      obtain ⟨p, -, hrule⟩ := List.exists_of_findSome?_eq_some hrule
      obtain ⟨u, hu, rfl⟩ := mem_generics_of_rulePlan hrule h
      exact .argument hu
    next hdeclined =>
      cases composition with
      | some c =>
        obtain ⟨u, hu, rfl⟩ := List.mem_map.mp h
        exact .part hu
      | none => exact embeddedJob_of_fallbackPlan ⟨tags, htags, hoverride⟩ hdeclined h

theorem DefinitionJob.leads (h : g.DefinitionJob t mode plan job) {u : TypeRef σ}
    (hu : u ∈ job.types) : g.host.Leads t u := by
  cases h with
  | override htags hv =>
    obtain rfl := List.mem_singleton.mp hu
    exact .override htags hv
  | part htags hc hv =>
    obtain rfl := List.mem_singleton.mp hu
    exact .part htags hc hv
  | item hv =>
    obtain rfl := List.mem_singleton.mp hu
    exact .argument hv
  | value hv =>
    obtain rfl := List.mem_singleton.mp hu
    exact .argument hv
  | property hp => exact hp u (Job.mem_types_ofPlace hu)

theorem reachable_of_mem_jobs {job' : Job σ} (hplan : (g.plan job).Returns plan)
    (h : job' ∈ plan.jobs) {u : TypeRef σ} (hu : u ∈ job'.types) :
    ∃ t ∈ job.types, g.host.Reachable t u := by
  cases job with
  | definition t mode =>
    exact ⟨t, List.mem_cons_self, .single ((definitionJob_of_mem hplan h).leads hu)⟩
  | embedded t mode composition extra =>
    cases embeddedJob_of_mem hplan h with
    | override htags hv =>
      rcases List.mem_cons.mp hu with rfl | hu
      · exact ⟨t, List.mem_cons_self, .single (.override htags hv)⟩
      · exact ⟨u, List.mem_cons_of_mem t hu, .refl⟩
    | argument hv =>
      obtain rfl := List.mem_singleton.mp hu
      exact ⟨t, List.mem_cons_self, .single (.argument hv)⟩
    | part hv =>
      obtain rfl := List.mem_singleton.mp hu
      exact ⟨u, List.mem_cons_of_mem t hv, .refl⟩
    | itself =>
      obtain rfl := List.mem_singleton.mp hu
      exact ⟨u, List.mem_cons_self, .refl⟩
  | misplaced => exact nomatch hplan

end Generator

end Schemata
