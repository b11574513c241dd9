import Schemata.Proofs.Closure
import Schemata.Proofs.Cuts
import Schemata.Proofs.Locality

/-!
# Overrides are absolute

A type whose tags put another one in its place is rendered as that other type, by itself and
embedded alike, and nothing else about it is ever asked for. So two generators may disagree about
the members of such a type, about its other tags, well-formed or not, and about its simple type: as
long as both put the same type in its place, every answer they give is the same, errors included.

The types in question are collected in a set that the questions do not leave: with a replaced type
it holds what stands in its place, with any other type all types that occur in its description. The
proof is one congruence for plans, two lemmas that say that jobs and references stay in the set, and
an induction for each way of asking.
-/

namespace Schemata

variable {σ : Type}

open Traced

/-! ## What stands in the place of a type -/

theorem Host.returns_override_iff {host : Host σ} {t : TypeRef σ} {o : Option (TypeRef σ)} :
    (host.override t).Returns o ↔
      ∃ tags, (host.tags t).Returns tags ∧ definedBy tags = .ok o := by
  unfold Host.override
  rw [returns_bind]
  exact exists_congr fun tags ↦ and_congr_right fun _ ↦ returns_ofExcept

namespace Generator

variable {g : Generator σ} {t u : TypeRef σ} {mode : Mode σ}

theorem returns_plan_definition (h : (g.host.override t).Returns (some u)) (mode : Mode σ) :
    (g.plan (.definition t mode)).Returns (.delegated (.definition u mode)) := by
  obtain ⟨tags, htags, hu⟩ := Host.returns_override_iff.mp h
  exact returns_definitionPlan_iff.mpr (.override htags hu)

theorem returns_plan_embedded (h : (g.host.override t).Returns (some u)) (mode : Mode σ)
    (composition : Option (Composition σ)) (extra : Option Entries) :
    (g.plan (.embedded t mode composition extra)).Returns
      (.delegated (.embedded u mode composition extra)) := by
  obtain ⟨tags, htags, hu⟩ := Host.returns_override_iff.mp h
  exact returns_embeddedPlan_iff.mpr ⟨tags, htags, .inl ⟨u, hu, rfl⟩⟩

theorem outcome_render_of_delegated {job job' : Job σ}
    (h : (g.plan job).Returns (.delegated job')) (budget : Nat) :
    (g.render (budget + 1) job).outcome = (g.render budget job').outcome := by
  rw [outcome_render_of_plan budget h, Plan.run_of_jobs_eq_singleton rfl]
  cases (g.render budget job').outcome <;> rfl

/-! ## Another table of simple types -/

/-- The generator with another table of simple types. -/
def withSimpleTypes (g : Generator σ) (table : SimpleType.Table) : Generator σ :=
  { g with settings := { g.settings with simpleTypes := table } }

@[simp] theorem host_withSimpleTypes (g : Generator σ) (table : SimpleType.Table) :
    (g.withSimpleTypes table).host = g.host := rfl

theorem extract_withSimpleTypes (g : Generator σ) (table : SimpleType.Table) (t : TypeRef σ)
    (require : Bool) : Property.extract g.host (g.withSimpleTypes table).settings t require =
      Property.extract g.host g.settings t require := by
  have hfilter : (g.withSimpleTypes table).settings.filter = g.settings.filter := rfl
  exact Property.extract_congr_of_filter hfilter t require

theorem enumeration_congr_of_host {g' : Generator σ} (h : g'.host = g.host) (t : TypeRef σ) :
    g'.enumeration t = g.enumeration t := by
  have hnames : ∀ ms names, g'.enumNames t ms names = g.enumNames t ms names := by
    intro ms
    induction ms with
    | nil => exact fun _ ↦ rfl
    | cons m ms ih =>
      intro names
      rw [enumNames, enumNames]
      simp only [h, ih]
  unfold enumeration
  simp only [h, hnames]

theorem definitionPlan_withSimpleTypes {table : SimpleType.Table}
    (h : (g.withSimpleTypes table).simpleType t = g.simpleType t) (mode : Mode σ) :
    (g.withSimpleTypes table).definitionPlan t mode = g.definitionPlan t mode := by
  have hkind : ∀ tags, (g.withSimpleTypes table).kindPlan t tags mode = g.kindPlan t tags mode := by
    intro tags
    unfold kindPlan objectPlan
    simp only [host_withSimpleTypes, extract_withSimpleTypes,
      enumeration_congr_of_host (g.host_withSimpleTypes table)]
  unfold definitionPlan
  simp only [h, hkind]
  rfl

theorem embeddedPlan_withSimpleTypes {table : SimpleType.Table}
    (h : (g.withSimpleTypes table).simpleType t = g.simpleType t) (mode : Mode σ)
    (composition : Option (Composition σ)) (extra : Option Entries) :
    (g.withSimpleTypes table).embeddedPlan t mode composition extra =
      g.embeddedPlan t mode composition extra := by
  unfold embeddedPlan basePlan fallbackPlan referencePlan
  simp only [h]
  rfl

end Generator

/-! ## The same but for what is replaced -/

namespace Generator

variable {g g' : Generator σ} {among : Set (TypeRef σ)} {t u : TypeRef σ}

/-- Under both generators the tags put the same type in the place of this one. -/
structure ReplacedAlike (g g' : Generator σ) (t u : TypeRef σ) : Prop where
  left : (g.host.override t).Returns (some u)
  right : (g'.host.override t).Returns (some u)

/-- Both generators are told the same about the type. -/
structure DescribedAlike (g g' : Generator σ) (t : TypeRef σ) : Prop where
  agree : g.host.AgreeOn g'.host t
  simple : g'.simpleType t = g.simpleType t

/-- The generators differ only in what they know of replaced types: of the types among these, those
that nothing replaces are described alike, and lead to types among these only. -/
structure SameButReplaced (g g' : Generator σ) (among : Set (TypeRef σ)) : Prop where
  settings : g'.settings = { g.settings with simpleTypes := g'.settings.simpleTypes }
  alike : ∀ t ∈ among, (∃ u ∈ among, g.ReplacedAlike g' t u) ∨
    (g.DescribedAlike g' t ∧ ∀ u, g.host.Leads t u → u ∈ among)

theorem SameButReplaced.eq_withSimpleTypes (h : g.SameButReplaced g' among) :
    g' = { g with host := g'.host }.withSimpleTypes g'.settings.simpleTypes := by
  cases g'
  rw [withSimpleTypes, ← h.settings]

theorem DescribedAlike.outcome_definitionPlan (h : g.DescribedAlike g' t)
    (hsame : g.SameButReplaced g' among) (mode : Mode σ) :
    (g'.definitionPlan t mode).outcome = (g.definitionPlan t mode).outcome := by
  have hsimple := h.simple
  rw [hsame.eq_withSimpleTypes] at hsimple ⊢
  rw [definitionPlan_withSimpleTypes hsimple]
  exact outcome_definitionPlan_congr h.agree

theorem DescribedAlike.outcome_override (h : g.DescribedAlike g' t) :
    (g'.host.override t).outcome = (g.host.override t).outcome := by
  rw [Host.override, Host.override, outcome_bind, outcome_bind, h.agree.tags]

theorem DescribedAlike.outcome_embeddedPlan (h : g.DescribedAlike g' t)
    (hsame : g.SameButReplaced g' among) (mode : Mode σ) (composition : Option (Composition σ))
    (extra : Option Entries) :
    (g'.embeddedPlan t mode composition extra).outcome =
      (g.embeddedPlan t mode composition extra).outcome := by
  have hsimple := h.simple
  have hoverride := h.outcome_override
  rw [hsame.eq_withSimpleTypes] at hsimple hoverride ⊢
  rw [embeddedPlan_withSimpleTypes hsimple]
  exact outcome_embeddedPlan_congr hoverride composition extra

namespace SameButReplaced

variable {job job' : Job σ} {plan : Plan σ} {node : Node σ}

/-- **Plans are the same.** -/
theorem outcome_plan (h : g.SameButReplaced g' among) (hjob : ∀ t ∈ job.types, t ∈ among) :
    (g'.plan job).outcome = (g.plan job).outcome := by
  cases job with
  | definition t mode =>
    rcases h.alike t (hjob t List.mem_cons_self) with ⟨u, -, hu⟩ | ⟨ht, -⟩
    · exact (returns_plan_definition hu.right mode).trans
        (returns_plan_definition hu.left mode).symm
    · exact ht.outcome_definitionPlan h mode
  | embedded t mode composition extra =>
    rcases h.alike t (hjob t List.mem_cons_self) with ⟨u, -, hu⟩ | ⟨ht, -⟩
    · exact (returns_plan_embedded hu.right mode composition extra).trans
        (returns_plan_embedded hu.left mode composition extra).symm
    · exact ht.outcome_embeddedPlan h mode composition extra
  | misplaced => rfl

theorem types_of_mem_jobs (h : g.SameButReplaced g' among) (hjob : ∀ t ∈ job.types, t ∈ among)
    (hplan : (g.plan job).Returns plan) (hmem : job' ∈ plan.jobs) :
    ∀ u ∈ job'.types, u ∈ among := by
  intro u hu
  cases job with
  | definition t mode =>
    rcases h.alike t (hjob t List.mem_cons_self) with ⟨v, hv, hreplaced⟩ | ⟨-, hleads⟩
    · obtain rfl := hplan.unique (returns_plan_definition hreplaced.left mode)
      obtain rfl := List.mem_singleton.mp hmem
      obtain rfl := List.mem_singleton.mp hu
      exact hv
    · exact hleads u ((definitionJob_of_mem hplan hmem).leads hu)
  | embedded t mode composition extra =>
    rcases h.alike t (hjob t List.mem_cons_self) with ⟨v, hv, hreplaced⟩ | ⟨-, hleads⟩
    · -- what stands in the place of the type takes over the composition
      obtain rfl := hplan.unique (returns_plan_embedded hreplaced.left mode _ _)
      obtain rfl := List.mem_singleton.mp hmem
      rcases List.mem_cons.mp hu with rfl | hu
      · exact hv
      · exact hjob u (List.mem_cons_of_mem t hu)
    · cases embeddedJob_of_mem hplan hmem with
      | override htags hv =>
        rcases List.mem_cons.mp hu with rfl | hu
        · exact hleads u (.override htags hv)
        · exact hjob u (List.mem_cons_of_mem t hu)
      | argument hv =>
        obtain rfl := List.mem_singleton.mp hu
        exact hleads u (.argument hv)
      | part hv =>
        obtain rfl := List.mem_singleton.mp hu
        exact hjob u (List.mem_cons_of_mem t hv)
      | itself =>
        obtain rfl := List.mem_singleton.mp hu
        exact hjob u List.mem_cons_self
  | misplaced => exact nomatch hplan

/-- **Jobs come out the same.** -/
theorem outcome_render (h : g.SameButReplaced g' among) (budget : Nat)
    (hjob : ∀ t ∈ job.types, t ∈ among) :
    (g'.render budget job).outcome = (g.render budget job).outcome := by
  induction budget generalizing job with
  | zero => rfl
  | succ budget ih =>
    refine outcome_render_congr (h.outcome_plan hjob) fun plan hplan job' hmem ↦ ?_
    exact ih (h.types_of_mem_jobs hjob hplan hmem)

theorem outcome_build (h : g.SameButReplaced g' among) (budget : Nat) (ht : t ∈ among)
    (inline : Bool) (require : Option Bool) :
    (g'.build budget t inline require).outcome = (g.build budget t inline require).outcome := by
  unfold build
  rw [h.settings]
  exact h.outcome_render budget fun u hu ↦ List.mem_singleton.mp hu ▸ ht

theorem mem_of_mem_references (h : g.SameButReplaced g' among)
    (hbuiltins : g.settings.BuiltinsOnly) (hrenders : g.Renders job node)
    (hjob : ∀ t ∈ job.types, t ∈ among) : ∀ r ∈ node.references, r ∈ among := by
  refine hrenders.induction (motive := fun job node ↦ (∀ t ∈ job.types, t ∈ among) →
    ∀ r ∈ node.references, r ∈ among) ?_ hjob
  intro job plan nodes hplan hnodes hjob r hr
  rcases Plan.mem_references_assemble hr with hr | ⟨node, hnode, hr⟩
  · obtain ⟨_, _, rfl, -, -⟩ := cuts_of_mem_known hbuiltins hplan hr
    exact hjob r List.mem_cons_self
  · obtain ⟨job', hjob', -, hmotive⟩ := exists_of_mem_right hnodes hnode
    exact hmotive (h.types_of_mem_jobs hjob hplan hjob') r hr

theorem freestanding (h : g.SameButReplaced g' among) :
    g.freestanding.SameButReplaced g'.freestanding among where
  settings := by
    unfold Generator.freestanding
    rw [h.settings]
  alike t ht := by
    rcases h.alike t ht with ⟨u, hu, hreplaced⟩ | ⟨hdescribed, hleads⟩
    · exact .inl ⟨u, hu, hreplaced.left, hreplaced.right⟩
    · exact .inr ⟨⟨hdescribed.agree, hdescribed.simple⟩, hleads⟩

end SameButReplaced

end Generator

/-! ## Resolution -/

namespace Components

variable {define define' : TypeRef σ → Traced (Node σ)} {among : Set (TypeRef σ)}
  {p : Progress σ}

theorem mem_pending_enqueue {types : List (TypeRef σ)} {t : TypeRef σ}
    (h : t ∈ (p.enqueue types).pending) : t ∈ p.pending ∨ t ∈ types := by
  induction types generalizing p with
  | nil => exact .inl h
  | cons u types ih =>
    rw [Progress.enqueue, List.foldl_cons] at h
    rcases ih h with h | h
    · split at h
      · exact .inl h
      · rcases List.mem_append.mp h with h | h
        · exact .inl h
        · exact .inr (List.mem_singleton.mp h ▸ List.mem_cons_self)
    · exact .inr (List.mem_cons_of_mem u h)

theorem pending_of_file {t : TypeRef σ} {schema : Entries} {p' : Progress σ}
    (h : (p.file t schema).Returns p') : p'.pending = p.pending := by
  unfold Progress.file at h
  dsimp only at h
  split at h
  · obtain ⟨_, -, h⟩ := returns_bind.mp h
    obtain rfl := returns_pure.mp h
    rfl
  · split at h
    · obtain ⟨_, -, h⟩ := returns_bind.mp h
      obtain rfl := returns_pure.mp h
      rfl
    · obtain rfl := returns_pure.mp h
      rfl

/-- Definitions that come out the same, with references among the types that do, are resolved to the
same end. -/
theorem outcome_resolve_congr
    (hdefine : ∀ t ∈ among, (define' t).outcome = (define t).outcome)
    (hreferences : ∀ t ∈ among, ∀ node, (define t).Returns node →
      ∀ r ∈ node.references, r ∈ among)
    (rounds : Nat) (hpending : ∀ t ∈ p.pending, t ∈ among) :
    (resolve define' rounds p).outcome = (resolve define rounds p).outcome := by
  induction rounds generalizing p with
  | zero =>
    obtain ⟨schemas, owners, seen, pending⟩ := p
    cases pending <;> rfl
  | succ rounds ih =>
    obtain ⟨schemas, owners, seen, pending⟩ := p
    cases pending with
    | nil => rfl
    | cons t rest =>
      obtain ⟨ht, hrest⟩ := List.forall_mem_cons.mp hpending
      rw [resolve, resolve]
      dsimp only
      rw [outcome_bind, outcome_bind, hdefine t ht]
      refine bind_congr_of_ok fun node hnode ↦ ?_
      rw [outcome_bind, outcome_bind]
      refine bind_congr_of_ok fun q hfile ↦ ih fun u hu ↦ ?_
      rcases mem_pending_enqueue hu with hu | hu
      · rw [pending_of_file hfile] at hu
        exact hrest u hu
      · exact hreferences t ht node hnode u (List.mem_filter.mp (mem_sortByText.mp hu)).1

end Components

/-! ## Answers -/

namespace Generator

variable {g g' : Generator σ} {among : Set (TypeRef σ)}

/-- The first type is rendered as the second one, whatever the circumstances, one job later. -/
structure RendersAs (g : Generator σ) (x y : TypeRef σ) : Prop where
  build : ∀ budget inline require,
    (g.build (budget + 1) x inline require).outcome = (g.build budget y inline require).outcome
  embedded : ∀ budget mode composition extra,
    (g.render (budget + 1) (.embedded x mode composition extra)).outcome =
      (g.render budget (.embedded y mode composition extra)).outcome

theorem rendersAs_of_override {x y : TypeRef σ} (h : (g.host.override x).Returns (some y)) :
    g.RendersAs x y where
  build budget _ _ := outcome_render_of_delegated (returns_plan_definition h _) budget
  embedded budget mode composition extra :=
    outcome_render_of_delegated (returns_plan_embedded h mode composition extra) budget

/-- Every call about types among these has the same result or fails with the same error. -/
structure SameAnswers (g g' : Generator σ) (among : Set (TypeRef σ)) : Prop where
  build : ∀ budget, ∀ t ∈ among, ∀ inline require,
    (g'.build budget t inline require).outcome = (g.build budget t inline require).outcome
  embedded : ∀ budget t mode composition extra,
    (∀ u ∈ (Job.embedded t mode composition extra).types, u ∈ among) →
      (g'.render budget (.embedded t mode composition extra)).outcome =
        (g.render budget (.embedded t mode composition extra)).outcome
  components : ∀ budget inline roots, (∀ t ∈ roots, t ∈ among) →
    (Components.build g' budget inline roots).outcome =
      (Components.build g budget inline roots).outcome
  freestanding : ∀ budget, ∀ root ∈ among,
    (freestandingSchema g' budget root).outcome = (freestandingSchema g budget root).outcome

namespace SameButReplaced

theorem outcome_components (h : g.SameButReplaced g' among) (hbuiltins : g.settings.BuiltinsOnly)
    (budget : Nat) (inline : Bool) {roots : List (TypeRef σ)} (hroots : ∀ t ∈ roots, t ∈ among) :
    (Components.build g' budget inline roots).outcome =
      (Components.build g budget inline roots).outcome := by
  have hreferences : ∀ t ∈ among, ∀ node, (g.build budget t inline).Returns node →
      ∀ r ∈ node.references, r ∈ among := by
    intro t ht node hnode
    exact h.mem_of_mem_references hbuiltins ⟨budget, hnode⟩
      fun u hu ↦ List.mem_singleton.mp hu ▸ ht
  refine Components.outcome_resolve_congr (fun t ht ↦ h.outcome_build budget ht inline none)
    hreferences budget fun t ht ↦ ?_
  exact hroots t ((Components.mem_pending_enqueue ht).resolve_left List.not_mem_nil)

theorem outcome_freestandingSchema (h : g.SameButReplaced g' among)
    (hbuiltins : g.settings.BuiltinsOnly) (budget : Nat) {root : TypeRef σ} (hroot : root ∈ among) :
    (freestandingSchema g' budget root).outcome = (freestandingSchema g budget root).outcome := by
  have hfreestanding := h.freestanding
  unfold freestandingSchema
  rw [outcome_bind, outcome_bind, hfreestanding.outcome_build budget hroot]
  refine bind_congr_of_ok fun node hnode ↦ ?_
  have hreferences : ∀ r ∈ TypeRef.sortByText node.references, r ∈ among := by
    intro r hr
    refine hfreestanding.mem_of_mem_references hbuiltins ⟨budget, hnode⟩ (fun u hu ↦ ?_) r
      (Components.mem_sortByText.mp hr)
    exact List.mem_singleton.mp hu ▸ hroot
  have hcomponents := hfreestanding.outcome_components hbuiltins budget true hreferences
  by_cases hempty : node.references.isEmpty
  · rw [if_pos hempty, if_pos hempty]
  · rw [if_neg hempty, if_neg hempty, outcome_bind, outcome_bind, hcomponents]

theorem sameAnswers (h : g.SameButReplaced g' among) (hbuiltins : g.settings.BuiltinsOnly) :
    g.SameAnswers g' among where
  build budget _ ht := h.outcome_build budget ht
  embedded budget _ _ _ _ hjob := h.outcome_render budget hjob
  components budget inline _ hroots := h.outcome_components hbuiltins budget inline hroots
  freestanding budget _ hroot := h.outcome_freestandingSchema hbuiltins budget hroot

/-- Generators that differ in what they know of one type are the same but for what is replaced, if
another type stands in the place of that one. -/
theorem of_one {x y : TypeRef σ}
    (hsettings : g'.settings = { g.settings with simpleTypes := g'.settings.simpleTypes })
    (hreplaced : g.ReplacedAlike g' x y) (hy : y ∈ among)
    (hdescribed : ∀ t ∈ among, t ≠ x → g.DescribedAlike g' t)
    (hleads : ∀ t ∈ among, t ≠ x → ∀ u, g.host.Leads t u → u ∈ among) :
    g.SameButReplaced g' among where
  settings := hsettings
  alike t ht := by
    by_cases htx : t = x
    · rw [htx]
      exact .inl ⟨y, hy, hreplaced⟩
    · exact .inr ⟨hdescribed t ht htx, hleads t ht htx⟩

end SameButReplaced

/-- **Overrides are absolute.** A type that another one is put in the place of is rendered as that
one, and whatever else is known of it makes no difference to any call: neither what the host says,
on all types if the table of simple types stays, nor its own entry in that table. -/
theorem override_absolute (hbuiltins : g.settings.BuiltinsOnly) :
    (∀ x y, (g.host.override x).Returns (some y) → g.RendersAs x y) ∧
      ∀ g' among, g.SameButReplaced g' among → g.SameAnswers g' among :=
  ⟨fun _ _ ↦ rendersAs_of_override, fun _ _ h ↦ h.sameAnswers hbuiltins⟩

end Generator

/-! ## Labels

A crate has a label, and a number stands in the place of labels. -/

namespace Labels

/-- A label. -/
def label : TypeRef Unit := { fullName := "library.Label", simpleName := "Label" }

/-- A crate. -/
def crate : TypeRef Unit := { fullName := "library.Crate", simpleName := "Crate" }

/-- The tag that puts a number in the place of a type. -/
def numbered : Tag Unit :=
  .mk "marks.OpenApiPropertyType" [("defined_by", .type Shelves.number)] false

/-- The declarations. -/
def graph : TypeGraph Unit where
  declarations :=
    [{ type := crate, custom := [⟨"label", label⟩] },
      { type := label, tags := [numbered], custom := [⟨"crate", crate⟩] }]

/-- The generator with the usual settings. -/
def generator : Generator Unit := { host := graph.host }

/-- The host that has another tag for labels, which is broken, and fails on them otherwise. -/
def damaged : Host Unit where
  members t := if t == label then fail .noAttribute else graph.host.members t
  tags t := if t == label then pure [Shelves.brokenOneOf, numbered] else graph.host.tags t
  customProperties t := if t == label then fail .noAttribute else graph.host.customProperties t
  isAssignable := graph.host.isAssignable
  isRecord t := if t == label then fail .noAttribute else graph.host.isRecord t
  isBaseMember := graph.host.isBaseMember

/-- The table in which labels are simple. -/
def table : SimpleType.Table := ("library.Label", ⟨"string", .null⟩) :: SimpleType.defaults

/-- The generator that knows other things about labels. -/
def relabelled : Generator Unit :=
  { host := damaged, settings := { generator.settings with simpleTypes := table } }

/-- The types in question. -/
def among : Set (TypeRef Unit) := {t | t ∈ [crate, label, Shelves.number]}

theorem simpleName_numbered : numbered.simpleName = "OpenApiPropertyType" := by
  rw [Tag.simpleName, show numbered.name = "marks.OpenApiPropertyType" from rfl]
  rfl

theorem simpleName_brokenOneOf : Shelves.brokenOneOf.simpleName = "OneOf" := by
  rw [Tag.simpleName, show Shelves.brokenOneOf.name = "marks.OneOf" from rfl]
  rfl

theorem definedBy_numbered {tags : List (Tag Unit)}
    (h : Tag.find? tags "OpenApiPropertyType" = some numbered) :
    definedBy tags = .ok (some Shelves.number) := by
  rw [definedBy, h]
  rfl

theorem replacedAlike_label : generator.ReplacedAlike relabelled label Shelves.number where
  left := by
    refine Host.returns_override_iff.mpr ⟨[numbered], rfl, definedBy_numbered ?_⟩
    simp [Tag.find?, simpleName_numbered]
  right := by
    refine Host.returns_override_iff.mpr
      ⟨[Shelves.brokenOneOf, numbered], rfl, definedBy_numbered ?_⟩
    simp [Tag.find?, simpleName_numbered, simpleName_brokenOneOf]

theorem eq_of_ne_label {t : TypeRef Unit} (ht : t ∈ among) (hlabel : t ≠ label) :
    t = crate ∨ t = Shelves.number := by
  rcases List.mem_cons.mp ht with rfl | ht
  · exact .inl rfl
  · rcases List.mem_cons.mp ht with rfl | ht
    · exact absurd rfl hlabel
    · exact .inr (List.mem_singleton.mp ht)

theorem describedAlike {t : TypeRef Unit} (ht : t ∈ among) (hlabel : t ≠ label) :
    generator.DescribedAlike relabelled t := by
  rcases eq_of_ne_label ht hlabel with rfl | rfl
  · exact ⟨⟨rfl, rfl, rfl, rfl, fun _ ↦ rfl, fun _ _ _ _ ↦ rfl⟩, rfl⟩
  · exact ⟨⟨rfl, rfl, rfl, rfl, fun _ ↦ rfl, fun _ _ _ _ ↦ rfl⟩, rfl⟩

theorem mem_among_of_leads {t u : TypeRef Unit} (ht : t ∈ among) (hlabel : t ≠ label)
    (h : graph.host.Leads t u) : u ∈ among := by
  have hplain : graph.declared (·.tags) t = [] ∧ graph.declared (·.members) t = [] ∧
      t.generics = [] := by
    rcases eq_of_ne_label ht hlabel with rfl | rfl
    · exact ⟨rfl, rfl, rfl⟩
    · exact ⟨rfl, rfl, rfl⟩
  obtain ⟨htags, hmembers, hgenerics⟩ := hplain
  rcases TypeGraph.leads_cases htags (by simp [hmembers]) h with hu | ⟨m, hm, -⟩ | ⟨c, hc, rfl⟩
  · rw [hgenerics] at hu
    exact absurd hu List.not_mem_nil
  · rw [hmembers] at hm
    exact absurd hm List.not_mem_nil
  · rcases eq_of_ne_label ht hlabel with rfl | rfl
    · obtain rfl := List.mem_singleton.mp hc
      exact List.mem_cons_of_mem crate List.mem_cons_self
    · exact absurd hc List.not_mem_nil

theorem sameButReplaced : generator.SameButReplaced relabelled among :=
  .of_one rfl replacedAlike_label
    (List.mem_cons_of_mem crate (List.mem_cons_of_mem label List.mem_cons_self))
    (fun _ ↦ describedAlike) (fun _ ht hlabel _ ↦ mem_among_of_leads ht hlabel)

/-- A label is a number, and crates are built and described alike whatever else labels are. -/
theorem override_absolute_label :
    (∀ budget, (generator.build (budget + 1) label).outcome =
      (generator.build budget Shelves.number).outcome) ∧
    (damaged.members label).outcome = .error (.error .noAttribute) ∧
    relabelled.simpleType label = some ⟨"string", .null⟩ ∧
    ∀ budget, (freestandingSchema relabelled budget crate).outcome =
      (freestandingSchema generator budget crate).outcome := by
  have hbuiltins : generator.settings.BuiltinsOnly := Settings.builtinsOnly_of_nil rfl
  obtain ⟨hrenders, hsame⟩ := Generator.override_absolute hbuiltins
  refine ⟨fun budget ↦ (hrenders label _ replacedAlike_label.left).build budget false none,
    rfl, rfl, fun budget ↦ ?_⟩
  exact (hsame relabelled among sameButReplaced).freestanding budget crate List.mem_cons_self

end Labels

end Schemata
