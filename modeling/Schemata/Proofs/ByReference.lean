import Schemata.Proofs.Overrides
import Schemata.Proofs.Termination

/-!
# Builds with references end

Where types are referenced, only the root is spelled out. An embedded type is looked at as far as it
is told what stands in its place, or else what its arguments are; an object is a reference there,
however its members and properties lead back to it. So a build ends unless it is led on for ever in
this way: from the root, or from a type that the root is described with.

`Host.Yields` is one step of being led on. In contrast to `Host.Descends` it passes over the
arguments of a type that another one stands for, which is why there are builds that end although
something descends for ever.
-/

namespace Schemata

variable {σ : Type}

open Traced

/-! ## Being led on -/

namespace Host

variable {host : Host σ} {settings : Settings σ} {t u : TypeRef σ}

/-- The second type is what tags put in the place of the first one, or one of its arguments if they
put nothing there. -/
inductive Yields (host : Host σ) : TypeRef σ → TypeRef σ → Prop
  | override {t u : TypeRef σ} (h : (host.override t).Returns (some u)) : Yields host t u
  | argument {t u : TypeRef σ} (h : (host.override t).Returns none) (hu : u ∈ t.generics) :
      Yields host t u

/-- No infinite chain of such steps starts from the type. -/
def Settles (host : Host σ) (t : TypeRef σ) : Prop :=
  ¬∃ f : ℕ → TypeRef σ, f 0 = t ∧ ∀ n, host.Yields (f n) (f (n + 1))

/-- Whatever the properties of a type and its tags embed settles. -/
structure Rests (host : Host σ) (settings : Settings σ) (t : TypeRef σ) : Prop where
  property : ∀ require ps, (Property.extract host settings t require).Returns ps → ∀ p ∈ ps,
    (∀ u, p.type = .type u → host.Settles u) ∧ ∀ c, p.composition = some c → ∀ u ∈ c.members, host.Settles u
  part : ∀ tags c, (host.tags t).Returns tags → Composition.find? tags = .ok (some c) →
    ∀ u ∈ c.members, host.Settles u

theorem settles_iff_acc : host.Settles t ↔ Acc (fun u t ↦ host.Yields t u) t := by
  rw [Settles, not_iff_comm, not_acc_iff_exists_descending_chain]

theorem Settles.yields (ht : host.Settles t) (hu : host.Yields t u) : host.Settles u :=
  settles_iff_acc.mpr ((settles_iff_acc.mp ht).inv hu)

/-- What holds of a type as soon as it holds of all it yields, holds of whatever settles. -/
@[elab_as_elim]
theorem Settles.induction {motive : ∀ t, host.Settles t → Prop}
    (step : ∀ t (ht : host.Settles t), (∀ u (hu : host.Yields t u), motive u (ht.yields hu)) →
      motive t ht)
    (ht : host.Settles t) : motive t ht := by
  induction settles_iff_acc.mp ht with
  | intro t _ ih => exact step t ht fun u hu ↦ ih u hu (ht.yields hu)

theorem Yields.descends (h : host.Yields t u) : host.Descends t u := by
  cases h with
  | override h =>
    obtain ⟨tags, htags, hu⟩ := returns_override_iff.mp h
    exact .override htags hu
  | argument _ hu => exact .argument hu

theorem rests_of_leads (h : ∀ u, host.Leads t u → host.Settles u) : host.Rests settings t where
  property _ _ hps _ hp := ⟨fun u hu ↦ h u (leads_of_mem_extract hps hp (.inl hu)),
    fun c hc u hu ↦ h u (leads_of_mem_extract hps hp (.inr ⟨c, hc, hu⟩))⟩
  part _ _ htags hc u hu := h u (.part htags hc hu)

end Host

namespace Generator

variable {g : Generator σ} {t : TypeRef σ} {mode : Mode σ} {job : Job σ}

/-! ## Requests -/

/-- An embedded type that is to be referenced asks for what it yields, and for the parts of the
composition that takes its place. -/
theorem Asks.embedded_cases {composition : Option (Composition σ)} {extra : Option Entries}
    (hmode : mode.inline = false) (h : g.Asks (.embedded t mode composition extra) job) :
    (∃ u, g.host.Yields t u ∧
      (job = .embedded u mode composition extra ∨ job = Plan.plain mode u)) ∨
      ∃ c u, composition = some c ∧ u ∈ c.members ∧ job = Plan.plain mode u := by
  have hjob := h.embeddedJob
  obtain ⟨plan, before, after, hplan, hjobs, -⟩ := h
  obtain ⟨tags, htags, ⟨u, hu, rfl⟩ | ⟨hnone, -⟩⟩ := returns_embeddedPlan_iff.mp hplan
  · have hmem : job ∈ (Plan.delegated (.embedded u mode composition extra)).jobs := by
      rw [hjobs]
      exact List.mem_append_right before List.mem_cons_self
    exact .inl ⟨u, .override (Host.returns_override_iff.mpr ⟨tags, htags, hu⟩),
      .inl (List.mem_singleton.mp hmem)⟩
  · have hoverride : (g.host.override t).Returns none :=
      Host.returns_override_iff.mpr ⟨tags, htags, hnone⟩
    cases hjob with
    | override htags' hu =>
      rw [htags'.unique htags] at hu
      exact nomatch hu.symm.trans hnone
    | argument hu => exact .inl ⟨_, .argument hoverride hu, .inr rfl⟩
    | part hu => exact .inr ⟨_, _, rfl, hu, rfl⟩
    | itself _ hinline => exact absurd (hmode.symm.trans hinline) Bool.false_ne_true

/-- A type by itself asks for what stands in its place, or else for its arguments, for the parts of
its composition, or for its properties. -/
theorem Asks.definition_cases (h : g.Asks (.definition t mode) job) :
    (∃ u, (g.host.override t).Returns (some u) ∧ job = .definition u mode) ∨
      ((g.host.override t).Returns none ∧
        ((∃ u ∈ t.generics, job = Plan.plain mode u) ∨
          (∃ tags c, (g.host.tags t).Returns tags ∧ Composition.find? tags = .ok (some c) ∧
            ∃ u ∈ c.members, job = Plan.plain mode u) ∨
          ∃ require ps p inner, (Property.extract g.host g.settings t require).Returns ps ∧
            p ∈ ps ∧ job = Plan.ofProperty inner p ∧ inner.inline = mode.inline)) := by
  obtain ⟨plan, before, after, hplan, hjobs, -⟩ := h
  have hmem : job ∈ plan.jobs := by
    rw [hjobs]
    exact List.mem_append_right before List.mem_cons_self
  cases returns_definitionPlan_iff.mp hplan with
  | override htags hu =>
    exact .inl ⟨_, Host.returns_override_iff.mpr ⟨_, htags, hu⟩, List.mem_singleton.mp hmem⟩
  | simple => exact absurd hmem List.not_mem_nil
  | composed htags hnone _ hc =>
    obtain ⟨u, hu, rfl⟩ := List.mem_map.mp hmem
    exact .inr ⟨Host.returns_override_iff.mpr ⟨_, htags, hnone⟩,
      .inr (.inl ⟨_, _, htags, hc, u, hu, rfl⟩)⟩
  | byKind htags hnone _ _ hkind =>
    refine .inr ⟨Host.returns_override_iff.mpr ⟨_, htags, hnone⟩, ?_⟩
    cases kindCase_of_kindPlan hkind with
    | object _ hproperties =>
      obtain ⟨p, hp, rfl⟩ := List.mem_map.mp hmem
      exact .inr (.inr ⟨_, _, p, _, hproperties, Property.mem_of_mem_firsts hp, rfl, rfl⟩)
    | enumeration => exact absurd hmem List.not_mem_nil
    | container => exact .inl (mem_generics_of_containerPlan hmem)

/-! ## Grounded requests -/

theorem grounded_of_settles (hmode : mode.inline = false) (ht : g.host.Settles t)
    (extra : Option Entries) : g.Grounded (.embedded t mode none extra) := by
  induction ht using Host.Settles.induction generalizing extra with
  | step t ht ih =>
    refine ⟨_, fun job hask ↦ ?_⟩
    rcases hask.embedded_cases hmode with ⟨u, hu, rfl | rfl⟩ | ⟨c, u, hc, -⟩
    · exact ih u hu extra
    · exact ih u hu none
    · exact nomatch hc

theorem grounded_of_settles_parts (hmode : mode.inline = false) {c : Composition σ}
    (hc : ∀ u ∈ c.members, g.host.Settles u) (ht : g.host.Settles t) {extra : Option Entries} :
    g.Grounded (.embedded t mode (some c) extra) := by
  -- the composition is handed on to what stands in the place of the type, but not to its arguments
  induction ht using Host.Settles.induction with
  | step t ht ih =>
    refine ⟨_, fun job hask ↦ ?_⟩
    rcases hask.embedded_cases hmode with ⟨u, hu, rfl | rfl⟩ | ⟨c', u, hc', hu, rfl⟩
    · exact ih u hu
    · exact grounded_of_settles hmode (ht.yields hu) none
    · obtain rfl := Option.some.inj hc'
      exact grounded_of_settles hmode (hc u hu) none

/-- A type by itself is grounded if it settles and what finally stands in its place rests. -/
theorem grounded_definition (hmode : mode.inline = false) (ht : g.host.Settles t)
    (hrests : ∀ u, g.host.StandsFor t u → (g.host.override u).Returns none →
      g.host.Rests g.settings u) : g.Grounded (.definition t mode) := by
  -- the root is followed to what finally stands in its place, and only that is spelled out
  induction ht using Host.Settles.induction with
  | step t ht ih =>
    refine ⟨_, fun job hask ↦ ?_⟩
    rcases hask.definition_cases with ⟨u, hu, rfl⟩ | ⟨hnone, hcases⟩
    · exact ih u (.override hu) fun v hv ↦ hrests v (.head hu hv)
    · have hrest : g.host.Rests g.settings t := hrests t .refl hnone
      rcases hcases with ⟨u, hu, rfl⟩ | ⟨tags, c, htags, hc, u, hu, rfl⟩ |
        ⟨require, ps, p, inner, hps, hp, rfl, hinline⟩
      · exact grounded_of_settles hmode (ht.yields (.argument hnone hu)) none
      · exact grounded_of_settles hmode (hrest.part tags c htags hc u hu) none
      · obtain ⟨htype, hcomposition⟩ := hrest.property require ps hps p hp
        have hinner : inner.inline = false := hinline.trans hmode
        refine Plan.ofProperty_induction (fun u hu ↦ ?_) fun value ↦
          ⟨_, fun job hask ↦ absurd hask not_asks_misplaced⟩
        cases hc : p.composition with
        | none => exact grounded_of_settles hinner (htype u hu) _
        | some c => exact grounded_of_settles_parts hinner (hcomposition c hc) (htype u hu)

/-- **Builds with references end.** Let a host answer, and let a type settle. Let also everything
settle that the type finally standing in its place is described with: the types of its properties,
declared or injected, and the parts of the compositions that it and its properties are tagged with.
Then the type can be built with references, whatever else leads back to it. -/
theorem byReference_ends (hanswers : g.host.Answers) (ht : g.host.Settles t)
    (hrests : ∀ u, g.host.StandsFor t u → (g.host.override u).Returns none →
      g.host.Rests g.settings u) (require : Option Bool) :
    ∃ budget, (g.build budget t false require).Ends :=
  (halts_iff_grounded (ends_plan hanswers)).mpr (grounded_definition rfl ht hrests)

end Generator

/-! ## A choice between choices -/

namespace Choices

/-- A choice between choices can be built with references, although its inline build never ends. -/
theorem byReference_ends_choice : (graph choice).host.Answers ∧ (graph choice).host.Settles choice ∧
    (∀ u, (graph choice).host.StandsFor choice u →
      ((graph choice).host.override u).Returns none → (graph choice).host.Rests {} u) ∧
    (∃ budget, ((generator choice).build budget choice false none).Ends) := by
  have hyields : ∀ u, ¬(graph choice).host.Yields choice u := fun u hu ↦
    not_descends (.inl rfl) hu.descends
  have hsettles : (graph choice).host.Settles choice := by
    rintro ⟨f, hstart, hchain⟩
    exact hyields (f 1) (hstart ▸ hchain 0)
  have hrests : ∀ u, (graph choice).host.StandsFor choice u →
      ((graph choice).host.override u).Returns none → (graph choice).host.Rests {} u := by
    intro u hu _
    rcases Relation.ReflTransGen.cases_head hu with rfl | ⟨v, hv, -⟩
    · refine Host.rests_of_leads fun u hu ↦ ?_
      rw [leads_choice hu]
      exact hsettles
    · exact absurd (.override hv) (hyields v)
  exact ⟨(graph choice).answers, hsettles, hrests,
    Generator.byReference_ends (graph choice).answers hsettles hrests none⟩

end Choices

end Schemata
