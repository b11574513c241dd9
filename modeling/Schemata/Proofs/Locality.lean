import Schemata.Proofs.Declared

/-!
# Builds with references are local

A build that references what it embeds asks the host everything about one type and almost nothing
about the others: of an embedded type it only asks what the tags put in its place. So two hosts that
answer alike about the root, and about what stands in its place, build it alike as long as they
replace the same types; whatever else they say about the types in between is never asked for. Errors
are no exception: a build fails under one host exactly as it fails under the other.

Plans carry the argument. The plan of an embedded type is the same under both hosts, and what it
asks for is embedded again; the plan of the root is the same because the host answers alike about
the root.
-/

namespace Schemata

variable {σ : Type}

open Traced

/-! ## Hosts that agree -/

namespace Host

/-- What the tags of a type put in its place, if anything. -/
def override (host : Host σ) (t : TypeRef σ) : Traced (Option (TypeRef σ)) := do
  let tags ← host.tags t
  Traced.ofExcept (definedBy tags)

/-- The second type is the first one, or what tags put in its place, one after the other. -/
def StandsFor (host : Host σ) : TypeRef σ → TypeRef σ → Prop :=
  Relation.ReflTransGen fun t u ↦ (host.override t).Returns (some u)

/-- The hosts answer every question about the type alike. -/
structure AgreeOn (host host' : Host σ) (t : TypeRef σ) : Prop where
  tags : (host'.tags t).outcome = (host.tags t).outcome
  members : (host'.members t).outcome = (host.members t).outcome
  customProperties : (host'.customProperties t).outcome = (host.customProperties t).outcome
  isRecord : (host'.isRecord t).outcome = (host.isRecord t).outcome
  isAssignable : ∀ u, (host'.isAssignable u t).outcome = (host.isAssignable u t).outcome
  isBaseMember : ∀ ms, (host.members t).Returns ms → ∀ m ∈ ms,
    host'.isBaseMember m = host.isBaseMember m

/-- The hosts put the same types in the place of others. -/
def SameOverrides (host host' : Host σ) : Prop :=
  ∀ t, (host'.override t).outcome = (host.override t).outcome

end Host

/-! ## Extraction -/

section Extraction

variable {host host' : Host σ} {settings : Settings σ} {t : TypeRef σ}

namespace Property

theorem outcome_reading_congr (h : host.AgreeOn host' t) :
    (reading host' t).outcome = (reading host t).outcome := by
  unfold reading
  rw [outcome_bind, outcome_bind, h.tags]
  refine bind_congr fun tags ↦ ?_
  dsimp only
  cases Tag.find? tags "OpenApiByFields" with
  | none =>
    rw [outcome_bind, outcome_bind]
    refine bind_congr fun floor ↦ ?_
    rw [Option.isSome_none, if_neg Bool.false_ne_true, if_neg Bool.false_ne_true, outcome_bind,
      outcome_bind, h.isRecord]
  | some a => rfl

theorem outcome_extract_congr (h : host.AgreeOn host' t) (require : Bool) :
    (extract host' settings t require).outcome = (extract host settings t require).outcome := by
  rw [outcome_extract, outcome_extract, outcome_reading_congr h]
  refine bind_congr fun r ↦ ?_
  unfold gather
  rw [outcome_bind, outcome_bind, h.members]
  cases hms : (host.members t).outcome with
  | error e => rfl
  | ok ms =>
    change (_ : Traced _).outcome = (_ : Traced _).outcome
    rw [contributions_congr (h.isBaseMember ms hms)]
    simp only [outcome_bind, h.customProperties]

end Property

end Extraction

/-! ## Plans -/

/-- The job is about an embedded type that is to be referenced. -/
def Job.ByReference : Job σ → Prop
  | .definition _ _ => False
  | .embedded _ mode _ _ => mode.inline = false
  | .misplaced _ _ => True

namespace Generator

variable {host host' : Host σ} {settings : Settings σ} {t : TypeRef σ} {mode : Mode σ}

/-- Of an embedded type a plan only asks what stands in its place. -/
theorem outcome_embeddedPlan_congr
    (h : (host'.override t).outcome = (host.override t).outcome)
    (composition : Option (Composition σ)) (extra : Option Entries) :
    ((mk host' settings).embeddedPlan t mode composition extra).outcome =
      ((mk host settings).embeddedPlan t mode composition extra).outcome := by
  have hplan : ∀ host : Host σ,
      ((mk host settings).embeddedPlan t mode composition extra).outcome =
        (host.override t).outcome >>= fun override ↦ .ok (override.elim
          (.extended (extra.getD []) ((mk host settings).basePlan t mode composition extra))
          fun u ↦ .delegated (.embedded u mode composition extra)) := by
    intro host
    rw [embeddedPlan, Host.override]
    simp only [outcome_bind, bind_assoc]
    refine bind_congr fun tags ↦ bind_congr fun override ↦ ?_
    cases override <;> rfl
  rw [hplan host', hplan host, h]
  rfl

theorem outcome_enumNames_congr (h : host.AgreeOn host' t) (ms : List (Member σ))
    (names : List String) :
    ((mk host' settings).enumNames t ms names).outcome =
      ((mk host settings).enumNames t ms names).outcome := by
  induction ms generalizing names with
  | nil => rfl
  | cons m ms ih =>
    rw [enumNames, enumNames]
    split
    · rw [outcome_bind, outcome_bind]
      exact (congrArg (· >>= _) (h.isAssignable _)).trans (bind_congr fun _ ↦ ih _)
    · rw [outcome_bind, outcome_bind]
      exact bind_congr fun _ ↦ ih _

theorem outcome_kindPlan_congr (h : host.AgreeOn host' t) (tags : List (Tag σ)) :
    ((mk host' settings).kindPlan t tags mode).outcome =
      ((mk host settings).kindPlan t tags mode).outcome := by
  have hobject : ((mk host' settings).objectPlan t tags mode).outcome =
      ((mk host settings).objectPlan t tags mode).outcome := by
    rw [objectPlan, objectPlan, outcome_bind, outcome_bind]
    refine bind_congr fun extra ↦ ?_
    rw [outcome_bind, outcome_bind]
    exact congrArg (· >>= _) (Property.outcome_extract_congr h _)
  have henumeration : ((mk host' settings).enumeration t).outcome =
      ((mk host settings).enumeration t).outcome := by
    rw [enumeration, enumeration, outcome_bind, outcome_bind]
    refine (congrArg (· >>= _) h.members).trans (bind_congr fun ms ↦ ?_)
    rw [outcome_bind, outcome_bind, outcome_enumNames_congr h]
  unfold kindPlan
  cases t.kind with
  | object | primitive => exact hobject
  | enum =>
    dsimp only
    rw [outcome_map, outcome_map, henumeration]
  | array | dictionary => rfl

theorem outcome_definitionPlan_congr (h : host.AgreeOn host' t) :
    ((mk host' settings).definitionPlan t mode).outcome =
      ((mk host settings).definitionPlan t mode).outcome := by
  have hsimple : (mk host' settings).simpleType t = (mk host settings).simpleType t := rfl
  rw [definitionPlan, definitionPlan, outcome_bind, outcome_bind, h.tags]
  refine bind_congr fun tags ↦ ?_
  rw [outcome_bind, outcome_bind]
  refine bind_congr fun override ↦ ?_
  cases override with
  | some u => rfl
  | none =>
    dsimp only
    rw [hsimple]
    cases (mk host settings).simpleType t with
    | some s => rfl
    | none =>
      dsimp only
      rw [outcome_bind, outcome_bind]
      refine bind_congr fun composition ↦ ?_
      cases composition with
      | some c => rfl
      | none => exact outcome_kindPlan_congr h tags

/-! ## Builds -/

/-- An embedded type that is to be referenced comes to embedded types of that sort only. -/
theorem byReference_of_embedded {g : Generator σ} {composition : Option (Composition σ)}
    {extra : Option Entries} {plan : Plan σ} {job : Job σ} (hmode : mode.inline = false)
    (hplan : (g.embeddedPlan t mode composition extra).Returns plan) (h : job ∈ plan.jobs) :
    job.ByReference := by
  cases embeddedJob_of_mem hplan h with
  | itself _ hinline => exact absurd (hmode.symm.trans hinline) Bool.false_ne_true
  | _ => exact hmode

/-- A type that is planned by itself comes to what stands in its place, or to embedded types that
are to be referenced. -/
theorem override_or_byReference {g : Generator σ} {plan : Plan σ} {job : Job σ}
    (hmode : mode.inline = false) (hplan : (g.definitionPlan t mode).Returns plan)
    (h : job ∈ plan.jobs) :
    (∃ u, (g.host.override t).Returns (some u) ∧ job = .definition u mode) ∨ job.ByReference := by
  cases definitionJob_of_mem hplan h with
  | override htags hu =>
    refine .inl ⟨_, returns_bind.mpr ⟨_, htags, returns_ofExcept.mpr hu⟩, rfl⟩
  | property _ hinline => 
    exact .inr (Plan.ofProperty_induction (fun _ _ ↦ hinline.trans hmode) fun _ ↦ trivial)
  | _ => exact .inr hmode

/-- Two generators whose plans for a job come out the same, and whose outcomes for the jobs of that
plan agree, have the same outcome for the job. -/
theorem outcome_render_congr {g g' : Generator σ} {budget : Nat} {job : Job σ}
    (hplan : (g'.plan job).outcome = (g.plan job).outcome)
    (hjobs : ∀ plan, (g.plan job).Returns plan → ∀ job' ∈ plan.jobs,
      (g'.render budget job').outcome = (g.render budget job').outcome) :
    (g'.render (budget + 1) job).outcome = (g.render (budget + 1) job).outcome := by
  rw [outcome_render_succ, outcome_render_succ, hplan]
  exact bind_congr_of_ok fun plan hreturns ↦ Plan.run_congr (hjobs plan hreturns)

/-- Embedded types that are to be referenced depend on what stands in the place of types alone. -/
theorem outcome_render_of_byReference (h : host.SameOverrides host') (budget : Nat) {job : Job σ}
    (hjob : job.ByReference) :
    ((mk host' settings).render budget job).outcome =
      ((mk host settings).render budget job).outcome := by
  induction budget generalizing job with
  | zero => rfl
  | succ budget ih =>
    cases job with
    | definition => exact absurd hjob id
    | embedded t mode composition extra =>
      refine outcome_render_congr (outcome_embeddedPlan_congr (h t) composition extra) ?_
      exact fun plan hplan job' hjob' ↦ ih (byReference_of_embedded hjob hplan hjob')
    | misplaced => rfl

/-- **Builds with references are local.** If two hosts agree on a type and on whatever stands in its
place, and put the same types in the place of all others, the type is built alike under both: as the
same node, or failing with the same error. -/
theorem outcome_build_eq_of_agree (settings : Settings σ)
    (hagree : ∀ u, host.StandsFor t u → host.AgreeOn host' u)
    (hoverrides : host.SameOverrides host') (budget : Nat) (require : Option Bool) :
    ((mk host' settings).build budget t false require).outcome =
      ((mk host settings).build budget t false require).outcome := by
  have hdefinition : ∀ (mode : Mode σ), mode.inline = false →
      ((mk host' settings).render budget (.definition t mode)).outcome =
        ((mk host settings).render budget (.definition t mode)).outcome := by
    intro mode hmode
    -- along the chain of types that stand in the place of the root
    induction budget generalizing t with
    | zero => rfl
    | succ budget ih =>
      refine outcome_render_congr (outcome_definitionPlan_congr (hagree t .refl)) ?_
      intro plan hplan job hjob
      rcases override_or_byReference hmode hplan hjob with ⟨u, hu, rfl⟩ | hjob
      · exact ih fun v hv ↦ hagree v (.head hu hv)
      · exact outcome_render_of_byReference hoverrides budget hjob
  exact hdefinition _ rfl

end Generator

/-! ## Damaged books

Shelves and books as before, except that a book is tagged with a composition of nothing that could
be composed, and that every other question about it fails. -/

namespace Shelves

/-- A tag that says it composes types and names none. -/
def brokenOneOf : Tag Unit := .mk "marks.OneOf" [("value", .boolean (.bool true))] false

/-- The host that fails on books. -/
def damaged : Host Unit where
  members t := if t == book then fail .noAttribute else graph.host.members t
  tags t := if t == book then pure [brokenOneOf] else graph.host.tags t
  customProperties t := if t == book then fail .noAttribute else graph.host.customProperties t
  isAssignable := graph.host.isAssignable
  isRecord t := if t == book then fail .noAttribute else graph.host.isRecord t
  isBaseMember := graph.host.isBaseMember

theorem outcome_override (t : TypeRef Unit) : (graph.host.override t).outcome = .ok none := by
  rw [Host.override, outcome_bind]
  cases htags : (graph.host.tags t).outcome with
  | error e => exact nomatch htags
  | ok tags =>
    rw [untagged.tags_eq_nil htags]
    rfl

theorem sameOverrides_damaged : graph.host.SameOverrides damaged := by
  intro t
  rw [outcome_override]
  by_cases ht : t == book
  · have htags : damaged.tags t = pure [brokenOneOf] := if_pos ht
    rw [Host.override, htags]
    rfl
  · have htags : damaged.tags t = graph.host.tags t := if_neg ht
    rw [Host.override, htags]
    exact outcome_override t

theorem agreeOn_damaged : graph.host.AgreeOn damaged shelf where
  tags := rfl
  members := rfl
  customProperties := rfl
  isRecord := rfl
  isAssignable _ := rfl
  isBaseMember _ _ _ _ := rfl

/-- A shelf is built alike, with a reference to books, whether or not books can be built. -/
theorem outcome_build_shelf_damaged :
    (∃ node, (generator.build 9 shelf false none).Returns node ∧ node.references = [book]) ∧
    ((Generator.mk damaged {}).build 9 book false none).outcome =
      .error (.error (.validation "marks.OneOf.value" "must be an array of types" .null)) ∧
    ∀ budget, ((Generator.mk damaged {}).build budget shelf false none).outcome =
      (generator.build budget shelf false none).outcome := by
  refine ⟨⟨_, rfl, rfl⟩, rfl, fun budget ↦ ?_⟩
  refine Generator.outcome_build_eq_of_agree {} (fun u hu ↦ ?_) sameOverrides_damaged budget none
  obtain rfl : u = shelf := by
    rcases Relation.ReflTransGen.cases_head hu with hu | ⟨v, hv, -⟩
    · exact hu.symm
    · exact nomatch hv.symm.trans (outcome_override shelf)
  exact agreeOn_damaged

end Shelves

end Schemata
