import Schemata.Proofs.Overrides

/-!
# Metadata is merged once, and last

The metadata of a property travels with the job that renders the property's type. An override hands
it on, a processor could look at it, and whatever is rendered instead of the type, an argument or
the members of a composition, is rendered without it. With built-in processors nothing looks at it
on the way, so it can be taken out of the job altogether: `Generator.outcome_embedded_merged` says
that rendering with metadata is rendering without, and then merging.

The proof follows an override chain by induction on the budget. At its end the two plans differ in
nothing but the metadata they merge.
-/

namespace Schemata

variable {σ : Type}

open Traced

/-- A node with metadata merged into its schema. -/
def Node.merged (extra : Entries) (node : Node σ) : Node σ :=
  ⟨Extension.merge node.schema extra, node.references⟩

theorem Node.merged_nil (node : Node σ) : node.merged [] = node := rfl

/-- A built-in processor does not look at metadata. -/
theorem ProcessorRule.IsBuiltin.rulePlan_congr {rule : ProcessorRule σ} (hrule : rule.IsBuiltin)
    (t : TypeRef σ) (mode : Mode σ) (composition : Option (Composition σ))
    (extra extra' : Option Entries) :
    Generator.rulePlan t mode composition extra rule =
      Generator.rulePlan t mode composition extra' rule := by
  cases rule with
  | unwrap names => rfl
  | anyOfArguments names => rfl
  | _ => exact absurd hrule id

namespace Generator

variable {g : Generator σ}

/-- With built-in processors the plan of an embedded type does not depend on metadata, until it is
merged. -/
theorem basePlan_congr (hbuiltins : g.settings.BuiltinsOnly) (t : TypeRef σ) (mode : Mode σ)
    (composition : Option (Composition σ)) (extra extra' : Option Entries) :
    g.basePlan t mode composition extra = g.basePlan t mode composition extra' := by
  have hfirst : ∀ chain : List (Processor σ), (∀ p ∈ chain, p.rule.IsBuiltin) →
      chain.findSome? (fun p ↦ rulePlan t mode composition extra p.rule) =
        chain.findSome? fun p ↦ rulePlan t mode composition extra' p.rule := by
    intro chain hchain
    induction chain with
    | nil => rfl
    | cons p chain ih =>
      obtain ⟨hp, hchain⟩ := List.forall_mem_cons.mp hchain
      rw [List.findSome?_cons, List.findSome?_cons,
        hp.rulePlan_congr t mode composition extra extra',
        ih hchain]
  unfold basePlan
  rw [hfirst g.settings.chain hbuiltins]

/-- **Metadata is merged once, and last.** With built-in processors, an embedded type with metadata
is rendered as without, to the same references or the same failure, and the metadata are merged into
the schema that results; so it is for every type, composition and set of types around it. -/
theorem outcome_embedded_merged (hbuiltins : g.settings.BuiltinsOnly) (budget : Nat)
    (t : TypeRef σ) (mode : Mode σ) (composition : Option (Composition σ)) (extra : Entries) :
    (g.render budget (.embedded t mode composition (some extra))).outcome =
      Node.merged extra <$> (g.render budget (.embedded t mode composition none)).outcome := by
  induction budget generalizing t with
  | zero => rfl
  | succ budget ih =>
    rw [outcome_render_succ, outcome_render_succ, plan, plan, embeddedPlan, embeddedPlan]
    simp only [outcome_bind, bind_assoc, map_bind]
    refine bind_congr fun tags ↦ bind_congr fun override ↦ ?_
    cases override with
    | some u =>
      -- the override takes the metadata along, so it is still to be merged
      have hjob (job : Job σ) : (Plan.delegated job).run (fun job ↦ (g.render budget job).outcome) =
          (g.render budget job).outcome := by
        rw [Plan.run_of_jobs_eq_singleton rfl]
        cases (g.render budget job).outcome <;> rfl
      simp only [outcome_pure]
      exact (hjob _).trans ((ih u).trans (congrArg _ (hjob _).symm))
    | none =>
      have hplan := basePlan_congr hbuiltins t mode composition (some extra) none
      have hrun (e : Entries) : (Plan.extended e (g.basePlan t mode composition none)).run
            (fun job ↦ (g.render budget job).outcome) =
          Node.merged e <$> (g.basePlan t mode composition none).run
            fun job ↦ (g.render budget job).outcome := by
        rw [Plan.run_extended]
        cases (g.basePlan t mode composition none).run fun job ↦ (g.render budget job).outcome <;>
          rfl
      simp only [outcome_pure, hplan]
      have hnil : (Node.merged [] : Node σ → Node σ) = id := funext Node.merged_nil
      refine (hrun extra).trans (congrArg _ ?_)
      exact ((hrun []).trans (by rw [hnil, id_map])).symm

end Generator

namespace Labels

/-- Types are referred to, and properties that cannot be null are required. -/
def referring : Mode Unit := { inline := false, require := true }

/-- Metadata for a label. -/
def caption : Entries :=
  [(.str "example", .null), (.str "type", .str "text"), (.str "title", .str "Label")]

/-- The number in the place of a label takes the label's metadata, in which the null entry does not
count and the entry of a present key replaces it. -/
theorem outcome_embedded_merged_label :
    generator.settings.BuiltinsOnly ∧
      (generator.render 3 (.embedded label referring none none)).Returns
        ⟨[(.str "type", .str "integer")], []⟩ ∧
      (generator.render 3 (.embedded label referring none (some caption))).Returns
        ⟨[(.str "type", .str "text"), (.str "title", .str "Label")], []⟩ := by
  have hbuiltins : generator.settings.BuiltinsOnly := Settings.builtinsOnly_of_nil rfl
  have hplain : (generator.render 3 (.embedded label referring none none)).Returns
      ⟨[(.str "type", .str "integer")], []⟩ := rfl
  refine ⟨hbuiltins, hplain, ?_⟩
  rw [Returns, Generator.outcome_embedded_merged hbuiltins, hplain]
  rfl

end Labels

end Schemata
