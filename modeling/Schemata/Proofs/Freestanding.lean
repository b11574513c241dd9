import Schemata.Proofs.Cuts
import Schemata.Proofs.Resolution

/-!
# Freestanding schemas

A freestanding schema is the inline schema of its root, framed by the dialect in front and, if
anything was cut, by definitions at the end. The definitions are built by a second pass that starts
each type afresh and makes cuts of its own, so it is the closure of resolution, not the first pass,
that keeps references from leading out of the schema.

What is framed has no keys of the frame: no rendered schema has a key twice, and none has the keys
`$schema` or `definitions` unless metadata adds them. `Tidy` says so, and it is kept by every plan.
-/

namespace Schemata

variable {σ : Type}

open Traced TypeRef

/-! ## Keys of rendered schemas -/

/-- The keys of the frame of a freestanding schema. -/
def frameKeys : List String := ["$schema", "definitions"]

/-- The schema has no key twice and none of the frame. -/
structure Tidy (schema : Entries) : Prop where
  distinct : Value.Distinct schema
  lacks : ∀ key ∈ frameKeys, ∀ v, (.str key, v) ∉ schema

section Tidy

variable {e extra : Entries} {a b : String} {v w : Value}

theorem tidy_singleton (h : a ∉ frameKeys) : Tidy [(.str a, v)] where
  distinct := List.pairwise_singleton _ _
  lacks key hkey w hw := by
    obtain ⟨hk, -⟩ := Prod.mk.inj (List.mem_singleton.mp hw)
    obtain rfl := Value.str.inj hk
    exact h hkey

theorem Tidy.put (h : Tidy e) (ha : a ∉ frameKeys) : Tidy (Value.put e (.str a) v) where
  distinct := h.distinct.put
  lacks key hkey w hw := by
    refine h.lacks key hkey w ((Value.mem_put_str fun hk ↦ ?_).mp hw)
    obtain rfl := Value.str.inj hk
    exact ha hkey

theorem tidy_pair (ha : a ∉ frameKeys) (hb : b ∉ frameKeys) (hab : a ≠ b) :
    Tidy [(.str a, v), (.str b, w)] := by
  have hput : Value.put [(.str a, v)] (.str b) w = [(.str a, v), (.str b, w)] :=
    Value.put_str_eq_append (by simp [hab.symm])
  rw [← hput]
  exact (tidy_singleton ha).put hb

theorem Tidy.merge (h : Tidy e) (hextra : Extension.Avoids frameKeys extra) :
    Tidy (Extension.merge e extra) where
  distinct := Extension.distinct_merge h.distinct extra
  lacks key hkey v hv := h.lacks key hkey v ((Extension.mem_merge_str hextra hkey).mp hv)

theorem SimpleType.tidy_schema (s : SimpleType) : Tidy s.schema := by
  rw [SimpleType.schema]
  split
  · exact tidy_singleton (by decide)
  · exact tidy_pair (by decide) (by decide) (by decide)

end Tidy

namespace Plan

/-- What the plan itself puts into a schema is tidy. -/
def Tidy : Plan σ → Prop
  | finished node => Schemata.Tidy node.schema
  | extended extra plan => Extension.Avoids frameKeys extra ∧ plan.Tidy
  | object head _ _ => Schemata.Tidy head
  | _ => True

theorem Tidy.assemble {plan : Plan σ} (h : plan.Tidy) {nodes : List (Node σ)}
    (hlength : plan.jobs.length = nodes.length)
    (hnodes : ∀ node ∈ nodes, Schemata.Tidy node.schema) :
    Schemata.Tidy (plan.assemble nodes).schema := by
  induction plan with
  | finished node => exact h
  | delegated job =>
    obtain ⟨node, rfl⟩ := List.length_eq_one_iff.mp hlength.symm
    exact hnodes node List.mem_cons_self
  | composition c mode =>
    refine tidy_singleton ?_
    cases c.kind <;> decide
  | items element mode => exact tidy_pair (by decide) (by decide) (by decide)
  | values value mode => exact tidy_pair (by decide) (by decide) (by decide)
  | object head properties mode =>
    rw [Plan.assemble, objectSchema]
    split
    · exact Schemata.Tidy.put h (by decide)
    · exact (Schemata.Tidy.put h (by decide)).put (by decide)
  | extended extra plan ih => exact (ih h.2 hlength).merge h.1

end Plan

namespace Generator

variable {g : Generator σ} {t : TypeRef σ} {mode : Mode σ} {job : Job σ} {plan : Plan σ}

theorem tidy_containerPlan (t : TypeRef σ) (mode : Mode σ) : (containerPlan t mode).Tidy := by
  unfold containerPlan
  split
  · exact tidy_singleton (by decide)
  · split
    · exact tidy_pair (by decide) (by decide) (by decide)
    · exact trivial
  · exact trivial
  · exact tidy_singleton (by decide)

theorem tidy_of_baseCase (h : g.BaseCase t mode plan) : plan.Tidy := by
  cases h with
  | container => exact tidy_containerPlan t mode
  | simple s => exact s.tidy_schema
  | reference => exact tidy_singleton (by decide)
  | _ => exact trivial

theorem tidy_plan (hbuiltins : g.settings.BuiltinsOnly) (havoid : g.host.ExtensionsAvoid frameKeys)
    (hjob : job.Avoids frameKeys) (h : (g.plan job).Returns plan) : plan.Tidy := by
  cases job with
  | definition t mode =>
    cases returns_definitionPlan_iff.mp h with
    | override | composed => exact trivial
    | @simple _ s => exact s.tidy_schema
    | byKind htags _ _ _ hplan =>
      cases kindCase_of_kindPlan hplan with
      | object hextra _ =>
        exact (tidy_pair (by decide) (by decide) (by decide)).merge (havoid.types htags hextra)
      | enumeration names => exact tidy_pair (by decide) (by decide) (by decide)
      | container => exact tidy_containerPlan t mode
  | embedded t mode composition extra =>
    obtain ⟨tags, -, ⟨u, -, rfl⟩ | ⟨-, rfl⟩⟩ := returns_embeddedPlan_iff.mp h
    · exact trivial
    · exact ⟨hjob, tidy_of_baseCase (baseCase_basePlan hbuiltins t mode composition extra)⟩
  | misplaced => exact nomatch h

theorem Renders.tidy (hbuiltins : g.settings.BuiltinsOnly)
    (havoid : g.host.ExtensionsAvoid frameKeys) {node : Node σ} (h : g.Renders job node)
    (hjob : job.Avoids frameKeys) : Schemata.Tidy node.schema := by
  refine h.induction (motive := fun job node ↦
    job.Avoids frameKeys → Schemata.Tidy node.schema) ?_ hjob
  intro job plan nodes hplan hnodes hjob
  refine (tidy_plan hbuiltins havoid hjob hplan).assemble hnodes.length_eq fun node hnode ↦ ?_
  obtain ⟨job', hjob', -, htidy⟩ := exists_of_mem_right hnodes hnode
  exact htidy (avoids_of_mem_jobs havoid hjob hplan job' hjob')

end Generator

/-! ## The frame -/

/-- The definitions name the target of a reference. -/
def Defines (definitions : Entries) (s : String) : Prop :=
  ∃ name body, (.str name, .map body) ∈ definitions ∧ s = definitionsPrefix ++ name

/-- Every reference in the schema or in one of its definitions names a definition, and there are
definitions exactly if the schema has a reference. -/
structure SelfContained (schema : Entries) : Prop where
  root : ∀ s, Emits schema s →
    ∃ definitions, (.str "definitions", .map definitions) ∈ schema ∧ Defines definitions s
  definitions : ∀ definitions, (.str "definitions", .map definitions) ∈ schema →
    ∀ k body, (k, .map body) ∈ definitions → ∀ s, Emits body s → Defines definitions s
  present : (∃ v, (.str "definitions", v) ∈ schema) ↔ ∃ s, Emits schema s

/-- A schema with the dialect in front. -/
def framed (schema : Entries) : Entries := (.str "$schema", .str schemaDialect) :: schema

section Frame

variable {e : Entries} {v : Value} {s : String}

theorem putAll_schema (h : Tidy e) :
    Value.putAll [(.str "$schema", .str schemaDialect)] e = framed e := by
  refine Value.putAll_eq_append (List.pairwise_cons.mpr ⟨fun x hx ↦ ?_, h.distinct⟩)
  refine Bool.eq_false_iff.mpr fun hk ↦ h.lacks "$schema" (by decide) x.2 ?_
  rwa [← show x = (.str "$schema", x.2) from Prod.ext (Value.sameKey_str_left.mp hk) rfl]

theorem not_mem_framed (h : Tidy e) : (.str "definitions", v) ∉ framed e := by
  intro hv
  rcases List.mem_cons.mp hv with hv | hv
  · exact absurd (congrArg Prod.fst hv) (by simp)
  · exact h.lacks "definitions" (by decide) v hv

theorem put_definitions (h : Tidy e) :
    Value.put (framed e) (.str "definitions") v = framed e ++ [(.str "definitions", v)] :=
  Value.put_str_eq_append fun _ ↦ not_mem_framed h

theorem emits_framed : Emits (framed e) s ↔ Emits e s := by
  rw [framed, emits_cons]
  refine or_iff_right (not_emits_of_free fun x hx ↦ ?_)
  rw [List.mem_singleton.mp hx]
  simp [Free, reservedKeys]

theorem emits_framed_append : Emits (framed e ++ [(.str "definitions", v)]) s ↔ Emits e s := by
  rw [emits_append, emits_framed]
  refine or_iff_left (not_emits_of_free fun x hx ↦ ?_)
  rw [List.mem_singleton.mp hx]
  simp [Free, reservedKeys]

theorem mem_framed_append (h : Tidy e) {w : Value} :
    (.str "definitions", w) ∈ framed e ++ [(.str "definitions", v)] ↔ w = v := by
  rw [List.mem_append, or_iff_right (not_mem_framed h), List.mem_singleton]
  simp

end Frame

/-! ## Two passes -/

section Passes

variable {g : Generator σ} {budget : Nat} {t : TypeRef σ} {schema : Entries}

/-- What a freestanding schema is made of: the inline schema of the root in its frame, alone if
nothing was cut in it, and with what resolving its references returns otherwise. -/
theorem exists_parts (hbuiltins : g.settings.BuiltinsOnly)
    (havoid : g.host.ExtensionsAvoid frameKeys)
    (h : (freestandingSchema g budget t).Returns schema) :
    ∃ node, (g.freestanding.build budget t true).Returns node ∧ Tidy node.schema ∧
      ((node.references = [] ∧ schema = framed node.schema) ∨
        (node.references ≠ [] ∧ ∃ definitions,
          (Components.build g.freestanding budget true (sortByText node.references)).Returns
            definitions ∧
          schema = framed node.schema ++ [(.str "definitions", .map definitions)])) := by
  obtain ⟨node, hnode, h⟩ := returns_bind.mp h
  have htidy : Tidy node.schema :=
    Generator.Renders.tidy (g := g.freestanding) hbuiltins havoid ⟨budget, hnode⟩ trivial
  refine ⟨node, hnode, htidy, ?_⟩
  rw [putAll_schema htidy] at h
  by_cases hreferences : node.references = []
  · rw [hreferences] at h
    obtain ⟨inner, hinner, h⟩ := returns_bind.mp h
    obtain rfl := returns_pure.mp hinner
    obtain ⟨-, -, h⟩ := returns_bind.mp h
    exact .inl ⟨hreferences, (returns_pure.mp h).symm⟩
  · rw [List.isEmpty_eq_false_iff.mpr hreferences] at h
    obtain ⟨definitions, hdefinitions, h⟩ := returns_bind.mp h
    obtain ⟨inner, hinner, h⟩ := returns_bind.mp h
    rw [returns_pure, put_definitions htidy] at hinner
    subst hinner
    obtain ⟨-, -, h⟩ := returns_bind.mp h
    exact .inr ⟨hreferences, definitions, hdefinitions, (returns_pure.mp h).symm⟩

/-- A name that is taken is defined. -/
theorem defines_of_named {order : List (TypeRef σ)} {node : TypeRef σ → Node σ} {name : String}
    (h : Named (Components.leaders order) name) :
    Defines (Components.definitions node (Components.leaders order))
      (definitionsPrefix ++ name) := by
  obtain ⟨u, hu, rfl⟩ := h
  exact ⟨u.schemaName, (node u).schema, List.mem_map_of_mem hu, rfl⟩

theorem selfContained_of_returns (hbuiltins : g.settings.BuiltinsOnly)
    (havoid : g.host.ExtensionsAvoid (frameKeys ++ reservedKeys))
    (h : (freestandingSchema g budget t).Returns schema) : SelfContained schema := by
  have hreserved : g.freestanding.host.ExtensionsAvoid reservedKeys :=
    havoid.mono (List.subset_append_right _ _)
  obtain ⟨node, hnode, htidy, hparts⟩ :=
    exists_parts hbuiltins (havoid.mono (List.subset_append_left _ _)) h
  have hmatches : node.Matches definitionsPrefix :=
    Generator.Renders.matches (g := g.freestanding) hbuiltins hreserved ⟨budget, hnode⟩ trivial
  rcases hparts with ⟨hreferences, rfl⟩ | ⟨hreferences, definitions, hdefinitions, rfl⟩
  · have hnone : ∀ s, ¬Emits (framed node.schema) s := by
      intro s hs
      obtain ⟨name, ⟨u, hu, -⟩, -⟩ := (hmatches s).mp (emits_framed.mp hs)
      rw [hreferences] at hu
      exact List.not_mem_nil hu
    exact ⟨fun s hs ↦ absurd hs (hnone s), fun _ hv ↦ absurd hv (not_mem_framed htidy),
      iff_of_false (fun ⟨v, hv⟩ ↦ not_mem_framed htidy hv) fun ⟨s, hs⟩ ↦ hnone s hs⟩
  · obtain ⟨order, nodes, horder, rfl⟩ := Components.exists_buildOrder hdefinitions
    refine ⟨fun s hs ↦ ⟨_, (mem_framed_append htidy).mpr rfl, ?_⟩,
      fun inner hinner k body hbody ↦ ?_, iff_of_true ⟨_, (mem_framed_append htidy).mpr rfl⟩ ?_⟩
    · -- what the root refers to is a root of the second pass
      obtain ⟨name, ⟨u, hu, rfl⟩, rfl⟩ := (hmatches s).mp (emits_framed_append.mp hs)
      exact defines_of_named (Components.named_leaders_of_contains
        (horder.contains_root (Components.mem_sortByText.mpr hu)))
    · obtain rfl := Value.map.inj ((mem_framed_append htidy).mp hinner)
      intro s hs
      obtain ⟨u, hu, hentry⟩ := List.mem_map.mp hbody
      obtain rfl := Value.map.inj (Prod.mk.inj hentry).2
      obtain ⟨name, hname, rfl⟩ := horder.named_of_emits hbuiltins hreserved
        (Components.mem_of_mem_leaders hu) hs
      exact defines_of_named hname
    · obtain ⟨r, hr⟩ := List.exists_mem_of_ne_nil _ hreferences
      refine ⟨definitionsPrefix ++ r.schemaName, emits_framed_append.mpr ?_⟩
      exact (hmatches _).mpr ⟨r.schemaName, ⟨r, hr, rfl⟩, rfl⟩

/-- What the second pass builds leads back to itself, like everything that is cut. -/
theorem recursive_of_reached (hbuiltins : g.settings.BuiltinsOnly) {node : Node σ} {u : TypeRef σ}
    (hnode : (g.freestanding.build budget t true).Returns node)
    (h : g.freestanding.Reached true (sortByText node.references) u) :
    g.host.Recursive u ∧ g.host.Reachable t u := by
  induction h with
  | root hu =>
    exact Generator.recursive_of_mem_references (g := g.freestanding) hbuiltins hnode
      (Components.mem_sortByText.mp hu)
  | step _ hbuilds hu ih =>
    obtain ⟨b, hb⟩ := hbuilds
    have hrecursive := Generator.recursive_of_mem_references (g := g.freestanding) hbuiltins hb hu
    exact ⟨hrecursive.1, ih.2.trans hrecursive.2⟩

/-- Every definition is the inline definition of a type that leads back to itself. -/
theorem recursive_of_mem_definitions (hbuiltins : g.settings.BuiltinsOnly)
    (havoid : g.host.ExtensionsAvoid frameKeys)
    (h : (freestandingSchema g budget t).Returns schema) {definitions : Entries}
    (hdefinitions : (.str "definitions", .map definitions) ∈ schema) {entry : Value × Value}
    (hentry : entry ∈ definitions) :
    ∃ u node, entry = (.str u.schemaName, .map node.schema) ∧
      g.freestanding.Builds true u node ∧ g.host.Recursive u ∧ g.host.Reachable t u := by
  obtain ⟨node, hnode, htidy, ⟨-, rfl⟩ | ⟨-, built, hbuilt, rfl⟩⟩ := exists_parts hbuiltins havoid h
  · exact absurd hdefinitions (not_mem_framed htidy)
  · obtain rfl := Value.map.inj ((mem_framed_append htidy).mp hdefinitions)
    obtain ⟨order, nodes, horder, rfl⟩ := Components.exists_buildOrder hbuilt
    obtain ⟨u, hu, rfl⟩ := List.mem_map.mp hentry
    have hu : u ∈ order := Components.mem_of_mem_leaders hu
    exact ⟨u, nodes u, rfl, horder.builds hu,
      recursive_of_reached hbuiltins hnode (horder.reached u hu)⟩

/-- **Freestanding schemas are self-contained and cut only at cycles.** With built-in processors and
metadata that avoids the reserved keys and the frame, no reference leads out of a freestanding
schema, and it has definitions exactly if it has a reference. Every definition is of a type that
leads back to itself, because whatever is asked for in inline mode refers to a type only from inside
the type's own object. So a type from which nothing can be reached that leads back to itself has
neither references nor definitions. -/
theorem freestandingSchema_closed (hbuiltins : g.settings.BuiltinsOnly)
    (havoid : g.host.ExtensionsAvoid (frameKeys ++ reservedKeys))
    (h : (freestandingSchema g budget t).Returns schema) :
    SelfContained schema ∧
      (∀ definitions, (.str "definitions", .map definitions) ∈ schema → ∀ entry ∈ definitions,
        ∃ u node, entry = (.str u.schemaName, .map node.schema) ∧
          g.freestanding.Builds true u node ∧ g.host.Recursive u ∧ g.host.Reachable t u) ∧
      (∀ (request : Request σ) (budget : Nat) (node : Node σ), (request.mode g).inline = true →
        (g.answer budget request).Returns node → g.CutsInside request node) ∧
      ((∀ u, g.host.Reachable t u → ¬g.host.Recursive u) →
        (∀ s, ¬Emits schema s) ∧ ∀ v, (.str "definitions", v) ∉ schema) := by
  have hclosed : SelfContained schema := selfContained_of_returns hbuiltins havoid h
  have hrecursive : ∀ definitions, (.str "definitions", .map definitions) ∈ schema →
      ∀ entry ∈ definitions, ∃ u node, entry = (.str u.schemaName, .map node.schema) ∧
        g.freestanding.Builds true u node ∧ g.host.Recursive u ∧ g.host.Reachable t u :=
    fun definitions hdefinitions entry hentry ↦ recursive_of_mem_definitions hbuiltins
      (havoid.mono (List.subset_append_left _ _)) h hdefinitions hentry
  refine ⟨hclosed, hrecursive, fun request budget node hinline hnode ↦
    Generator.cutsInside_of_returns hbuiltins hinline hnode, fun hnone ↦ ?_⟩
  have hemits : ∀ s, ¬Emits schema s := by
    intro s hs
    obtain ⟨definitions, hdefinitions, name, body, hentry, -⟩ := hclosed.root s hs
    obtain ⟨u, -, -, -, hu, hreach⟩ := hrecursive definitions hdefinitions _ hentry
    exact hnone u hreach hu
  refine ⟨hemits, fun v hv ↦ ?_⟩
  obtain ⟨s, hs⟩ := hclosed.present.mp ⟨v, hv⟩
  exact hemits s hs

/-- The freestanding schema of a type whose inline schema refers to one type, which refers to
nothing but itself, is returned. -/
theorem exists_freestandingSchema {r : TypeRef σ} {node inner : Node σ} (hbudget : 1 ≤ budget)
    (hnode : (g.freestanding.build budget t true).Returns node)
    (hreferences : node.references = [r])
    (hinner : (g.freestanding.build budget r true).Returns inner)
    (hinnerReferences : inner.references = [r]) :
    ∃ schema, (freestandingSchema g budget t).Returns schema := by
  -- the second pass builds the type that is referred to and comes to nothing new
  have harrivals : Components.arrivals (fun _ ↦ inner.references) [r] 1 = [r] := by
    have hzero : (Components.arrivals (fun _ ↦ inner.references) [r] 0)[0]? = some r := rfl
    have hnone : inner.references.filter
        (!(Components.arrivals (fun _ ↦ inner.references) [r] 0).contains ·) = [] := by
      have hqueued : (Components.arrivals (fun _ ↦ inner.references) [r] 0).contains r :=
        Components.contains_arrivals_of_root List.mem_cons_self 0
      rw [hinnerReferences] at hqueued ⊢
      rw [List.filter_singleton, hqueued]
      rfl
    rw [Components.arrivals_succ_of_some hzero, hnone, sortByText, List.mergeSort_nil]
    rfl
  have hrun := @Components.resolve_progress _ (fun _ ↦ inner) [] [r] [r]
    (fun t ↦ g.freestanding.build budget t true)
    (fun t ↦ (g.freestanding.build budget t true).log) [r] budget
    (fun t ht ↦ by
      rw [List.mem_singleton.mp ht,
        ← show (g.freestanding.build budget r true).outcome = .ok inner from hinner])
    harrivals.symm rfl hbudget
  have hdefinitions : ∃ definitions,
      (Components.build g.freestanding budget true (sortByText node.references)).Returns
        definitions := by
    rw [hreferences, sortByText, List.mergeSort_singleton]
    exact ⟨_, congrArg Traced.outcome hrun⟩
  obtain ⟨definitions, hdefinitions⟩ := hdefinitions
  refine ⟨Value.put (Value.putAll [(.str "$schema", .str schemaDialect)] node.schema)
    (.str "definitions") (.map definitions), returns_bind.mpr ⟨node, hnode, ?_⟩⟩
  rw [show node.references.isEmpty = false by rw [hreferences]; rfl]
  exact returns_bind.mpr ⟨definitions, hdefinitions, returns_bind.mpr ⟨_, rfl,
    returns_bind.mpr ⟨(), rfl, rfl⟩⟩⟩

end Passes

/-! ## The freestanding schema of a shelf -/

/-- The schema of a shelf is closed, and what it defines leads back to itself. -/
theorem freestandingSchema_closed_shelf : ∃ schema,
    (freestandingSchema Shelves.generator 9 Shelves.shelf).Returns schema ∧
      SelfContained schema ∧
      ∀ definitions, (.str "definitions", .map definitions) ∈ schema → ∀ entry ∈ definitions,
        ∃ u node, entry = (.str u.schemaName, .map node.schema) ∧
          Shelves.generator.freestanding.Builds true u node ∧
          Shelves.graph.host.Recursive u ∧ Shelves.graph.host.Reachable Shelves.shelf u := by
  have hbuild : ∃ node,
      (Shelves.generator.freestanding.build 9 Shelves.shelf true).Returns node ∧
        node.references = [Shelves.shelf] := ⟨_, rfl, rfl⟩
  obtain ⟨node, hnode, hreferences⟩ := hbuild
  obtain ⟨schema, hschema⟩ := exists_freestandingSchema (g := Shelves.generator)
    (by decide) hnode hreferences hnode hreferences
  obtain ⟨hclosed, hrecursive, -, -⟩ := freestandingSchema_closed (g := Shelves.generator)
    (Settings.builtinsOnly_of_nil rfl) Shelves.untagged.extensionsAvoid hschema
  exact ⟨schema, hschema, hclosed, hrecursive⟩

/-! ## A wrapper around a cycle

A wrapper holds the head of a chain, and every link of the chain holds the next one. -/

namespace Chains

/-- A wrapper. -/
def wrapper : TypeRef Unit := { fullName := "app.Wrapper", simpleName := "Wrapper" }

/-- A link of the chain. -/
def link : TypeRef Unit := { fullName := "app.Node", simpleName := "Node" }

/-- The declarations. -/
def graph : TypeGraph Unit where
  declarations :=
    [{ type := wrapper, custom := [⟨"node", link⟩] }, { type := link, custom := [⟨"next", link⟩] }]

/-- The generator with the usual settings. -/
def generator : Generator Unit := { host := graph.host }

theorem untagged : graph.Untagged := TypeGraph.untagged_of_custom (by simp [graph])

theorem not_leads_wrapper {t : TypeRef Unit} (ht : t.generics = []) :
    ¬graph.host.Leads t wrapper := by
  intro h
  rcases untagged.leads_cases h with hgenerics | ⟨d, hd, -, ⟨m, hm, -⟩ | ⟨c, hc, hwrapper⟩⟩
  · rw [ht] at hgenerics
    exact List.not_mem_nil hgenerics
  · rcases List.mem_cons.mp hd with rfl | hd
    · exact List.not_mem_nil hm
    · obtain rfl := List.mem_singleton.mp hd
      exact List.not_mem_nil hm
  · have hlink : c.type = link := by
      rcases List.mem_cons.mp hd with rfl | hd
      · rw [List.mem_singleton.mp hc]
      · obtain rfl := List.mem_singleton.mp hd
        rw [List.mem_singleton.mp hc]
    exact absurd (congrArg TypeRef.simpleName (hwrapper.trans hlink)) (by decide)

theorem not_recursive_wrapper : ¬graph.host.Recursive wrapper := by
  rintro ⟨⟨_, _, _, generics, _⟩, hsame, hpath⟩
  obtain rfl : generics = [] := by
    cases generics with
    | nil => rfl
    | cons => exact absurd hsame (by simp [BEq.beq, same, sameAll, wrapper])
  obtain ⟨t, hreach, hleads⟩ := Relation.TransGen.tail'_iff.mp hpath
  have hamong : t ∈ [_, link] :=
    untagged.mem_of_reachable ?_ ?_ ?_ List.mem_cons_self hreach
  · refine not_leads_wrapper ?_ hleads
    rcases List.mem_cons.mp hamong with rfl | ht
    · rfl
    · rw [List.mem_singleton.mp ht]
      rfl
  · simp [link]
  · simp [graph]
  · simp [graph]

/-- A wrapper does not lead back to itself, and its schema has a reference and a definition all the
same: the chain that it holds does. -/
theorem wrapper_has_references :
    generator.settings.BuiltinsOnly ∧
    graph.host.ExtensionsAvoid (frameKeys ++ reservedKeys) ∧
    ¬graph.host.Recursive wrapper ∧
    ∃ schema, (freestandingSchema generator 9 wrapper).Returns schema ∧
      (∃ s, Emits schema s) ∧ ∃ v, (.str "definitions", v) ∈ schema := by
  have hbuiltins : generator.settings.BuiltinsOnly := Settings.builtinsOnly_of_nil rfl
  have havoid : ∀ keys, graph.host.ExtensionsAvoid keys := fun _ ↦ untagged.extensionsAvoid
  have hwrapper : ∃ node, (generator.freestanding.build 9 wrapper true).Returns node ∧
      node.references = [link] := ⟨_, rfl, rfl⟩
  have hlink : ∃ node, (generator.freestanding.build 9 link true).Returns node ∧
      node.references = [link] := ⟨_, rfl, rfl⟩
  obtain ⟨node, hnode, hreferences⟩ := hwrapper
  obtain ⟨inner, hinner, hinnerReferences⟩ := hlink
  obtain ⟨schema, hschema⟩ := exists_freestandingSchema (g := generator) (by decide) hnode
    hreferences hinner hinnerReferences
  have hdefinitions : ∃ v, (.str "definitions", v) ∈ schema := by
    obtain ⟨node', hnode', htidy, ⟨hnone, -⟩ | ⟨-, definitions, -, rfl⟩⟩ :=
      exists_parts hbuiltins (havoid _) hschema
    · rw [hnode'.unique hnode, hreferences] at hnone
      exact nomatch hnone
    · exact ⟨_, (mem_framed_append htidy).mpr rfl⟩
  exact ⟨hbuiltins, havoid _, not_recursive_wrapper, schema, hschema,
    (selfContained_of_returns hbuiltins (havoid _) hschema).present.mp hdefinitions, hdefinitions⟩

end Chains

end Schemata
