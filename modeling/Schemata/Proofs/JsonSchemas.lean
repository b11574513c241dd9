import Schemata.Calendar
import Schemata.Configuration.Reading
import Schemata.Proofs.Expansion
import Schemata.Proofs.JsonTrees
import Schemata.Proofs.ObjectSchemas
import Schemata.Proofs.Resolution

/-!
# Schemas are JSON trees

What a plan puts into a schema by itself is a tree, and assembling the nodes of its jobs keeps it
one. Data that the generator did not make comes in at three places: metadata, which well-typed tags
make a tree or null; whatever a caller hands to an embedded type; and the formats of simple types,
which are taken from the configuration as they are. So under well-typed hosts all schemas are trees
exactly if all formats are (`Settings.givesJson_iff`).

An attribute of a custom tag that has no data form cannot be put into a schema. `Generator.Reads`
are the places where rendering comes to metadata, and rendering fails at the first such attribute.
-/

namespace Schemata

variable {σ : Type}

open Traced
open Value (IsJson)

/-! ## Assembled schemas -/

/-- The format of a simple type is null or a tree. -/
def SimpleType.HasJsonFormat (s : SimpleType) : Prop := s.format = .null ∨ IsJson s.format

theorem SimpleType.isJson_schema_iff {s : SimpleType} :
    IsJson (.map s.schema) ↔ s.HasJsonFormat := by
  have htype : IsJson (.map [(.str "type", .str s.type)]) :=
    Value.isJson_map_iff.mpr ⟨List.pairwise_singleton _ _, fun x hx ↦ by
      obtain rfl := List.mem_singleton.mp hx
      exact ⟨⟨_, rfl⟩, .str _⟩⟩
  unfold SimpleType.schema SimpleType.HasJsonFormat
  split
  · next hnull => exact iff_of_true htype (.inl hnull)
  · next hne =>
    rw [or_iff_right hne]
    constructor
    · intro h
      exact ((Value.isJson_map_iff.mp h).2 _ (List.mem_cons_of_mem _ List.mem_cons_self)).2
    · intro h
      exact htype.put (a := "format") h

/-- Every simple type in the table has a format that is null or a tree. -/
def Settings.JsonFormats (settings : Settings σ) : Prop :=
  ∀ name s, settings.simpleTypes.get? name = some s → s.HasJsonFormat

theorem Settings.jsonFormats_of_defaults {settings : Settings σ}
    (h : settings.simpleTypes = SimpleType.defaults) : settings.JsonFormats := by
  have hdefaults : ∀ x ∈ SimpleType.defaults, x.2.HasJsonFormat := by
    simp [SimpleType.defaults, SimpleType.HasJsonFormat, Value.IsJson.str]
  intro name s hs
  rw [h] at hs
  obtain ⟨x, hx, rfl⟩ := Option.map_eq_some_iff.mp hs
  exact hdefaults x (List.mem_of_find?_eq_some hx)

namespace Plan

/-- What the plan itself puts into a schema is a tree. -/
def IsJson : Plan σ → Prop
  | finished node => Value.IsJson (.map node.schema)
  | extended extra plan => Extension.Mergeable extra ∧ plan.IsJson
  | object head properties _ =>
    Value.IsJson (.map head) ∧ (properties.map (·.name)).Nodup
  | _ => True

theorem isJson_nodes {nodes : List (Node σ)} (h : ∀ node ∈ nodes, Value.IsJson (.map node.schema)) :
    Value.IsJson (.list (nodes.map (.map ·.schema))) := by
  refine .list fun v hv ↦ ?_
  obtain ⟨node, hnode, rfl⟩ := List.mem_map.mp hv
  exact h node hnode

theorem isJson_singleton {a : String} {v : Value} (h : Value.IsJson v) :
    Value.IsJson (.map [(.str a, v)]) :=
  Value.IsJson.put (e := []) (.map (fun _ h ↦ absurd h List.not_mem_nil) .nil
    fun _ h ↦ absurd h List.not_mem_nil) h

theorem isJson_pair {a b : String} {v w : Value} (hab : b ≠ a) (hv : Value.IsJson v)
    (hw : Value.IsJson w) : Value.IsJson (.map [(.str a, v), (.str b, w)]) := by
  have hput : Value.put [(.str a, v)] (.str b) w = [(.str a, v), (.str b, w)] :=
    Value.put_str_eq_append (by simp [hab])
  rw [← hput]
  exact (isJson_singleton hv).put hw

/-- The properties of a body are a tree if their nodes are and their names are different. -/
theorem isJson_bodyOf {ps : List (Property σ)} {nodes : List (Node σ)}
    (hlength : ps.length = nodes.length) (hnames : (ps.map (·.name)).Nodup)
    (hnodes : ∀ node ∈ nodes, Value.IsJson (.map node.schema)) :
    Value.IsJson (.map (bodyOf ps nodes).properties) := by
  rw [Generator.properties_bodyOf]
  have hzip : ((ps.zip nodes).map (·.1)).map (·.name) = ps.map (·.name) :=
    congrArg _ (List.map_fst_zip (Nat.le_of_eq hlength))
  rw [List.map_map] at hzip
  exact Value.isJson_map_of_nodup (hzip ▸ hnames) fun x hx ↦ hnodes _ (List.of_mem_zip hx).2

theorem IsJson.assemble {plan : Plan σ} (h : plan.IsJson) {nodes : List (Node σ)}
    (hlength : plan.jobs.length = nodes.length)
    (hnodes : ∀ node ∈ nodes, Value.IsJson (.map node.schema)) :
    Value.IsJson (.map (plan.assemble nodes).schema) := by
  induction plan with
  | finished node => exact h
  | delegated job =>
    obtain ⟨node, rfl⟩ := List.length_eq_one_iff.mp hlength.symm
    exact hnodes node List.mem_cons_self
  | composition c mode => exact isJson_singleton (isJson_nodes hnodes)
  | items element mode | values value mode =>
    obtain ⟨node, rfl⟩ := List.length_eq_one_iff.mp hlength.symm
    exact isJson_pair (by decide) (.str _) (hnodes node List.mem_cons_self)
  | object head properties mode =>
    obtain ⟨hhead, hnames⟩ := h
    have hlength : properties.length = nodes.length := by
      rw [← hlength, jobs, List.length_map]
    have hproperties := hhead.put (a := "properties") (isJson_bodyOf hlength hnames hnodes)
    rw [Plan.assemble, objectSchema]
    split
    · exact hproperties
    · exact hproperties.put (Value.isJson_strs _)
  | extended extra plan ih =>
    exact Extension.isJson_merge (ih h.2 hlength) h.1

end Plan

/-- The metadata handed to an embedded type can be merged. -/
def Job.Mergeable : Job σ → Prop
  | .definition _ _ => True
  | .embedded _ _ _ extra => Extension.Mergeable (extra.getD [])
  | .misplaced _ _ => True

namespace Generator

variable {g : Generator σ} {t : TypeRef σ} {mode : Mode σ} {job job' : Job σ} {plan : Plan σ}
  {node : Node σ}

theorem isJson_containerPlan (t : TypeRef σ) (mode : Mode σ) : (containerPlan t mode).IsJson := by
  unfold containerPlan
  split
  · exact Plan.isJson_singleton (.str _)
  · split
    · exact Plan.isJson_pair (by decide) (.str _) (.str _)
    · exact trivial
  · exact trivial
  · exact Plan.isJson_singleton (.str _)

theorem isJson_basePlan (hbuiltins : g.settings.BuiltinsOnly) (hformats : g.settings.JsonFormats)
    (t : TypeRef σ) (mode : Mode σ) (composition : Option (Composition σ))
    (extra : Option Entries) : (g.basePlan t mode composition extra).IsJson := by
  unfold basePlan
  split
  · next plan hplan =>
    obtain ⟨p, hp, hplan⟩ := List.exists_of_findSome?_eq_some hplan
    rcases (hbuiltins p hp).rulePlan_cases hplan with ⟨inner, hinner, rfl⟩ | rfl
    · exact trivial
    · exact trivial
  · split
    · exact trivial
    · unfold fallbackPlan
      split
      · exact isJson_containerPlan t mode
      · unfold referencePlan
        split
        · next s hs => exact SimpleType.isJson_schema_iff.mpr (hformats _ s hs)
        · split
          · exact trivial
          · exact Plan.isJson_singleton (.str _)

theorem isJson_plan (hbuiltins : g.settings.BuiltinsOnly) (hformats : g.settings.JsonFormats)
    (htyped : g.host.WellTyped) (hjob : job.Mergeable) (h : (g.plan job).Returns plan) :
    plan.IsJson := by
  cases job with
  | definition t mode =>
    cases returns_definitionPlan_iff.mp h with
    | override | composed => exact trivial
    | simple _ _ hs => exact SimpleType.isJson_schema_iff.mpr (hformats _ _ hs)
    | byKind htags _ _ _ hplan =>
      cases kindCase_of_kindPlan hplan with
      | object hextra _ =>
        refine ⟨Extension.isJson_merge (Plan.isJson_pair (by decide) (.str _) (.bool _)) ?_,
          Property.nodup_map_name_firsts _ _⟩
        exact Extension.mergeable_collect (htyped.types _ _ htags) hextra
      | enumeration names => exact Plan.isJson_pair (by decide) (.str _) (Value.isJson_strs names)
      | container => exact isJson_containerPlan t mode
  | embedded t mode composition extra =>
    obtain ⟨tags, -, ⟨u, -, rfl⟩ | ⟨-, rfl⟩⟩ := returns_embeddedPlan_iff.mp h
    · exact trivial
    · exact ⟨hjob, isJson_basePlan hbuiltins hformats t mode composition extra⟩
  | misplaced => exact nomatch h

theorem mergeable_of_mem_extract {require : Bool} {ps : List (Property σ)} {p : Property σ}
    (htyped : g.host.WellTyped) (hps : (Property.extract g.host g.settings t require).Returns ps)
    (hp : p ∈ ps) : Extension.Mergeable p.extra := by
  rcases Property.origin_of_mem_extract hps hp with ⟨ms, hms, m, hm, hp⟩ | ⟨cs, -, c, -, hp⟩
  · exact Extension.mergeable_collect (htyped.members t ms hms m hm) hp.extra
  · rw [hp.extra]
    exact Extension.mergeable_nil

theorem mergeable_of_mem_jobs (htyped : g.host.WellTyped) (hjob : job.Mergeable)
    (hplan : (g.plan job).Returns plan) : ∀ job' ∈ plan.jobs, job'.Mergeable := by
  intro job' h
  cases job with
  | definition t mode =>
    cases definitionJob_of_mem hplan h with
    | override => exact trivial
    | part | item | value => exact Extension.mergeable_nil
    | property =>
      obtain ⟨tags, hspells⟩ := exists_spellsWith hplan
      obtain ⟨all, hall, rfl⟩ := hspells.properties_eq
      obtain ⟨p, hp, hjob'⟩ := List.mem_map.mp h
      rw [← hjob']
      exact Plan.ofProperty_induction
        (fun _ _ ↦ mergeable_of_mem_extract htyped hall (Property.mem_of_mem_firsts hp))
        fun _ ↦ trivial
  | embedded t mode composition extra =>
    cases embeddedJob_of_mem hplan h with
    | override => exact hjob
    | argument | part => exact Extension.mergeable_nil
    | itself => exact trivial
  | misplaced => exact nomatch hplan

/-- Every node that a job is rendered as is a tree. -/
theorem Renders.isJson (hbuiltins : g.settings.BuiltinsOnly) (hformats : g.settings.JsonFormats)
    (htyped : g.host.WellTyped) (h : g.Renders job node) (hjob : job.Mergeable) :
    IsJson (.map node.schema) := by
  -- metadata comes from the job that asks, so that it can be merged is handed down the induction
  refine h.induction (motive := fun job node ↦ job.Mergeable → IsJson (.map node.schema)) ?_ hjob
  intro job plan nodes hplan hnodes hjob
  have hjson := isJson_plan hbuiltins hformats htyped hjob hplan
  refine hjson.assemble hnodes.length_eq fun node hnode ↦ ?_
  obtain ⟨job', hjob', -, hnode⟩ := exists_of_mem_right hnodes hnode
  exact hnode (mergeable_of_mem_jobs htyped hjob hplan job' hjob')

/-! ## Documents -/

/-- The definitions of a document are trees under different names. -/
theorem isJson_components (hbuiltins : g.settings.BuiltinsOnly) (hformats : g.settings.JsonFormats)
    (htyped : g.host.WellTyped) {budget : Nat} {inline : Bool} {roots : List (TypeRef σ)}
    {entries : Entries} (h : (Components.build g budget inline roots).Returns entries) :
    IsJson (.map entries) := by
  obtain ⟨order, node, horder, rfl⟩ := Components.exists_buildOrder h
  refine Value.isJson_map_of_nodup (Components.nodup_leaders order) fun t ht ↦ ?_
  have hbuilt := horder.built t (Components.mem_of_mem_leaders ht)
  exact Renders.isJson hbuiltins hformats htyped ⟨budget, hbuilt⟩ trivial

theorem isJson_freestandingSchema (hbuiltins : g.settings.BuiltinsOnly)
    (hformats : g.settings.JsonFormats) (htyped : g.host.WellTyped) {budget : Nat}
    {schema : Entries} (h : (freestandingSchema g budget t).Returns schema) :
    IsJson (.map schema) := by
  obtain ⟨node, hnode, h⟩ := returns_bind.mp h
  have hroot : IsJson (.map node.schema) :=
    Renders.isJson (g := g.freestanding) hbuiltins hformats htyped ⟨budget, hnode⟩ trivial
  have hframed : IsJson (.map
      (Value.putAll [(.str "$schema", .str schemaDialect)] node.schema)) :=
    (Plan.isJson_singleton (.str _)).putAll hroot
  dsimp only at h
  split at h
  · obtain ⟨framed, hpure, h⟩ := returns_bind.mp h
    obtain ⟨-, -, h⟩ := returns_bind.mp h
    rw [← returns_pure.mp h, ← returns_pure.mp hpure]
    exact hframed
  · obtain ⟨definitions, hdefinitions, h⟩ := returns_bind.mp h
    obtain ⟨framed, hpure, h⟩ := returns_bind.mp h
    obtain ⟨-, -, h⟩ := returns_bind.mp h
    rw [← returns_pure.mp h, ← returns_pure.mp hpure]
    exact hframed.put (isJson_components (g := g.freestanding) hbuiltins hformats htyped
      hdefinitions)

/-- Whatever is built or rendered with the generator is a tree: types by themselves, embedded types
with metadata that is one, components and freestanding schemas. -/
structure GivesJson (g : Generator σ) : Prop where
  build : ∀ budget t inline require node, (g.build budget t inline require).Returns node →
    IsJson (.map node.schema)
  embedded : ∀ budget t mode composition extra node, (∀ e, extra = some e → IsJson (.map e)) →
    (g.render budget (.embedded t mode composition extra)).Returns node →
      IsJson (.map node.schema)
  components : ∀ budget inline roots entries,
    (Components.build g budget inline roots).Returns entries → IsJson (.map entries)
  freestanding : ∀ budget t schema, (freestandingSchema g budget t).Returns schema →
    IsJson (.map schema)

theorem givesJson (hbuiltins : g.settings.BuiltinsOnly) (hformats : g.settings.JsonFormats)
    (htyped : g.host.WellTyped) : g.GivesJson where
  build _ _ _ _ _ h := Renders.isJson hbuiltins hformats htyped ⟨_, h⟩ trivial
  embedded _ _ _ _ extra _ hextra h := by
    refine Renders.isJson hbuiltins hformats htyped ⟨_, h⟩ ?_
    cases extra with
    | none => exact Extension.mergeable_nil
    | some e => exact Extension.mergeable_of_isJson (hextra e rfl)
  components _ _ _ _ h := isJson_components hbuiltins hformats htyped h
  freestanding _ _ _ h := isJson_freestandingSchema hbuiltins hformats htyped h

theorem hasJsonFormat_of_givesJson {s : SimpleType} {name : String}
    (hs : g.settings.simpleTypes.get? name = some s) (h : g.GivesJson)
    (htags : ∀ t, (g.host.tags t).Returns []) : s.HasJsonFormat := by
  let t : TypeRef σ := { fullName := name, simpleName := name }
  have hplan : ∀ mode, (g.plan (.definition t mode)).Returns (.finished ⟨s.schema, []⟩) :=
    fun mode ↦ returns_definitionPlan_iff.mpr (.simple (htags t) rfl hs)
  refine SimpleType.isJson_schema_iff.mp (h.build 1 t false none ⟨s.schema, []⟩ ?_)
  exact outcome_render_of_plan 0 (hplan _)

/-! ## Failing -/

/-- Given enough budget, rendering the job fails with the error. -/
def Fails (g : Generator σ) (job : Job σ) (e : Error) : Prop :=
  ∃ budget, (g.render budget job).outcome = .error (.error e)

variable {e : Error}

theorem Fails.of_asks (h : g.Fails job' e) (hask : g.Asks job job') : g.Fails job e := by
  obtain ⟨plan, before, after, hplan, hjobs, hbefore⟩ := hask
  obtain ⟨b, hb⟩ := h
  obtain ⟨nodes, hnodes⟩ := exists_forall₂ hbefore
  obtain ⟨b', hb'⟩ := exists_budget_of_renders hnodes
  have hends : (g.render b job').Ends := fun hx ↦ nomatch hb.symm.trans hx
  -- this much is enough for the jobs before it to be rendered and for this one to fail
  refine ⟨max b b' + 1, ?_⟩
  rw [outcome_render_of_plan _ hplan, Plan.run_eq_error_iff, hjobs]
  refine mapM_eq_error_iff.mpr ⟨before, job', after, rfl, fun earlier hearlier ↦ ?_, ?_⟩
  · obtain ⟨i, hi⟩ := List.mem_iff_getElem?.mp hearlier
    obtain ⟨node, -, hnode⟩ := exists_getElem?_of_forall₂ hb' hi
    exact ⟨node, returns_render_of_le (Nat.le_max_right b b') hnode⟩
  · rw [outcome_render_of_le (Nat.le_max_left b b') hends, hb]

theorem Fails.of_meets {root : Job σ} {os cs : List (TypeRef σ)} (h : g.Fails job e)
    (hmeets : g.Meets root os cs job) : g.Fails root e := by
  induction hmeets with
  | root => exact h
  | object _ _ hask ih | composition _ _ hask ih | passed _ _ _ hask ih => exact ih (h.of_asks hask)

theorem fails_of_plan (h : (g.plan job).outcome = .error (.error e)) : g.Fails job e := by
  refine ⟨1, ?_⟩
  rw [outcome_render_succ, h]
  rfl

theorem Fails.not_renders (h : g.Fails job e) : ¬g.Renders job node := by
  rintro ⟨b, hb⟩
  obtain ⟨b', hb'⟩ := h
  have hnode := returns_render_of_le (Nat.le_max_left b b') hb
  have hends : (g.render b' job).Ends := fun hx ↦ nomatch hb'.symm.trans hx
  rw [Returns, outcome_render_of_le (Nat.le_max_right b b') hends, hb'] at hnode
  cases hnode

/-- Rendering the root comes to collecting metadata from the tags of the element: of a type that is
spelled out, or of a member of such a type that takes part, if nothing before it fails. -/
inductive Reads (g : Generator σ) (root : Job σ) : List (Tag σ) → String → Prop
  | type {os cs t mode tags} (hmeets : g.Meets root os cs (.definition t mode))
      (hspells : g.SpellsOut t tags) : Reads g root tags t.text
  | member {os cs t mode tags extra floor verbatim before m after customs composition}
      (hmeets : g.Meets root os cs (.definition t mode)) (hspells : g.SpellsOut t tags)
      (hextra : (Extension.collect tags t.text).Returns extra)
      (hread : Property.ReadAs g.host t floor verbatim)
      (hms : (g.host.members t).Returns (before ++ m :: after))
      (hcs : (g.host.customProperties t).Returns customs)
      (hbefore : ∀ z ∈ before, Property.TakesPart g.host g.settings
        ⟨t, floor, verbatim, requireOf tags mode.require⟩ z →
          ∃ p, Property.Makes verbatim (requireOf tags mode.require) z p)
      (hm : Property.TakesPart g.host g.settings
        ⟨t, floor, verbatim, requireOf tags mode.require⟩ m)
      (hcomposition : Composition.find? m.tags = .ok composition)
      (htyped : requireOf tags mode.require = true → ∃ u, Property.Typed m (.type u)) :
      Reads g root m.tags (t.text ++ "." ++ m.name)

theorem Reads.fails {root : Job σ} {tags : List (Tag σ)} {element : String}
    (h : g.Reads root tags element)
    (he : (Extension.collect tags element).outcome = .error (.error e)) : g.Fails root e := by
  cases h with
  | @type os cs t mode _ hmeets hspells =>
    refine Fails.of_meets (fails_of_plan ?_) hmeets
    rw [hspells.plan_eq, objectPlan, outcome_bind, he]
    rfl
  | @member os cs t mode typeTags extra floor verbatim before m after customs composition hmeets
      hspells hextra hread hms hcs hbefore hm hcomposition htyped =>
    have hextract : (Property.extract g.host g.settings t
        (requireOf typeTags mode.require)).outcome = .error (.error e) :=
      (Property.extract_eq_error_iff hread hms hcs).mpr
        ⟨before, m, after, e, rfl, rfl, hbefore, hm, .extra hcomposition htyped he⟩
    refine Fails.of_meets (fails_of_plan ?_) hmeets
    rw [hspells.plan_eq, objectPlan, outcome_bind,
      show (Extension.collect typeTags t.text).outcome = _ from hextra]
    change (_ : Traced _).outcome = _
    rw [outcome_bind, hextract]
    rfl

/-! ## Attributes without data form -/

/-- Wherever rendering the root comes to collecting metadata, the attributes of custom tags have a
data form. -/
def ReadsRepresentable (g : Generator σ) (root : Job σ) : Prop :=
  ∀ tags element, g.Reads root tags element → ∀ tag ∈ tags, tag.custom = true →
    ∀ x ∈ tag.entries, x.2.Representable

/-- A build that comes to another attribute fails with an error that names one. -/
theorem exists_fails (htyped : g.host.WellTyped) {root : Job σ} (h : ¬g.ReadsRepresentable root) :
    ∃ tags element e, g.Reads root tags element ∧
      Extension.NamesUnrepresentable tags element e ∧ g.Fails root e := by
  simp only [ReadsRepresentable, not_forall] at h
  obtain ⟨tags, element, hreads, tag, htag, hcustom, x, hx, hrep⟩ := h
  have htags : ∀ tag ∈ tags, tag.WellTyped := by
    cases hreads with
    | type _ hspells => exact htyped.types _ _ hspells.returns_tags
    | member _ _ _ _ hms =>
      exact htyped.members _ _ hms _ (List.mem_append_right _ List.mem_cons_self)
  obtain ⟨e, he, hcollect⟩ := Extension.collect_fails htags htag hcustom hx hrep
  exact ⟨tags, element, e, hreads, he, hreads.fails hcollect⟩

theorem Renders.readsRepresentable (htyped : g.host.WellTyped) (h : g.Renders job node) :
    g.ReadsRepresentable job := by
  by_contra hread
  obtain ⟨-, -, e, -, -, hfails⟩ := exists_fails htyped hread
  exact hfails.not_renders h

/-- An attribute of a custom tag that has no data form makes the build fail that comes to it, and no
document is made of such a build. -/
structure RefusesUnrepresentable (g : Generator σ) : Prop where
  fails : ∀ root, ¬g.ReadsRepresentable root → ∃ tags element e, g.Reads root tags element ∧
    Extension.NamesUnrepresentable tags element e ∧ g.Fails root e
  components : ∀ budget inline roots entries,
    (Components.build g budget inline roots).Returns entries → ∀ x ∈ entries, ∃ t node,
      x = (.str t.schemaName, .map node.schema) ∧ (g.build budget t inline).Returns node ∧
        g.ReadsRepresentable (.definition t { inline, require := g.settings.requireNonNulls })
  freestanding : ∀ budget t schema, (freestandingSchema g budget t).Returns schema →
    g.freestanding.ReadsRepresentable
      (.definition t { inline := true, require := g.settings.requireNonNulls })

theorem refusesUnrepresentable (htyped : g.host.WellTyped) : g.RefusesUnrepresentable where
  fails _ h := exists_fails htyped h
  components budget inline roots entries h x hx := by
    obtain ⟨order, node, horder, rfl⟩ := Components.exists_buildOrder h
    obtain ⟨t, ht, rfl⟩ := List.mem_map.mp hx
    have hbuilt := horder.built t (Components.mem_of_mem_leaders ht)
    exact ⟨t, node t, rfl, hbuilt, Renders.readsRepresentable htyped ⟨budget, hbuilt⟩⟩
  freestanding budget t schema h := by
    obtain ⟨node, hnode, -⟩ := returns_bind.mp h
    exact Renders.readsRepresentable (g := g.freestanding) htyped ⟨budget, hnode⟩

end Generator

/-! ## All hosts -/

theorem TypeGraph.wellTyped_of_declarations {graph : TypeGraph σ}
    (h : ∀ d ∈ graph.declarations, (∀ a ∈ d.tags, a.WellTyped) ∧
      ∀ m ∈ d.members, ∀ a ∈ m.tags, a.WellTyped) : graph.host.WellTyped where
  types t tags htags a ha := by
    obtain rfl := returns_pure.mp htags
    obtain ⟨d, hd, -, ha⟩ := mem_declared ha
    exact (h d hd).1 a ha
  members t ms hms m hm := by
    obtain rfl := returns_pure.mp hms
    obtain ⟨d, hd, -, hm⟩ := mem_declared hm
    exact (h d hd).2 m hm

/-- **Schemas are JSON trees.** With built-in processors only, and exactly if every simple type has
a format that is null or a tree: under every host with well-typed tags, whatever is built or
rendered is a JSON tree. A JSON tree can always be written as JSON. And an attribute of a custom tag
that has no data form never comes into a schema, since the build fails that comes to it. -/
theorem Settings.givesJson_iff {settings : Settings σ} (hbuiltins : settings.BuiltinsOnly) :
    (settings.JsonFormats ↔
      ∀ host : Host σ, host.WellTyped → (Generator.mk host settings).GivesJson) ∧
    (∀ v, IsJson v → ∃ text, Output.format v "json" = .ok (.text text)) ∧
    ∀ host : Host σ, host.WellTyped → (Generator.mk host settings).RefusesUnrepresentable := by
  refine ⟨⟨fun hformats host htyped ↦ ?_, fun h name s hs ↦ ?_⟩, fun v hv ↦ ?_,
    fun host htyped ↦ ?_⟩
  · exact Generator.givesJson (g := Generator.mk host settings) hbuiltins hformats htyped
  · -- a host without declarations is enough to come to any simple type
    let graph : TypeGraph σ := { declarations := [] }
    have htyped : graph.host.WellTyped := TypeGraph.wellTyped_of_declarations fun _ hd ↦
      absurd hd List.not_mem_nil
    exact Generator.hasJsonFormat_of_givesJson (g := Generator.mk graph.host settings) hs
      (h graph.host htyped) fun _ ↦ rfl
  · exact Output.exists_format_json hv
  · exact Generator.refusesUnrepresentable (g := Generator.mk host settings) htyped

/-! ## Notes and letters

A note carries sample data. A letter carries a nested tag as if that were data. -/

namespace Notes

/-- A tag with a number and a list of words. -/
def sample : Tag Unit :=
  .mk "marks.Sample" [("level", .number (.int 3)), ("words", .array [.string (.str "a")])] true

/-- A tag with a nested tag. -/
def stamp : Tag Unit := .mk "marks.Stamp" [("level", .number (.int 3)), ("inner", .tag sample)] true

/-- A note. -/
def note : TypeRef Unit := { fullName := "app.Note", simpleName := "Note" }

/-- A letter. -/
def letter : TypeRef Unit := { fullName := "app.Letter", simpleName := "Letter" }

/-- The declarations. -/
def graph : TypeGraph Unit where
  declarations := [{ type := note, tags := [sample] }, { type := letter, tags := [stamp] }]

/-- The generator with the usual settings. -/
def generator : Generator Unit := { host := graph.host }

theorem wellTyped_sample : sample.WellTyped where
  texts h := absurd h (by decide)
  others _ _ := by
    simp [sample, Tag.entries, TagValue.Fits.integer, TagValue.Fits.array, TagValue.Fits.string]

theorem wellTyped_stamp : stamp.WellTyped where
  texts h := absurd h (by decide)
  others _ _ := by simp [stamp, Tag.entries, TagValue.Fits.integer, TagValue.Fits.tag]

theorem wellTyped : graph.host.WellTyped := by
  refine TypeGraph.wellTyped_of_declarations fun d hd ↦ ?_
  rcases List.mem_cons.mp hd with rfl | hd
  · exact ⟨List.forall_mem_singleton.mpr wellTyped_sample, fun _ hm ↦ absurd hm List.not_mem_nil⟩
  · obtain rfl := List.mem_singleton.mp hd
    exact ⟨List.forall_mem_singleton.mpr wellTyped_stamp, fun _ hm ↦ absurd hm List.not_mem_nil⟩

/-- A note is built as a tree, and a letter is not built. -/
theorem givesJson_notes : generator.settings.BuiltinsOnly ∧ generator.settings.JsonFormats ∧
    graph.host.WellTyped ∧
    (∃ node text, (generator.build 9 note false none).Returns node ∧
      Value.lookup (.str "words") node.schema = some (.list [.str "a"]) ∧
      Output.format (.map node.schema) "json" = .ok (.text text)) ∧
    ∃ e, generator.Fails (.definition letter ⟨false, true, []⟩) e := by
  have hbuiltins : generator.settings.BuiltinsOnly := Settings.builtinsOnly_of_nil rfl
  have hformats : generator.settings.JsonFormats := Settings.jsonFormats_of_defaults rfl
  obtain ⟨hgives, hformat, hrefuses⟩ := Settings.givesJson_iff hbuiltins
  have hnote : (generator.build 9 note false none).Returns _ := rfl
  obtain ⟨text, htext⟩ :=
    hformat _ ((hgives.mp hformats graph.host wellTyped).build 9 note false none _ hnote)
  have hletter : ¬generator.ReadsRepresentable (.definition letter ⟨false, true, []⟩) := by
    intro h
    have hreads : generator.Reads (.definition letter ⟨false, true, []⟩) [stamp] letter.text :=
      .type .root ⟨rfl, rfl, rfl, rfl, .inl rfl⟩
    have hinner : (TagValue.tag sample).Representable :=
      h _ _ hreads stamp List.mem_cons_self rfl ("inner", .tag sample)
        (List.mem_cons_of_mem _ List.mem_cons_self)
    exact nomatch hinner
  obtain ⟨-, -, e, -, -, hfails⟩ := (hrefuses graph.host wellTyped).fails _ hletter
  exact ⟨hbuiltins, hformats, wellTyped, ⟨_, text, hnote, rfl, htext⟩, e, hfails⟩

end Notes

/-! ## Days

A configuration may say anything about the format of a simple type. A date is one of the data that a
configuration file can hold and that no JSON text can. -/

namespace Days

/-- A date as it is read from a file. -/
def date : Value :=
  .object { text := "2001-12-14", shown := "datetime.date(2001, 12, 14)", typeName := "date" }

/-- A configuration with a date for the format of a simple type. -/
def configuration : List (Value × Value) :=
  [(.str "simple_type_mappings",
    .map [(.str "app.Day", .map [(.str "type", .str "string"), (.str "format", date)])])]

/-- The settings that the configuration spells out. -/
def settings : Settings Hint :=
  { simpleTypes := SimpleType.defaults ++ [("app.Day", ⟨"string", date⟩)] }

/-- The simple type. -/
def day : TypeRef Hint := { fullName := "app.Day", simpleName := "Day" }

/-- Nothing is declared. -/
def graph : TypeGraph Hint where
  declarations := []

/-- The generator with these settings. -/
def generator : Generator Hint := { host := graph.host, settings }

/-- The freestanding schema of the simple type. -/
def schema : Entries :=
  [(.str "$schema", .str schemaDialect), (.str "type", .str "string"), (.str "format", date)]

/-- The configuration is accepted, and the date comes into a schema that cannot be written as
JSON. -/
theorem not_json_day : Calendar.ofDate ⟨2001, 12, 14⟩ = .ok date ∧
    (∀ registry, (Configuration.engineSettings registry configuration).Returns settings) ∧
    settings.BuiltinsOnly ∧ graph.host.WellTyped ∧
    (freestandingSchema generator 9 day).Returns schema ∧ ¬IsJson (.map schema) ∧
    Output.format (.map schema) "json" = .error .wrongType := by
  have htyped : graph.host.WellTyped := TypeGraph.wellTyped_of_declarations fun _ hd ↦
    absurd hd List.not_mem_nil
  refine ⟨rfl, fun _ ↦ rfl, Settings.builtinsOnly_of_nil rfl, htyped, rfl, fun h ↦ ?_, rfl⟩
  obtain ⟨-, hvalues⟩ := Value.isJson_map_iff.mp h
  have hdate : IsJson date := (hvalues (.str "format", date) (by simp [schema])).2
  exact nomatch hdate

end Days

end Schemata
