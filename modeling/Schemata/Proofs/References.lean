import Schemata.Proofs.Declared

/-!
# References match

A rendered node carries the types it references beside the schema that refers to them. The two are
kept apart in every step: schemas are nested, sets of types are united, a repeated property is
dropped, metadata is merged on top. `Node.Matches` says that they still agree: the schema emits
exactly the references that stand for the recorded types.

Agreement is a property of how a plan puts nodes together, `Plan.Sound`, and every plan is sound as
long as only the built-in processors are asked and no metadata uses a reserved key. A processor with
a schema of its own can record what it likes, and metadata under `$ref` would be taken for a
reference.
-/

namespace Schemata

variable {σ : Type}

open Traced

/-! ## Agreement -/

/-- The schema emits exactly the references that stand for the recorded types. -/
def Node.Matches (refPrefix : String) (node : Node σ) : Prop :=
  ∀ s, Emits node.schema s ↔ ∃ name, TypeRef.Named node.references name ∧ s = refPrefix ++ name

/-- The metadata given with a job uses none of the keys. -/
def Job.Avoids (keys : List String) : Job σ → Prop
  | .definition _ _ => True
  | .embedded _ _ _ extra => Extension.Avoids keys (extra.getD [])
  | .misplaced _ _ => True

/-! ## Assembling -/

namespace Plan

/-- Nothing in the plan itself adds or hides a reference. -/
def Sound (refPrefix : String) : Plan σ → Prop
  | finished node => node.Matches refPrefix
  | extended extra plan => Extension.Avoids reservedKeys extra ∧ plan.Sound refPrefix
  | object head _ _ => (∀ s, ¬ Emits head s) ∧ ∀ v, (.str "properties", v) ∉ head
  | _ => True

variable {refPrefix : String} {nodes : List (Node σ)}

theorem exists_emits_iff (h : ∀ node ∈ nodes, node.Matches refPrefix) (s : String) :
    (∃ node ∈ nodes, Emits node.schema s) ↔
      ∃ name, (∃ r ∈ nodes.map (·.references), TypeRef.Named r name) ∧ s = refPrefix ++ name := by
  constructor
  · rintro ⟨node, hnode, hs⟩
    obtain ⟨name, hname, rfl⟩ := (h node hnode s).mp hs
    exact ⟨name, ⟨node.references, List.mem_map_of_mem hnode, hname⟩, rfl⟩
  · rintro ⟨name, ⟨r, hr, hname⟩, rfl⟩
    obtain ⟨node, hnode, rfl⟩ := List.mem_map.mp hr
    exact ⟨node, hnode, (h node hnode _).mpr ⟨name, hname, rfl⟩⟩

theorem below_keyword (kind : CompositionKind) (nodes : List (Node σ)) :
    Position.below (.str kind.keyword, .list (nodes.map (.map ·.schema))) =
      nodes.map (·.schema) := by
  have hschemas : (nodes.map fun node ↦ (.map node.schema : Value)).filterMap Position.schema? =
      nodes.map (·.schema) := by
    induction nodes with
    | nil => rfl
    | cons node nodes ih => exact congrArg (node.schema :: ·) ih
  rw [← hschemas]
  cases kind <;> rfl

theorem emits_of_keyword (kind : CompositionKind) (s : String) :
    Emits [(.str kind.keyword, .list (nodes.map (.map ·.schema)))] s ↔
      ∃ node ∈ nodes, Emits node.schema s := by
  rw [emits_singleton, below_keyword]
  simp only [List.mem_map, exists_exists_and_eq_and]
  refine or_iff_right fun h ↦ ?_
  cases kind <;> exact absurd (congrArg Prod.fst h) (by simp [CompositionKind.keyword])

theorem emits_container {type key : String} (hkey : Position.ofKey? key = some .one) {e : Entries}
    (s : String) :
    Emits [(.str "type", .str type), (.str key, .map e)] s ↔ Emits e s := by
  have htype : Position.below (.str "type", .str type) = [] := rfl
  have hbelow : Position.below (.str key, .map e) = [e] := by
    simp [Position.below, hkey, Position.schemasIn, Position.schema?]
  rw [emits_cons, emits_singleton, emits_singleton, htype, hbelow]
  simp

theorem schemasIn_bodyOf {properties : List (Property σ)} (h : properties.length = nodes.length) :
    Position.schemasIn .named (.map (bodyOf properties nodes).properties) =
      nodes.map (·.schema) := by
  change (List.zipWith _ properties nodes).filterMap _ = _
  induction properties generalizing nodes with
  | nil => rw [List.length_eq_zero_iff.mp h.symm]; rfl
  | cons p properties ih =>
    obtain ⟨node, nodes, rfl⟩ := List.exists_cons_of_length_eq_add_one h.symm
    exact congrArg (node.schema :: ·) (ih (Nat.succ.inj h))

theorem emits_objectSchema {head : Entries} {body : Generator.Body σ} {s : String}
    (hhead : ∀ v, (.str "properties", v) ∉ head) :
    Emits (objectSchema head body) s ↔ Emits head s ∨
      ∃ child ∈ Position.schemasIn .named (.map body.properties), Emits child s := by
  have hproperties : Emits (Value.put head (.str "properties") (.map body.properties)) s ↔
      Emits head s ∨
        ∃ child ∈ Position.schemasIn .named (.map body.properties), Emits child s := by
    rw [Value.put_str_eq_append hhead, emits_append, emits_singleton]
    refine or_congr_right (or_iff_right fun h ↦ ?_)
    exact absurd (congrArg Prod.fst h) (by simp)
  rw [objectSchema]
  split
  · exact hproperties
  · rw [emits_put (by simp [Free, reservedKeys])]
    exact hproperties

/-- A sound plan puts nodes that agree together into a node that agrees. -/
theorem Sound.matches_assemble {plan : Plan σ} (h : plan.Sound refPrefix)
    (hlength : plan.jobs.length = nodes.length)
    (hnodes : ∀ node ∈ nodes, node.Matches refPrefix) :
    (plan.assemble nodes).Matches refPrefix := by
  induction plan with
  | finished node => exact h
  | delegated job =>
    obtain ⟨node, rfl⟩ := List.length_eq_one_iff.mp hlength.symm
    exact hnodes node List.mem_cons_self
  | composition c mode =>
    intro s
    rw [assemble, emits_of_keyword, exists_emits_iff hnodes]
    simp only [TypeRef.named_unionAll]
  | items element mode =>
    obtain ⟨node, rfl⟩ := List.length_eq_one_iff.mp hlength.symm
    exact fun s ↦ (emits_container rfl s).trans (hnodes node List.mem_cons_self s)
  | values value mode =>
    obtain ⟨node, rfl⟩ := List.length_eq_one_iff.mp hlength.symm
    exact fun s ↦ (emits_container rfl s).trans (hnodes node List.mem_cons_self s)
  | object head properties mode =>
    -- the head emits nothing, so all references come from the properties
    intro s
    have hbody : properties.length = nodes.length := by
      rw [← hlength, jobs, List.length_map]
    rw [assemble, emits_objectSchema h.2, schemasIn_bodyOf hbody]
    simp only [List.mem_map, exists_exists_and_eq_and, h.1, false_or]
    rw [exists_emits_iff hnodes]
    simp only [bodyFrom, TypeRef.named_foldl_union]
    simp [TypeRef.Named]
  | extended extra plan ih =>
    -- metadata that avoids the reserved keys leaves both sides as they are
    intro s
    rw [assemble, emits_merge h.1]
    exact ih h.2 hlength s

end Plan

/-! ## Plans are sound -/

namespace Plan

/-- The plan is sound, and its jobs bring no metadata that would not be. -/
structure Clean (refPrefix : String) (plan : Plan σ) : Prop where
  sound : plan.Sound refPrefix
  jobs : ∀ job ∈ plan.jobs, job.Avoids reservedKeys

variable {refPrefix : String}

theorem avoids_plain {keys : List String} (mode : Mode σ) (t : TypeRef σ) :
    (plain mode t).Avoids keys :=
  fun _ _ _ h ↦ absurd h List.not_mem_nil

theorem clean_finished {schema : Entries} (h : ∀ s, ¬ Emits schema s) :
    (finished ⟨schema, []⟩ : Plan σ).Clean refPrefix where
  sound s := iff_of_false (h s) fun ⟨_, ⟨_, ht, _⟩, _⟩ ↦ absurd ht List.not_mem_nil
  jobs _ h := absurd h List.not_mem_nil

theorem clean_delegated {job : Job σ} (h : job.Avoids reservedKeys) :
    (delegated job).Clean refPrefix where
  sound := trivial
  jobs _ hjob := List.mem_singleton.mp hjob ▸ h

theorem clean_composition (c : Composition σ) (mode : Mode σ) :
    (composition c mode).Clean refPrefix where
  sound := trivial
  jobs job hjob := by
    obtain ⟨t, -, rfl⟩ := List.mem_map.mp hjob
    exact avoids_plain mode t

theorem clean_items (element : TypeRef σ) (mode : Mode σ) :
    (items element mode).Clean refPrefix where
  sound := trivial
  jobs _ hjob := List.mem_singleton.mp hjob ▸ avoids_plain mode element

theorem clean_values (value : TypeRef σ) (mode : Mode σ) :
    (values value mode).Clean refPrefix where
  sound := trivial
  jobs _ hjob := List.mem_singleton.mp hjob ▸ avoids_plain mode value

end Plan

/-- The metadata of a property is declared by its member, or there is none. -/
theorem Host.ExtensionsAvoid.properties {host : Host σ} {keys : List String}
    (h : host.ExtensionsAvoid keys) {settings : Settings σ} {t : TypeRef σ} {require : Bool}
    {ps : List (Property σ)} {p : Property σ}
    (hps : (Property.extract host settings t require).Returns ps) (hp : p ∈ ps) :
    Extension.Avoids keys p.extra := by
  rcases Property.origin_of_mem_extract hps hp with ⟨ms, hms, m, hm, hp⟩ | ⟨cs, -, c, -, hp⟩
  · exact h.members hms hm hp.extra
  · rw [hp.extra]
    exact fun _ _ _ h ↦ absurd h List.not_mem_nil

theorem SimpleType.free_schema (simple : SimpleType) : ∀ x ∈ simple.schema, Free x.1 := by
  intro x hx
  rw [SimpleType.schema] at hx
  rcases List.mem_cons.mp hx with rfl | hx
  · simp [Free, reservedKeys]
  · split at hx
    · exact absurd hx List.not_mem_nil
    · rw [List.mem_singleton.mp hx]
      simp [Free, reservedKeys]

namespace Generator

variable {g : Generator σ}

theorem clean_referenceNode (t : TypeRef σ) :
    (Plan.finished (g.referenceNode t)).Clean g.settings.refPrefix where
  sound s := by
    rw [referenceNode, emits_singleton]
    simp [TypeRef.Named, Position.below, Position.ofKey?]
  jobs _ h := absurd h List.not_mem_nil

theorem clean_containerPlan (t : TypeRef σ) (mode : Mode σ) :
    (containerPlan t mode).Clean g.settings.refPrefix := by
  unfold containerPlan
  split
  · refine Plan.clean_finished fun _ ↦ not_emits_of_free ?_
    simp [Free, reservedKeys]
  · split
    · refine Plan.clean_finished fun _ ↦ not_emits_of_free ?_
      simp [Free, reservedKeys]
    · exact Plan.clean_items _ mode
  · exact Plan.clean_values _ mode
  · refine Plan.clean_finished fun _ ↦ not_emits_of_free ?_
    simp [Free, reservedKeys]

theorem clean_of_baseCase {t : TypeRef σ} {mode : Mode σ} {plan : Plan σ}
    (h : g.BaseCase t mode plan) : plan.Clean g.settings.refPrefix := by
  cases h with
  | argument => exact Plan.clean_delegated (Plan.avoids_plain mode _)
  | composition c => exact Plan.clean_composition c mode
  | container => exact clean_containerPlan t mode
  | simple s => exact Plan.clean_finished fun _ ↦ not_emits_of_free s.free_schema
  | itself => exact Plan.clean_delegated trivial
  | reference => exact clean_referenceNode t

theorem clean_kindPlan (havoid : g.host.ExtensionsAvoid reservedKeys) {t : TypeRef σ}
    {tags : List (Tag σ)} (htags : (g.host.tags t).Returns tags) {mode : Mode σ} {plan : Plan σ}
    (h : (g.kindPlan t tags mode).Returns plan) : plan.Clean g.settings.refPrefix := by
  cases kindCase_of_kindPlan h with
  | object hextra hproperties =>
    have hhead := havoid.types htags hextra
    refine ⟨⟨fun s ↦ ?_, fun v hv ↦ ?_⟩, fun job hjob ↦ ?_⟩
    · rw [emits_merge hhead, emits_cons, emits_singleton, emits_singleton]
      simp [Position.below, Position.ofKey?, Position.schemasIn, Position.schema?]
    · rw [Extension.mem_merge_str hhead (by decide)] at hv
      simp at hv
    · obtain ⟨p, hp, rfl⟩ := List.mem_map.mp hjob
      exact Plan.ofProperty_induction
        (fun _ _ ↦ havoid.properties hproperties (Property.mem_of_mem_firsts hp)) fun _ ↦ trivial
  | enumeration names =>
    refine Plan.clean_finished fun _ ↦ not_emits_of_free ?_
    simp [Free, reservedKeys]
  | container => exact clean_containerPlan t mode

theorem avoids_of_mem_jobs {keys : List String} (havoid : g.host.ExtensionsAvoid keys)
    {job : Job σ} {plan : Plan σ} (hjob : job.Avoids keys) (hplan : (g.plan job).Returns plan) :
    ∀ job' ∈ plan.jobs, job'.Avoids keys := by
  intro job' h
  cases job with
  | definition t mode =>
    cases definitionJob_of_mem hplan h with
    | override => exact trivial
    | part | item | value => exact Plan.avoids_plain mode _
    | property =>
      obtain ⟨tags, hspells⟩ := exists_spellsWith hplan
      obtain ⟨all, hall, rfl⟩ := hspells.properties_eq
      obtain ⟨p, hp, hjob'⟩ := List.mem_map.mp h
      rw [← hjob']
      exact Plan.ofProperty_induction
        (fun _ _ ↦ havoid.properties hall (Property.mem_of_mem_firsts hp)) fun _ ↦ trivial
  | embedded t mode composition extra =>
    cases embeddedJob_of_mem hplan h with
    | override => exact hjob
    | argument | part => exact Plan.avoids_plain mode _
    | itself => exact trivial
  | misplaced => exact nomatch hplan

/-- Every plan is sound if nothing but the built-in processors and harmless metadata is around. -/
theorem clean_plan (hbuiltins : g.settings.BuiltinsOnly)
    (havoid : g.host.ExtensionsAvoid reservedKeys) {job : Job σ} (hjob : job.Avoids reservedKeys)
    {plan : Plan σ} (h : (g.plan job).Returns plan) : plan.Clean g.settings.refPrefix := by
  cases job with
  | definition t mode =>
    cases returns_definitionPlan_iff.mp h with
    | override => exact Plan.clean_delegated trivial
    | @simple _ s =>
      exact Plan.clean_finished fun _ ↦ not_emits_of_free s.free_schema
    | composed => exact Plan.clean_composition _ mode
    | byKind htags _ _ _ hplan => exact clean_kindPlan havoid htags hplan
  | embedded t mode composition extra =>
    obtain ⟨tags, -, ⟨u, -, rfl⟩ | ⟨-, rfl⟩⟩ := returns_embeddedPlan_iff.mp h
    · exact Plan.clean_delegated hjob
    · have hbase := g.clean_of_baseCase (baseCase_basePlan hbuiltins t mode composition extra)
      exact ⟨⟨hjob, hbase.sound⟩, hbase.jobs⟩
  | misplaced => exact nomatch h

/-- Every node that a job is rendered as agrees. -/
theorem Renders.matches (hbuiltins : g.settings.BuiltinsOnly)
    (havoid : g.host.ExtensionsAvoid reservedKeys) {job : Job σ} {node : Node σ}
    (h : g.Renders job node) (hjob : job.Avoids reservedKeys) :
    node.Matches g.settings.refPrefix := by
  refine h.induction (motive := fun job node ↦
    job.Avoids reservedKeys → node.Matches g.settings.refPrefix) ?_ hjob
  intro job plan nodes hplan hnodes hjob
  have hclean := clean_plan hbuiltins havoid hjob hplan
  refine hclean.sound.matches_assemble hnodes.length_eq fun node hnode ↦ ?_
  obtain ⟨job', hjob', -, hmatches⟩ := exists_of_mem_right hnodes hnode
  exact hmatches (hclean.jobs job' hjob')

end Generator

/-! ## Requests -/

/-- What a generator can be asked for. -/
inductive Request (σ : Type) where
  /-- The schema of a type by itself. -/
  | build (t : TypeRef σ) (inline : Bool) (require : Option Bool)
  /-- The schema of a type inside another one. -/
  | embedded (t : TypeRef σ) (mode : Mode σ) (composition : Option (Composition σ))
      (extra : Option Entries)
  /-- A composition. -/
  | composition (c : Composition σ) (mode : Mode σ)
  /-- A type as a reference, or spelled out. -/
  | reference (t : TypeRef σ) (mode : Mode σ)

/-- The metadata given with a request uses none of the keys. -/
def Request.Avoids (keys : List String) : Request σ → Prop
  | .embedded _ _ _ extra => Extension.Avoids keys (extra.getD [])
  | _ => True

namespace Generator

variable {g : Generator σ}

/-- Answers a request. -/
def answer (g : Generator σ) (budget : Nat) : Request σ → Traced (Node σ)
  | .build t inline require => g.build budget t inline require
  | .embedded t mode composition extra => g.render budget (.embedded t mode composition extra)
  | .composition c mode => compose (g.render budget) c mode
  | .reference t mode => g.referenceOrInline (g.render budget) t mode

theorem matches_of_run (hbuiltins : g.settings.BuiltinsOnly)
    (havoid : g.host.ExtensionsAvoid reservedKeys) {budget : Nat} {plan : Plan σ} {node : Node σ}
    (hclean : plan.Clean g.settings.refPrefix)
    (h : plan.run (fun job ↦ (g.render budget job).outcome) = .ok node) :
    node.Matches g.settings.refPrefix := by
  obtain ⟨nodes, hnodes, rfl⟩ := Plan.run_eq_ok_iff.mp h
  refine hclean.sound.matches_assemble hnodes.length_eq fun node hnode ↦ ?_
  obtain ⟨job, hjob, hrenders⟩ := exists_of_mem_right hnodes hnode
  exact Renders.matches hbuiltins havoid ⟨budget, hrenders⟩ (hclean.jobs job hjob)

/-- **References match.** Whatever a generator with built-in processors is asked for, the references
at the schema positions of the answer are exactly those to the types recorded with it. -/
theorem emitted_eq_recorded (hbuiltins : g.settings.BuiltinsOnly)
    (havoid : g.host.ExtensionsAvoid reservedKeys) {budget : Nat} {request : Request σ}
    (hrequest : request.Avoids reservedKeys) {node : Node σ}
    (h : (g.answer budget request).Returns node) :
    {s | Emits node.schema s} =
      {s | ∃ t ∈ node.references, s = g.settings.refPrefix ++ t.schemaName} := by
  have hmatches : node.Matches g.settings.refPrefix := by
    cases request with
    | build t inline require => exact Renders.matches hbuiltins havoid ⟨budget, h⟩ trivial
    | embedded t mode composition extra =>
      exact Renders.matches hbuiltins havoid ⟨budget, h⟩ hrequest
    | composition c mode =>
      exact matches_of_run hbuiltins havoid (Plan.clean_composition c mode)
        ((outcome_compose c mode).symm.trans h)
    | reference t mode =>
      exact matches_of_run hbuiltins havoid (clean_of_baseCase baseCase_referencePlan)
        ((outcome_referenceOrInline t mode).symm.trans h)
  ext s
  constructor
  · intro hs
    obtain ⟨name, ⟨t, ht, rfl⟩, rfl⟩ := (hmatches s).mp hs
    exact ⟨t, ht, rfl⟩
  · rintro ⟨t, ht, rfl⟩
    exact (hmatches _).mpr ⟨t.schemaName, ⟨t, ht, rfl⟩, rfl⟩

/-- A shelf spelled out in place refers to nothing but itself, through its books. -/
theorem emitted_eq_recorded_shelf :
    ∃ node, (Shelves.generator.answer 9 (.build Shelves.shelf true none)).Returns node ∧
      node.references = [Shelves.shelf] ∧
      {s | Emits node.schema s} =
        {s | ∃ t ∈ node.references, s = "#/components/schemas/" ++ t.schemaName} := by
  have hnode : ∃ node, (Shelves.generator.answer 9 (.build Shelves.shelf true none)).Returns node ∧
      node.references = [Shelves.shelf] := ⟨_, rfl, rfl⟩
  obtain ⟨node, hnode, hreferences⟩ := hnode
  have hrequest : (Request.build Shelves.shelf true none).Avoids reservedKeys := trivial
  exact ⟨node, hnode, hreferences,
    emitted_eq_recorded (Settings.builtinsOnly_of_nil rfl) Shelves.untagged.extensionsAvoid hrequest
      hnode⟩

end Generator

end Schemata
