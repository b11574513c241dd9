import Schemata.Generator
import Schemata.Proofs.Identity
import Schemata.Proofs.Outcome

/-!
# Plans

Rendering a job reads the host, decides what has to be rendered further, renders that, and puts the
nodes together. A `Plan` is the decision as data: a node that needs nothing more, a job whose node is
taken over, or a schema built around the nodes of several jobs. `Generator.plan` makes the decision
by asking the host alone; it is not recursive and does not depend on the budget. `Plan.run` carries
the decision out. What holds of every rendered node is then a statement about how nodes are put
together, and how deep rendering goes is a question about which jobs a plan asks for.
-/

namespace Schemata

variable {σ : Type}

/-! ## Properties of different names -/

/-- The properties that do not repeat a name, given the names that are taken. -/
def Property.firsts : List String → List (Property σ) → List (Property σ)
  | _, [] => []
  | taken, p :: rest =>
    if taken.contains p.name then firsts taken rest else p :: firsts (taken ++ [p.name]) rest

theorem Property.mem_of_mem_firsts {taken : List String} {ps : List (Property σ)} {p : Property σ}
    (h : p ∈ firsts taken ps) : p ∈ ps := by
  induction ps generalizing taken with
  | nil => exact h
  | cons q ps ih =>
    rw [firsts] at h
    split at h
    · exact List.mem_cons_of_mem q (ih h)
    · rcases List.mem_cons.mp h with rfl | h
      · exact List.mem_cons_self
      · exact List.mem_cons_of_mem q (ih h)

/-! ## What there is to do -/

/-- What is left to do for a job once the host has been asked about it. -/
inductive Plan (σ : Type) where
  /-- Nothing: the node is known. -/
  | finished (node : Node σ)
  /-- To take over the node of another job. -/
  | delegated (job : Job σ)
  /-- To compose embedded types. -/
  | composition (c : Composition σ) (mode : Mode σ)
  /-- To render the items of an array. -/
  | items (element : TypeRef σ) (mode : Mode σ)
  /-- To render the values of a dictionary. -/
  | values (value : TypeRef σ) (mode : Mode σ)
  /-- To render the properties of an object, whose schema starts with what is known already. -/
  | object (head : Entries) (properties : List (Property σ)) (mode : Mode σ)
  /-- To do what is left, and then to merge metadata. -/
  | extended (extra : Entries) (plan : Plan σ)

namespace Plan

/-- An embedded type without a declaration of its own. -/
abbrev plain (mode : Mode σ) (t : TypeRef σ) : Job σ := .embedded t mode none none

/-- The job of a property. -/
abbrev ofProperty (mode : Mode σ) (p : Property σ) : Job σ :=
  .ofPlace mode p.composition (some p.extra) p.type

theorem ofProperty_induction {motive : Job σ → Prop} {mode : Mode σ} {p : Property σ}
    (type : ∀ t, p.type = .type t → motive (.embedded t mode p.composition (some p.extra)))
    (other : ∀ value, motive (.misplaced value mode)) : motive (ofProperty mode p) := by
  unfold ofProperty
  cases hplace : p.type with
  | type t => exact type t hplace
  | other value => exact other value

/-- The jobs to be rendered, in order. -/
def jobs : Plan σ → List (Job σ)
  | finished _ => []
  | delegated job => [job]
  | composition c mode => c.members.map (plain mode)
  | items element mode => [plain mode element]
  | values value mode => [plain mode value]
  | object _ properties mode => properties.map (ofProperty mode)
  | extended _ plan => plan.jobs

/-- A body with these properties added, rendered as these nodes. -/
def bodyFrom (body : Generator.Body σ) (properties : List (Property σ)) (nodes : List (Node σ)) :
    Generator.Body σ where
  properties := body.properties ++
    List.zipWith (fun p n ↦ (.str p.name, .map n.schema)) properties nodes
  required := body.required ++ (properties.filter (·.required)).map (·.name)
  references := (nodes.map (·.references)).foldl TypeRef.union body.references

/-- The body of an object with these properties, rendered as these nodes. -/
abbrev bodyOf (properties : List (Property σ)) (nodes : List (Node σ)) : Generator.Body σ :=
  bodyFrom {} properties nodes

/-- The schema of an object that starts with `head`. -/
def objectSchema (head : Entries) (body : Generator.Body σ) : Entries :=
  let schema := Value.put head (.str "properties") (.map body.properties)
  if body.required.isEmpty then schema
  else Value.put schema (.str "required") (.list (body.required.map .str))

/-- The node that results from the nodes of the jobs. -/
def assemble : Plan σ → List (Node σ) → Node σ
  | finished node, _ => node
  | delegated _, nodes => nodes.headD default
  | composition c _, nodes =>
    ⟨[(.str c.kind.keyword, .list (nodes.map (.map ·.schema)))],
      TypeRef.unionAll (nodes.map (·.references))⟩
  | items _ _, nodes =>
    ⟨[(.str "type", .str "array"), (.str "items", .map (nodes.headD default).schema)],
      (nodes.headD default).references⟩
  | values _ _, nodes =>
    ⟨[(.str "type", .str "object"),
        (.str "additionalProperties", .map (nodes.headD default).schema)],
      (nodes.headD default).references⟩
  | object head properties _, nodes =>
    ⟨objectSchema head (bodyOf properties nodes), (bodyOf properties nodes).references⟩
  | extended extra plan, nodes =>
    ⟨Extension.merge (plan.assemble nodes).schema extra, (plan.assemble nodes).references⟩

/-- What a plan comes to when its jobs have these outcomes. -/
def run (ask : Job σ → Except Failure (Node σ)) (plan : Plan σ) : Except Failure (Node σ) :=
  plan.assemble <$> plan.jobs.mapM ask

end Plan

/-! ## Planning -/

namespace Generator

variable (g : Generator σ)

/-- How an array or a dictionary is rendered. -/
def containerPlan (t : TypeRef σ) (mode : Mode σ) : Plan σ :=
  match t.kind, t.generics with
  | .array, [] => .finished ⟨[(.str "type", .str "array")], []⟩
  | .array, element :: _ =>
    if SimpleType.binaryElements.contains element.simpleName then
      .finished ⟨[(.str "type", .str "string"), (.str "format", .str "binary")], []⟩
    else .items element mode
  | _, _ :: value :: _ => .values value mode
  | _, _ => .finished ⟨[(.str "type", .str "object")], []⟩

/-- The node of a type that is referenced. -/
def referenceNode (t : TypeRef σ) : Node σ :=
  ⟨[(.str "$ref", .str (g.settings.refPrefix ++ t.schemaName))], [t]⟩

/-- How a type is rendered that is neither a container nor replaced by anything. -/
def referencePlan (t : TypeRef σ) (mode : Mode σ) : Plan σ :=
  match g.simpleType t with
  | some s => .finished ⟨s.schema, []⟩
  | none =>
    if mode.inline && !mode.inlining.contains t then .delegated (.definition t mode)
    else .finished (g.referenceNode t)

/-- How an embedded type is rendered that no processor takes and no composition replaces. -/
def fallbackPlan (t : TypeRef σ) (mode : Mode σ) : Plan σ :=
  if (g.simpleType t).isNone && (t.kind = .array || t.kind = .dictionary) then containerPlan t mode
  else g.referencePlan t mode

/-- How a processor renders an embedded type; nothing if it declines. -/
def rulePlan (t : TypeRef σ) (mode : Mode σ) (composition : Option (Composition σ))
    (extra : Option Entries) : ProcessorRule σ → Option (Plan σ)
  | .declines => none
  | .unwrap names =>
    match composition, t.generics with
    | none, [inner] =>
      if names.contains t.fullName then some (.delegated (Plan.plain mode inner)) else none
    | _, _ => none
  | .anyOfArguments names =>
    if composition.isNone && !t.generics.isEmpty && names.contains t.fullName then
      some (.composition ⟨.anyOf, t.generics⟩ mode)
    else none
  | .itemsOf selector =>
    match t.generics with
    | [] => none
    | first :: _ => if selector.selects t then some (.items first mode) else none
  | .constant name schema references =>
    if t.fullName == name then some (.finished ⟨schema, references⟩) else none
  | .circumstances name =>
    if t.fullName == name then some (.finished ⟨circumstances mode composition extra, []⟩) else none

/-- How an embedded type is rendered, its metadata apart: the first processor that takes it
decides, then its composition, then its kind. -/
def basePlan (t : TypeRef σ) (mode : Mode σ) (composition : Option (Composition σ))
    (extra : Option Entries) : Plan σ :=
  match g.settings.chain.findSome? (fun p ↦ rulePlan t mode composition extra p.rule) with
  | some plan => plan
  | none =>
    match composition with
    | some c => .composition c mode
    | none => g.fallbackPlan t mode

/-- How an object is rendered. -/
def objectPlan (t : TypeRef σ) (tags : List (Tag σ)) (mode : Mode σ) : Traced (Plan σ) := do
  let extra ← Extension.collect tags t.text
  let head := Extension.merge
    [(.str "type", .str "object"), (.str "additionalProperties", .bool false)] extra
  let require := requireOf tags mode.require
  let inner := { mode with require, inlining := TypeRef.insertNew mode.inlining t }
  let properties ← Property.extract g.host g.settings t require
  return .object head (Property.firsts [] properties) inner

/-- How a type is rendered by its kind. -/
def kindPlan (t : TypeRef σ) (tags : List (Tag σ)) (mode : Mode σ) : Traced (Plan σ) :=
  match t.kind with
  | .enum => Plan.finished <$> g.enumeration t
  | .array | .dictionary => return containerPlan t mode
  | .object | .primitive => g.objectPlan t tags mode

/-- How a type is rendered by itself. -/
def definitionPlan (t : TypeRef σ) (mode : Mode σ) : Traced (Plan σ) := do
  let tags ← g.host.tags t
  match ← Traced.ofExcept (definedBy tags) with
  | some u => return .delegated (.definition u mode)
  | none =>
    match g.simpleType t with
    | some s => return .finished ⟨s.schema, []⟩
    | none =>
      match ← Traced.ofExcept (Composition.find? tags) with
      | some c => return .composition c mode
      | none => g.kindPlan t tags mode

/-- How an embedded type is rendered. -/
def embeddedPlan (t : TypeRef σ) (mode : Mode σ) (composition : Option (Composition σ))
    (extra : Option Entries) : Traced (Plan σ) := do
  let tags ← g.host.tags t
  match ← Traced.ofExcept (definedBy tags) with
  | some u => return .delegated (.embedded u mode composition extra)
  | none => return .extended (extra.getD []) (g.basePlan t mode composition extra)

/-- How a job is rendered. -/
def plan : Job σ → Traced (Plan σ)
  | .definition t mode => g.definitionPlan t mode
  | .embedded t mode composition extra => g.embeddedPlan t mode composition extra
  | .misplaced _ _ => Traced.fail .noAttribute

end Generator

/-! ## What a plan can be -/

namespace Generator

variable (g : Generator σ) (t : TypeRef σ) (mode : Mode σ)

/-- The ways in which a type is planned by itself. -/
inductive DefinitionCase : Plan σ → Prop where
  /-- The tags put another type in its place. -/
  | override {tags : List (Tag σ)} {u : TypeRef σ} (htags : (g.host.tags t).Returns tags)
      (hoverride : definedBy tags = .ok (some u)) : DefinitionCase (.delegated (.definition u mode))
  /-- The type is simple. -/
  | simple {tags : List (Tag σ)} {s : SimpleType} (htags : (g.host.tags t).Returns tags)
      (hoverride : definedBy tags = .ok none) (hsimple : g.simpleType t = some s) :
      DefinitionCase (.finished ⟨s.schema, []⟩)
  /-- The tags compose other types. -/
  | composed {tags : List (Tag σ)} {c : Composition σ} (htags : (g.host.tags t).Returns tags)
      (hoverride : definedBy tags = .ok none) (hsimple : g.simpleType t = none)
      (hcomposition : Composition.find? tags = .ok (some c)) :
      DefinitionCase (.composition c mode)
  /-- The kind of the type decides. -/
  | byKind {tags : List (Tag σ)} {plan : Plan σ} (htags : (g.host.tags t).Returns tags)
      (hoverride : definedBy tags = .ok none) (hsimple : g.simpleType t = none)
      (hcomposition : Composition.find? tags = .ok none)
      (hplan : (g.kindPlan t tags mode).Returns plan) : DefinitionCase plan

variable {g t mode} {plan : Plan σ}

theorem returns_definitionPlan_iff :
    (g.definitionPlan t mode).Returns plan ↔ g.DefinitionCase t mode plan := by
  constructor
  · intro h
    obtain ⟨tags, htags, h⟩ := Traced.returns_bind.mp h
    obtain ⟨override, hoverride, h⟩ := Traced.returns_bind.mp h
    rw [Traced.returns_ofExcept] at hoverride
    cases override with
    | some u =>
      obtain rfl := Traced.returns_pure.mp h
      exact .override htags hoverride
    | none =>
      cases hsimple : g.simpleType t with
      | some s =>
        rw [hsimple] at h
        obtain rfl := Traced.returns_pure.mp h
        exact .simple htags hoverride hsimple
      | none =>
        rw [hsimple] at h
        obtain ⟨composition, hcomposition, h⟩ := Traced.returns_bind.mp h
        rw [Traced.returns_ofExcept] at hcomposition
        cases composition with
        | some c =>
          obtain rfl := Traced.returns_pure.mp h
          exact .composed htags hoverride hsimple hcomposition
        | none => exact .byKind htags hoverride hsimple hcomposition h
  · intro h
    cases h with
    | override htags hoverride =>
      refine Traced.returns_bind.mpr ⟨_, htags, Traced.returns_bind.mpr ⟨_,
        Traced.returns_ofExcept.mpr hoverride, Traced.returns_pure.mpr rfl⟩⟩
    | simple htags hoverride hsimple =>
      refine Traced.returns_bind.mpr ⟨_, htags, Traced.returns_bind.mpr ⟨_,
        Traced.returns_ofExcept.mpr hoverride, ?_⟩⟩
      rw [hsimple]
      exact Traced.returns_pure.mpr rfl
    | composed htags hoverride hsimple hcomposition =>
      refine Traced.returns_bind.mpr ⟨_, htags, Traced.returns_bind.mpr ⟨_,
        Traced.returns_ofExcept.mpr hoverride, ?_⟩⟩
      rw [hsimple]
      exact Traced.returns_bind.mpr ⟨_, Traced.returns_ofExcept.mpr hcomposition,
        Traced.returns_pure.mpr rfl⟩
    | byKind htags hoverride hsimple hcomposition hplan =>
      refine Traced.returns_bind.mpr ⟨_, htags, Traced.returns_bind.mpr ⟨_,
        Traced.returns_ofExcept.mpr hoverride, ?_⟩⟩
      rw [hsimple]
      exact Traced.returns_bind.mpr ⟨_, Traced.returns_ofExcept.mpr hcomposition, hplan⟩

/-- The ways in which a type is planned by its kind. -/
inductive KindCase (g : Generator σ) (t : TypeRef σ) (tags : List (Tag σ)) (mode : Mode σ) :
    Plan σ → Prop where
  /-- As an object, with its properties. -/
  | object {extra : Entries} {properties : List (Property σ)}
      (hextra : (Extension.collect tags t.text).Returns extra)
      (hproperties : (Property.extract g.host g.settings t
        (requireOf tags mode.require)).Returns properties) :
      KindCase g t tags mode (.object (Extension.merge
          [(.str "type", .str "object"), (.str "additionalProperties", .bool false)] extra)
        (Property.firsts [] properties)
        { mode with
          require := requireOf tags mode.require
          inlining := TypeRef.insertNew mode.inlining t })
  /-- As an enum, with its names. -/
  | enumeration (names : List String) :
      KindCase g t tags mode
        (.finished ⟨[(.str "type", .str "string"), (.str "enum", .list (names.map .str))], []⟩)
  /-- As a container. -/
  | container : KindCase g t tags mode (containerPlan t mode)

theorem kindCase_of_objectPlan {tags : List (Tag σ)}
    (h : (g.objectPlan t tags mode).Returns plan) : g.KindCase t tags mode plan := by
  obtain ⟨extra, hextra, h⟩ := Traced.returns_bind.mp h
  obtain ⟨properties, hproperties, h⟩ := Traced.returns_bind.mp h
  obtain rfl := Traced.returns_pure.mp h
  exact .object hextra hproperties

theorem kindCase_of_kindPlan {tags : List (Tag σ)}
    (h : (g.kindPlan t tags mode).Returns plan) : g.KindCase t tags mode plan := by
  unfold kindPlan at h
  cases hkind : t.kind <;> rw [hkind] at h
  · exact kindCase_of_objectPlan h
  · obtain ⟨node, hnode, rfl⟩ := Traced.returns_map.mp h
    obtain ⟨ms, -, hnode⟩ := Traced.returns_bind.mp hnode
    obtain ⟨names, -, hnode⟩ := Traced.returns_bind.mp hnode
    obtain rfl := Traced.returns_pure.mp hnode
    exact .enumeration names
  · obtain rfl := Traced.returns_pure.mp h
    exact .container
  · obtain rfl := Traced.returns_pure.mp h
    exact .container
  · exact kindCase_of_objectPlan h

/-- A container is known, or its items or its values are rendered. -/
theorem containerPlan_cases (t : TypeRef σ) (mode : Mode σ) :
    (∃ node, containerPlan t mode = .finished node) ∨
      (∃ u ∈ t.generics, containerPlan t mode = .items u mode) ∨
      ∃ u ∈ t.generics, containerPlan t mode = .values u mode := by
  unfold containerPlan
  split
  · exact .inl ⟨_, rfl⟩
  next hgenerics =>
    split
    · exact .inl ⟨_, rfl⟩
    · rw [hgenerics]
      exact .inr (.inl ⟨_, List.mem_cons_self, rfl⟩)
  next hgenerics _ =>
    rw [hgenerics]
    exact .inr (.inr ⟨_, List.mem_cons_of_mem _ List.mem_cons_self, rfl⟩)
  · exact .inl ⟨_, rfl⟩

theorem containerPlan_ne_object {head : Entries} {ps : List (Property σ)} {inner : Mode σ} :
    containerPlan t mode ≠ .object head ps inner := by
  intro hobject
  rcases containerPlan_cases t mode with ⟨_, h⟩ | ⟨_, _, h⟩ | ⟨_, _, h⟩
  · exact nomatch hobject.symm.trans h
  · exact nomatch hobject.symm.trans h
  · exact nomatch hobject.symm.trans h

/-- The kind of a type decides between three ways to plan it, whatever the circumstances. -/
theorem kindPlan_cases (g : Generator σ) (t : TypeRef σ) (tags : List (Tag σ)) :
    (∀ mode, g.kindPlan t tags mode = g.objectPlan t tags mode) ∨
      (∀ mode, g.kindPlan t tags mode = Plan.finished <$> g.enumeration t) ∨
      ∀ mode, g.kindPlan t tags mode = pure (containerPlan t mode) := by
  unfold kindPlan
  cases t.kind with
  | object | primitive => exact .inl fun _ ↦ rfl
  | enum => exact .inr (.inl fun _ ↦ rfl)
  | array | dictionary => exact .inr (.inr fun _ ↦ rfl)

/-- What the plan of an object is made of. -/
structure SpellsWith (g : Generator σ) (t : TypeRef σ) (mode : Mode σ) (tags : List (Tag σ))
    (head : Entries) (ps : List (Property σ)) (inner : Mode σ) : Prop where
  returns_tags : (g.host.tags t).Returns tags
  head_eq : ∃ extra, (Extension.collect tags t.text).Returns extra ∧
    head = Extension.merge
      [(.str "type", .str "object"), (.str "additionalProperties", .bool false)] extra
  properties_eq : ∃ all, (Property.extract g.host g.settings t
    (requireOf tags mode.require)).Returns all ∧ ps = Property.firsts [] all
  inner_eq : inner = { mode with
    require := requireOf tags mode.require, inlining := TypeRef.insertNew mode.inlining t }

theorem exists_spellsWith {head : Entries} {ps : List (Property σ)} {inner : Mode σ}
    (h : (g.plan (.definition t mode)).Returns (.object head ps inner)) :
    ∃ tags, g.SpellsWith t mode tags head ps inner := by
  generalize hobject : Plan.object head ps inner = plan at h
  cases returns_definitionPlan_iff.mp h with
  | override | simple | composed => exact nomatch hobject
  | @byKind tags _ htags _ _ _ hplan =>
    cases kindCase_of_kindPlan hplan with
    | object hextra hproperties =>
      cases hobject
      exact ⟨tags, htags, ⟨_, hextra, rfl⟩, ⟨_, hproperties, rfl⟩, rfl⟩
    | enumeration => exact nomatch hobject
    | container => exact absurd hobject.symm containerPlan_ne_object

theorem returns_embeddedPlan_iff {composition : Option (Composition σ)} {extra : Option Entries} :
    (g.embeddedPlan t mode composition extra).Returns plan ↔
      ∃ tags, (g.host.tags t).Returns tags ∧
        ((∃ u, definedBy tags = .ok (some u) ∧
            plan = .delegated (.embedded u mode composition extra)) ∨
          (definedBy tags = .ok none ∧
            plan = .extended (extra.getD []) (g.basePlan t mode composition extra))) := by
  constructor
  · intro h
    obtain ⟨tags, htags, h⟩ := Traced.returns_bind.mp h
    obtain ⟨override, hoverride, h⟩ := Traced.returns_bind.mp h
    rw [Traced.returns_ofExcept] at hoverride
    cases override with
    | some u => exact ⟨tags, htags, .inl ⟨u, hoverride, (Traced.returns_pure.mp h).symm⟩⟩
    | none => exact ⟨tags, htags, .inr ⟨hoverride, (Traced.returns_pure.mp h).symm⟩⟩
  · rintro ⟨tags, htags, ⟨u, hoverride, rfl⟩ | ⟨hoverride, rfl⟩⟩
    · exact Traced.returns_bind.mpr ⟨_, htags, Traced.returns_bind.mpr ⟨_,
        Traced.returns_ofExcept.mpr hoverride, Traced.returns_pure.mpr rfl⟩⟩
    · exact Traced.returns_bind.mpr ⟨_, htags, Traced.returns_bind.mpr ⟨_,
        Traced.returns_ofExcept.mpr hoverride, Traced.returns_pure.mpr rfl⟩⟩

end Generator

/-! ## Built-in processors -/

/-- The processor unwraps optional types or renders unions. -/
def ProcessorRule.IsBuiltin : ProcessorRule σ → Prop
  | unwrap _ => True
  | anyOfArguments _ => True
  | _ => False

/-- Only built-in processors are asked. -/
def Settings.BuiltinsOnly (s : Settings σ) : Prop := ∀ p ∈ s.chain, p.rule.IsBuiltin

theorem Settings.builtinsOnly_of_nil {s : Settings σ} (h : s.processors = []) :
    s.BuiltinsOnly := by
  intro p hp
  rw [chain, h, List.nil_append] at hp
  split at hp
  · rcases List.mem_cons.mp hp with rfl | hp
    · exact trivial
    · obtain rfl := List.mem_singleton.mp hp
      exact trivial
  · exact absurd hp List.not_mem_nil

/-- A built-in processor declines a type or renders its arguments. -/
theorem ProcessorRule.IsBuiltin.rulePlan_cases {rule : ProcessorRule σ} (hrule : rule.IsBuiltin)
    {t : TypeRef σ} {mode : Mode σ} {composition : Option (Composition σ)}
    {extra : Option Entries} {plan : Plan σ}
    (h : Generator.rulePlan t mode composition extra rule = some plan) :
    (∃ inner ∈ t.generics, plan = .delegated (Plan.plain mode inner)) ∨
      plan = .composition ⟨.anyOf, t.generics⟩ mode := by
  cases rule with
  | unwrap names =>
    dsimp only [Generator.rulePlan] at h
    split at h
    next inner hgenerics =>
      split at h
      · refine .inl ⟨inner, ?_, (Option.some.inj h).symm⟩
        rw [hgenerics]
        exact List.mem_cons_self
      · exact nomatch h
    · exact nomatch h
  | anyOfArguments names =>
    dsimp only [Generator.rulePlan] at h
    split at h
    · exact .inr (Option.some.inj h).symm
    · exact nomatch h
  | _ => exact absurd hrule id

namespace Generator

variable {g : Generator σ} {t : TypeRef σ} {mode : Mode σ}

/-- The ways in which built-in processors leave an embedded type to be planned, its metadata
apart. -/
inductive BaseCase (g : Generator σ) (t : TypeRef σ) (mode : Mode σ) : Plan σ → Prop where
  /-- By an argument. -/
  | argument {inner : TypeRef σ} (h : inner ∈ t.generics) :
      BaseCase g t mode (.delegated (Plan.plain mode inner))
  /-- By a composition. -/
  | composition (c : Composition σ) : BaseCase g t mode (.composition c mode)
  /-- As a container. -/
  | container : BaseCase g t mode (containerPlan t mode)
  /-- As a simple type. -/
  | simple (s : SimpleType) : BaseCase g t mode (.finished ⟨s.schema, []⟩)
  /-- By itself. -/
  | itself : BaseCase g t mode (.delegated (.definition t mode))
  /-- As a reference. -/
  | reference : BaseCase g t mode (.finished (g.referenceNode t))

theorem baseCase_referencePlan : g.BaseCase t mode (g.referencePlan t mode) := by
  unfold referencePlan
  split
  · exact .simple _
  · split
    · exact .itself
    · exact .reference

theorem baseCase_basePlan (hbuiltins : g.settings.BuiltinsOnly) (t : TypeRef σ) (mode : Mode σ)
    (composition : Option (Composition σ)) (extra : Option Entries) :
    g.BaseCase t mode (g.basePlan t mode composition extra) := by
  unfold basePlan
  split
  next plan hplan =>
    obtain ⟨p, hp, hplan⟩ := List.exists_of_findSome?_eq_some hplan
    rcases (hbuiltins p hp).rulePlan_cases hplan with ⟨inner, hinner, rfl⟩ | rfl
    · exact .argument hinner
    · exact .composition _
  · split
    · exact .composition _
    · unfold fallbackPlan
      split
      · exact .container
      · exact baseCase_referencePlan

end Generator

end Schemata
