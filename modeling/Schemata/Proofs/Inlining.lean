import Mathlib.Data.Set.Operations
import Schemata.Proofs.Dereference
import Schemata.Proofs.Reach
import Schemata.Proofs.References

/-!
# Inlining and referencing agree

A type can be rendered with the types it references spelled out in place, or with references to
them. The two recurse differently: spelling out descends into every type and keeps the types it is
inside of, referencing stops at once and leaves the rest to whoever looks the reference up. Still
the second comes out as the first once its references are replaced by what they stand for.

The proof follows the rendering that spells out. Each of its plans has a counterpart that
references, `Plan.Refers`, which is the same except that a type to be spelled out is a finished
reference. Metadata is where the two could part: it is merged into the schema that is spelled out,
and next to the reference otherwise.
-/

namespace Schemata

variable {σ : Type}

open Traced

/-! ## Counterparts -/

/-- The types that are referenced are spelled out. -/
structure Mode.SpellsOut (require : Bool) (mode : Mode σ) : Prop where
  inline : mode.inline = true
  require : mode.require = require

/-- The types that are referenced stay references. -/
structure Mode.LeavesOut (require : Bool) (mode : Mode σ) : Prop where
  inline : mode.inline = false
  require : mode.require = require

/-- The second job is the first one with references; neither brings metadata that gets in the way of
references. -/
inductive Job.Refers (require : Bool) : Job σ → Job σ → Prop where
  | definition (t : TypeRef σ) {mode mode' : Mode σ} (hmode : mode.SpellsOut require)
      (hmode' : mode'.LeavesOut require) : Refers require (.definition t mode) (.definition t mode')
  | embedded (t : TypeRef σ) {mode mode' : Mode σ} (composition : Option (Composition σ))
      {extra : Option Entries} (hmode : mode.SpellsOut require)
      (hmode' : mode'.LeavesOut require)
      (havoid : Extension.Avoids reservedKeys (extra.getD []))
      (hdistinct : Value.Distinct (extra.getD [])) :
      Refers require (.embedded t mode composition extra) (.embedded t mode' composition extra)
  | misplaced (value : Value) (mode mode' : Mode σ) :
      Refers require (.misplaced value mode) (.misplaced value mode')

/-- The job brings no metadata. -/
def Job.Plain : Job σ → Prop
  | .definition _ _ => True
  | .embedded _ _ _ extra => extra = none
  | .misplaced _ _ => True

/-- Nothing is merged on top of a node that the plan takes over. -/
def Plan.Plain : Plan σ → Prop
  | .delegated job => job.Plain
  | .extended extra _ => extra = []
  | _ => True

/-- The second plan is the first one with references. -/
inductive Plan.Refers (g : Generator σ) (require : Bool) : Plan σ → Plan σ → Prop where
  | finished {node : Node σ} (h : node.references = [] → Flat node.schema) :
      Refers g require (.finished node) (.finished node)
  | reference (t : TypeRef σ) {mode : Mode σ} (hmode : mode.SpellsOut require) :
      Refers g require (.delegated (.definition t mode)) (.finished (g.referenceNode t))
  | delegated {job job' : Job σ} (h : job.Refers require job') :
      Refers g require (.delegated job) (.delegated job')
  | composition (c : Composition σ) {mode mode' : Mode σ} (hmode : mode.SpellsOut require)
      (hmode' : mode'.LeavesOut require) :
      Refers g require (.composition c mode) (.composition c mode')
  | items (element : TypeRef σ) {mode mode' : Mode σ} (hmode : mode.SpellsOut require)
      (hmode' : mode'.LeavesOut require) :
      Refers g require (.items element mode) (.items element mode')
  | values (value : TypeRef σ) {mode mode' : Mode σ} (hmode : mode.SpellsOut require)
      (hmode' : mode'.LeavesOut require) :
      Refers g require (.values value mode) (.values value mode')
  | object {head : Entries} {properties : List (Property σ)} {mode mode' : Mode σ}
      (hhead : Flat head)
      (hproperties : ∀ p ∈ properties, Extension.Avoids reservedKeys p.extra ∧
        Value.Distinct p.extra)
      (hmode : mode.SpellsOut require) (hmode' : mode'.LeavesOut require) :
      Refers g require (.object head properties mode) (.object head properties mode')
  | extended {extra : Entries} {plan plan' : Plan σ}
      (havoid : Extension.Avoids reservedKeys extra) (hdistinct : Value.Distinct extra)
      (hplain : plan.Plain) (h : Refers g require plan plan') :
      Refers g require (.extended extra plan) (.extended extra plan')

/-! ## Plans have counterparts -/

namespace Generator

variable {g : Generator σ} {require : Bool} {mode mode' : Mode σ}

theorem refers_plain (t : TypeRef σ) (hmode : mode.SpellsOut require)
    (hmode' : mode'.LeavesOut require) :
    (Plan.plain mode t).Refers require (Plan.plain mode' t) :=
  .embedded t none hmode hmode' (fun _ _ _ h ↦ absurd h List.not_mem_nil) List.Pairwise.nil

theorem refers_containerPlan (t : TypeRef σ) (hmode : mode.SpellsOut require)
    (hmode' : mode'.LeavesOut require) :
    Plan.Refers g require (containerPlan t mode) (containerPlan t mode') := by
  have hdata : ∀ e : Entries, (∀ x ∈ e, Free x.1) →
      Plan.Refers g require (.finished ⟨e, []⟩) (.finished ⟨e, []⟩) :=
    fun e he ↦ .finished fun _ ↦ flat_of_free he
  unfold containerPlan
  split
  · exact hdata _ (by simp [Free, reservedKeys])
  · split
    · exact hdata _ (by simp [Free, reservedKeys])
    · exact .items _ hmode hmode'
  · exact .values _ hmode hmode'
  · exact hdata _ (by simp [Free, reservedKeys])

theorem refers_referencePlan (t : TypeRef σ) (hmode : mode.SpellsOut require)
    (hmode' : mode'.LeavesOut require) :
    Plan.Refers g require (g.referencePlan t mode) (g.referencePlan t mode') := by
  unfold referencePlan
  cases g.simpleType t with
  | some simple => exact .finished fun _ ↦ flat_of_free simple.free_schema
  | none =>
    dsimp only
    rw [hmode'.inline, Bool.false_and, if_neg Bool.false_ne_true]
    split
    · exact .reference t hmode
    · exact .finished fun h ↦ nomatch h

theorem refers_fallbackPlan (t : TypeRef σ) (hmode : mode.SpellsOut require)
    (hmode' : mode'.LeavesOut require) :
    Plan.Refers g require (g.fallbackPlan t mode) (g.fallbackPlan t mode') := by
  unfold fallbackPlan
  split
  · exact refers_containerPlan t hmode hmode'
  · exact refers_referencePlan t hmode hmode'

theorem refers_rulePlan {rule : ProcessorRule σ} (hrule : rule.IsBuiltin) (t : TypeRef σ)
    (composition : Option (Composition σ)) (extra : Option Entries)
    (hmode : mode.SpellsOut require) (hmode' : mode'.LeavesOut require) :
    Option.Rel (Plan.Refers g require) (rulePlan t mode composition extra rule)
      (rulePlan t mode' composition extra rule) := by
  cases rule with
  | unwrap names =>
    dsimp only [rulePlan]
    split
    · split
      · exact .some (.delegated (refers_plain _ hmode hmode'))
      · exact .none
    · exact .none
  | anyOfArguments names =>
    dsimp only [rulePlan]
    split
    · exact .some (.composition _ hmode hmode')
    · exact .none
  | _ => exact absurd hrule id

theorem refers_findSome? {chain : List (Processor σ)} (hchain : ∀ p ∈ chain, p.rule.IsBuiltin)
    (t : TypeRef σ) (composition : Option (Composition σ)) (extra : Option Entries)
    (hmode : mode.SpellsOut require) (hmode' : mode'.LeavesOut require) :
    Option.Rel (Plan.Refers g require)
      (chain.findSome? fun p ↦ rulePlan t mode composition extra p.rule)
      (chain.findSome? fun p ↦ rulePlan t mode' composition extra p.rule) := by
  induction chain with
  | nil => exact .none
  | cons p chain ih =>
    obtain ⟨hp, hchain⟩ := List.forall_mem_cons.mp hchain
    have hrule := refers_rulePlan (g := g) hp t composition extra hmode hmode'
    rw [List.findSome?_cons, List.findSome?_cons]
    generalize rulePlan t mode composition extra p.rule = first at hrule ⊢
    generalize rulePlan t mode' composition extra p.rule = first' at hrule ⊢
    cases hrule with
    | some h => exact .some h
    | none => exact ih hchain

theorem refers_basePlan (hbuiltins : g.settings.BuiltinsOnly) (t : TypeRef σ)
    (composition : Option (Composition σ)) (extra : Option Entries)
    (hmode : mode.SpellsOut require) (hmode' : mode'.LeavesOut require) :
    Plan.Refers g require (g.basePlan t mode composition extra)
      (g.basePlan t mode' composition extra) := by
  have hchain := refers_findSome? (g := g) hbuiltins t composition extra hmode hmode'
  unfold basePlan
  generalize g.settings.chain.findSome? (fun p ↦ rulePlan t mode composition extra p.rule) =
    taken at hchain ⊢
  generalize g.settings.chain.findSome? (fun p ↦ rulePlan t mode' composition extra p.rule) =
    taken' at hchain ⊢
  cases hchain with
  | some h => exact h
  | none =>
    cases composition with
    | none => exact refers_fallbackPlan t hmode hmode'
    | some c => exact .composition c hmode hmode'

theorem plain_containerPlan (t : TypeRef σ) (mode : Mode σ) : (containerPlan t mode).Plain := by
  rcases containerPlan_cases t mode with ⟨node, h⟩ | ⟨u, -, h⟩ | ⟨u, -, h⟩
  · rw [h]
    trivial
  · rw [h]
    trivial
  · rw [h]
    trivial

theorem plain_of_baseCase {plan : Plan σ} (h : g.BaseCase t mode plan) : plan.Plain := by
  cases h with
  | argument => rfl
  | container => exact plain_containerPlan t mode
  | _ => trivial

theorem flat_enumeration {t : TypeRef σ} {node : Node σ} (h : (g.enumeration t).Returns node) :
    Flat node.schema := by
  obtain ⟨ms, -, h⟩ := returns_bind.mp h
  obtain ⟨names, -, h⟩ := returns_bind.mp h
  obtain rfl := returns_pure.mp h
  exact flat_of_free (by simp [Free, reservedKeys])

theorem flat_objectHead {extra : Entries} (havoid : Extension.Avoids reservedKeys extra) :
    Flat (Extension.merge
      [(.str "type", .str "object"), (.str "additionalProperties", .bool false)] extra) := by
  refine Flat.merge havoid ⟨rfl, fun R ↦ ?_⟩
  exact .cons ⟨rfl, rfl⟩ (.cons ⟨rfl, rfl⟩ .nil)

theorem proper_of_mem_extract (havoid : g.host.ExtensionsAvoid reservedKeys) {t : TypeRef σ}
    {ps : List (Property σ)} (h : (Property.extract g.host g.settings t require).Returns ps)
    {p : Property σ} (hp : p ∈ ps) :
    Extension.Avoids reservedKeys p.extra ∧ Value.Distinct p.extra := by
  rcases Property.origin_of_mem_extract h hp with ⟨ms, hms, m, hm, hp⟩ | ⟨cs, -, c, -, hp⟩
  · exact ⟨havoid.members hms hm hp.extra, Extension.distinct_collect hp.extra⟩
  · rw [hp.extra]
    exact ⟨fun _ _ _ h ↦ absurd h List.not_mem_nil, List.Pairwise.nil⟩

theorem requireOf_of_untagged {tags : List (Tag σ)} (h : Tag.find? tags "JsonSchema" = none) :
    requireOf tags require = require := by
  rw [requireOf, h]
  rfl

theorem refers_objectPlan (havoid : g.host.ExtensionsAvoid reservedKeys) {t : TypeRef σ}
    {tags : List (Tag σ)} (htags : (g.host.tags t).Returns tags)
    (huntagged : Tag.find? tags "JsonSchema" = none) (hmode : mode.SpellsOut require)
    (hmode' : mode'.LeavesOut require) {plan : Plan σ}
    (h : (g.objectPlan t tags mode).Returns plan) :
    ∃ plan', (g.objectPlan t tags mode').Returns plan' ∧ Plan.Refers g require plan plan' := by
  obtain ⟨extra, hextra, h⟩ := returns_bind.mp h
  obtain ⟨properties, hproperties, h⟩ := returns_bind.mp h
  obtain rfl := returns_pure.mp h
  rw [requireOf_of_untagged huntagged, hmode.require] at hproperties ⊢
  refine ⟨_, returns_bind.mpr ⟨extra, hextra, returns_bind.mpr ⟨properties, ?_,
    returns_pure.mpr rfl⟩⟩, ?_⟩
  · rw [requireOf_of_untagged huntagged, hmode'.require]
    exact hproperties
  · rw [requireOf_of_untagged huntagged, hmode'.require]
    refine .object (flat_objectHead (havoid.types htags hextra)) (fun p hp ↦ ?_)
      ⟨hmode.inline, rfl⟩ ⟨hmode'.inline, rfl⟩
    exact proper_of_mem_extract havoid hproperties (Property.mem_of_mem_firsts hp)

theorem refers_kindPlan (havoid : g.host.ExtensionsAvoid reservedKeys) {t : TypeRef σ}
    {tags : List (Tag σ)} (htags : (g.host.tags t).Returns tags)
    (huntagged : Tag.find? tags "JsonSchema" = none) (hmode : mode.SpellsOut require)
    (hmode' : mode'.LeavesOut require) {plan : Plan σ}
    (h : (g.kindPlan t tags mode).Returns plan) :
    ∃ plan', (g.kindPlan t tags mode').Returns plan' ∧ Plan.Refers g require plan plan' := by
  have hcontainer := refers_containerPlan (g := g) t hmode hmode'
  unfold kindPlan at h ⊢
  cases hkind : t.kind <;> rw [hkind] at h
  · exact refers_objectPlan havoid htags huntagged hmode hmode' h
  · obtain ⟨node, hnode, rfl⟩ := returns_map.mp h
    exact ⟨_, returns_map.mpr ⟨node, hnode, rfl⟩, .finished fun _ ↦ flat_enumeration hnode⟩
  · obtain rfl := returns_pure.mp h
    exact ⟨_, returns_pure.mpr rfl, hcontainer⟩
  · obtain rfl := returns_pure.mp h
    exact ⟨_, returns_pure.mpr rfl, hcontainer⟩
  · exact refers_objectPlan havoid htags huntagged hmode hmode' h

/-- A job that spells out and its counterpart have plans that are counterparts. -/
theorem exists_plan_refers (hbuiltins : g.settings.BuiltinsOnly)
    (havoid : g.host.ExtensionsAvoid reservedKeys)
    (huntagged : ∀ t tags, (g.host.tags t).Returns tags → Tag.find? tags "JsonSchema" = none)
    {job job' : Job σ} (hjob : job.Refers require job') {plan : Plan σ}
    (h : (g.plan job).Returns plan) :
    ∃ plan', (g.plan job').Returns plan' ∧ Plan.Refers g require plan plan' := by
  cases hjob with
  | @definition t mode mode' hmode hmode' =>
    cases returns_definitionPlan_iff.mp h with
    | override htags hoverride =>
      exact ⟨_, returns_definitionPlan_iff.mpr (.override htags hoverride),
        .delegated (.definition _ hmode hmode')⟩
    | simple htags hoverride hsimple =>
      exact ⟨_, returns_definitionPlan_iff.mpr (.simple htags hoverride hsimple),
        .finished fun _ ↦ flat_of_free (SimpleType.free_schema _)⟩
    | composed htags hoverride hsimple hcomposition =>
      exact ⟨_, returns_definitionPlan_iff.mpr (.composed htags hoverride hsimple hcomposition),
        .composition _ hmode hmode'⟩
    | byKind htags hoverride hsimple hcomposition hplan =>
      obtain ⟨plan', hplan', hrefers⟩ :=
        refers_kindPlan havoid htags (huntagged t _ htags) hmode hmode' hplan
      exact ⟨plan', returns_definitionPlan_iff.mpr
        (.byKind htags hoverride hsimple hcomposition hplan'), hrefers⟩
  | @embedded t mode mode' composition extra hmode hmode' havoidExtra hdistinct =>
    obtain ⟨tags, htags, ⟨u, hoverride, rfl⟩ | ⟨hoverride, rfl⟩⟩ := returns_embeddedPlan_iff.mp h
    · exact ⟨_, returns_embeddedPlan_iff.mpr ⟨tags, htags, .inl ⟨u, hoverride, rfl⟩⟩,
        .delegated (.embedded u composition hmode hmode' havoidExtra hdistinct)⟩
    · exact ⟨_, returns_embeddedPlan_iff.mpr ⟨tags, htags, .inr ⟨hoverride, rfl⟩⟩,
        .extended havoidExtra hdistinct
          (plain_of_baseCase (baseCase_basePlan hbuiltins t mode composition extra))
          (refers_basePlan hbuiltins t composition extra hmode hmode')⟩
  | misplaced => exact nomatch h

theorem plain_plan {job : Job σ} (hjob : job.Plain) {plan : Plan σ}
    (h : (g.plan job).Returns plan) : plan.Plain := by
  cases job with
  | definition t mode =>
    cases returns_definitionPlan_iff.mp h with
    | override => trivial
    | simple => trivial
    | composed => trivial
    | byKind _ _ _ _ hplan =>
      cases kindCase_of_kindPlan hplan with
      | object => trivial
      | enumeration => trivial
      | container => exact plain_containerPlan t mode
  | embedded t mode composition extra =>
    obtain rfl : extra = none := hjob
    obtain ⟨tags, -, ⟨u, -, rfl⟩ | ⟨-, rfl⟩⟩ := returns_embeddedPlan_iff.mp h
    · rfl
    · rfl
  | misplaced => exact nomatch h

end Generator

/-! ## Assembling counterparts -/

namespace Plan

variable {g : Generator σ} {require : Bool} {plan plan' : Plan σ} {nodes nodes' : List (Node σ)}

theorem references_eq_nil (hlength : plan.jobs.length = nodes.length)
    (h : (plan.assemble nodes).references = []) : ∀ node ∈ nodes, node.references = [] := by
  induction plan with
  | finished node =>
    obtain rfl := List.length_eq_zero_iff.mp hlength.symm
    exact fun _ hn ↦ absurd hn List.not_mem_nil
  | delegated job =>
    obtain ⟨node, rfl⟩ := List.length_eq_one_iff.mp hlength.symm
    exact fun _ hn ↦ List.mem_singleton.mp hn ▸ h
  | composition c mode =>
    exact fun _ hnode ↦ TypeRef.eq_nil_of_unionAll h (List.mem_map_of_mem hnode)
  | items element mode =>
    obtain ⟨node, rfl⟩ := List.length_eq_one_iff.mp hlength.symm
    exact fun _ hn ↦ List.mem_singleton.mp hn ▸ h
  | values value mode =>
    obtain ⟨node, rfl⟩ := List.length_eq_one_iff.mp hlength.symm
    exact fun _ hn ↦ List.mem_singleton.mp hn ▸ h
  | object head properties mode =>
    exact fun _ hnode ↦ TypeRef.eq_nil_of_foldl_union h (List.mem_map_of_mem hnode)
  | extended extra plan ih => exact ih hlength h

variable {resolves : String → Entries → Prop}

/-- The job has a counterpart that is rendered as a node which comes out as the given one. -/
def HasCounterpart (g : Generator σ) (require : Bool) (resolves : String → Entries → Prop)
    (job : Job σ) (node : Node σ) : Prop :=
  ∀ job', job.Refers require job' → ∃ node', g.Renders job' node' ∧
    (∃ depth, Dereferences resolves depth node'.schema node.schema) ∧
    (job.Plain → Bare node'.schema)

/-- Nodes come out as other nodes, one by one. -/
def ComeOut (resolves : String → Entries → Prop) (depth : Nat) (nodes' nodes : List (Node σ)) :
    Prop :=
  List.Forall₂ (fun node' node ↦ Dereferences resolves depth node'.schema node.schema) nodes' nodes

theorem exists_comeOut {jobs jobs' : List (Job σ)}
    (hjobs : List.Forall₂ (Job.Refers require) jobs jobs')
    (hnodes : List.Forall₂ (HasCounterpart g require resolves) jobs nodes) :
    ∃ nodes', List.Forall₂ g.Renders jobs' nodes' ∧ ∃ depth, ComeOut resolves depth nodes' nodes := by
  induction hjobs generalizing nodes with
  | nil =>
    cases hnodes
    exact ⟨[], .nil, 0, .nil⟩
  | @cons job job' jobs jobs' hjob _ ih =>
    cases hnodes with
    | @cons _ node _ nodes hnode hnodes =>
      obtain ⟨node', hrenders, ⟨depth, hdepth⟩, -⟩ := hnode job' hjob
      obtain ⟨nodes', hrenders', depth', hdepth'⟩ := ih hnodes
      refine ⟨node' :: nodes', .cons hrenders hrenders', max depth depth', .cons ?_ ?_⟩
      · exact hdepth.mono (Nat.le_max_left depth depth')
      · exact hdepth'.imp fun _ _ h ↦ h.mono (Nat.le_max_right depth depth')

theorem forall₂_refers_plain {mode mode' : Mode σ} (hmode : mode.SpellsOut require)
    (hmode' : mode'.LeavesOut require) (ts : List (TypeRef σ)) :
    List.Forall₂ (Job.Refers require) (ts.map (plain mode)) (ts.map (plain mode')) := by
  rw [List.forall₂_map_left_iff, List.forall₂_map_right_iff]
  exact List.forall₂_same.mpr fun t _ ↦ Generator.refers_plain t hmode hmode'

theorem keyword_ne_ref (kind : CompositionKind) : Value.str kind.keyword ≠ .str "$ref" := by
  cases kind <;> simp [CompositionKind.keyword]

theorem dereferences_keyword (kind : CompositionKind) {depth : Nat}
    (h : ComeOut resolves depth nodes' nodes) :
    Dereferences resolves (depth + 1) [(.str kind.keyword, .list (nodes'.map (.map ·.schema)))]
      [(.str kind.keyword, .list (nodes.map (.map ·.schema)))] := by
  have hitems : List.Forall₂ (SchemaRel (Dereferences resolves depth))
      (nodes'.map (.map ·.schema)) (nodes.map (.map ·.schema)) := by
    rw [List.forall₂_map_left_iff, List.forall₂_map_right_iff]
    exact h.imp fun _ _ hnode ↦ ⟨_, rfl, hnode⟩
  refine (dereferences_of_none (reference?_cons_of_ne (keyword_ne_ref kind))).mpr
    (.cons ⟨rfl, ?_⟩ .nil)
  cases kind <;> exact ⟨_, rfl, hitems⟩

theorem namedRel_bodyOf {R : Entries → Entries → Prop} (properties : List (Property σ))
    (h : List.Forall₂ (fun node' node ↦ R node'.schema node.schema) nodes' nodes) :
    NamedRel R (bodyOf properties nodes').properties (bodyOf properties nodes).properties := by
  change List.Forall₂ _ (List.zipWith _ properties nodes') (List.zipWith _ properties nodes)
  induction h generalizing properties with
  | nil =>
    rw [List.zipWith_nil_right]
    exact .nil
  | cons hnode _ ih =>
    cases properties with
    | nil => exact .nil
    | cons p properties => exact .cons ⟨rfl, _, rfl, hnode⟩ (ih properties)

theorem reference?_objectSchema {head : Entries} (h : reference? head = none)
    (body : Generator.Body σ) : reference? (objectSchema head body) = none := by
  rw [objectSchema]
  split
  · exact reference?_put h (by simp)
  · exact reference?_put (reference?_put h (by simp)) (by simp)

theorem dereferences_objectSchema {head : Entries} (hhead : Flat head)
    (properties : List (Property σ)) {depth : Nat} (h : ComeOut resolves depth nodes' nodes) :
    Dereferences resolves (depth + 1) (objectSchema head (bodyOf properties nodes'))
      (objectSchema head (bodyOf properties nodes)) := by
  have hentries : List.Forall₂ (EntryRel (Dereferences resolves depth))
      (Value.put head (.str "properties") (.map (bodyOf properties nodes').properties))
      (Value.put head (.str "properties") (.map (bodyOf properties nodes).properties)) := by
    refine Value.forall₂_put (fun _ _ hxy ↦ hxy.1) (hhead.entries _) fun k hk ↦ ?_
    obtain rfl : k = .str "properties" := hk.elim id Value.sameKey_str_right.mp
    exact ⟨rfl, _, rfl, namedRel_bodyOf properties h⟩
  refine (dereferences_of_none (reference?_objectSchema hhead.reference _)).mpr ?_
  rw [objectSchema, objectSchema]
  by_cases hrequired : (bodyOf properties nodes).required.isEmpty
  · rw [if_pos hrequired, if_pos (show (bodyOf properties nodes').required.isEmpty from hrequired)]
    exact hentries
  · rw [if_neg hrequired,
      if_neg (show ¬ (bodyOf properties nodes').required.isEmpty from hrequired)]
    exact forall₂_put_of_free (by simp [Free, reservedKeys]) hentries

theorem dereferences_entry {key : String} (hkey : Position.ofKey? key = some .one) {e : Entries}
    {x : Value × Value} (hx : x.1 ≠ .str "$ref" ∧ Free x.1) {e' : Entries} {depth : Nat}
    (h : Dereferences resolves depth e' e) :
    Dereferences resolves (depth + 1) [x, (.str key, .map e')] [x, (.str key, .map e)] := by
  refine (dereferences_of_none (reference?_cons_of_ne hx.1)).mpr ?_
  exact .cons (entryRel_of_free hx.2 x.2) (.cons (entryRel_of_position hkey ⟨e, rfl, h⟩) .nil)

/-- The one type inside a container comes out the same. -/
theorem exists_node_of_plain {t : TypeRef σ} {mode mode' : Mode σ} (hmode : mode.SpellsOut require)
    (hmode' : mode'.LeavesOut require)
    (hnodes : List.Forall₂ (HasCounterpart g require resolves) [plain mode t] nodes) :
    ∃ node', g.Renders (plain mode' t) node' ∧
      ∃ depth, Dereferences resolves depth node'.schema (nodes.headD default).schema := by
  cases hnodes with
  | cons hnode hnodes =>
    cases hnodes
    obtain ⟨node', hrenders, hdepth, -⟩ := hnode _ (Generator.refers_plain t hmode hmode')
    exact ⟨node', hrenders, hdepth⟩

/-- **Counterparts come out the same.** -/
theorem Refers.exists_nodes (h : Plan.Refers g require plan plan')
    (hresolves : ∀ t mode node', .definition t mode ∈ plan.jobs →
      g.Renders (.definition t ⟨false, require, []⟩) node' →
      resolves (g.settings.refPrefix ++ t.schemaName) node'.schema)
    (hnodes : List.Forall₂ (HasCounterpart g require resolves) plan.jobs nodes)
    (hreferences : (plan.assemble nodes).references = []) :
    ∃ nodes', List.Forall₂ g.Renders plan'.jobs nodes' ∧
      (∃ depth, Dereferences resolves depth (plan'.assemble nodes').schema
        (plan.assemble nodes).schema) ∧
      (plan.Plain → Bare (plan'.assemble nodes').schema) := by
  induction h with
  | finished hflat =>
    cases hnodes
    have hflat := hflat hreferences
    exact ⟨[], .nil, ⟨1, hflat.dereferences⟩, fun _ ↦ bare_of_none hflat.reference⟩
  | reference t hmode =>
    cases hnodes with
    | cons hnode hnodes =>
      cases hnodes
      obtain ⟨node', hrenders, ⟨depth, hdepth⟩, -⟩ :=
        hnode (.definition t ⟨false, require, []⟩) (.definition t hmode ⟨rfl, rfl⟩)
      -- where a type is spelled out its counterpart is a reference, which stands for the type by itself
      refine ⟨[], .nil, ⟨depth + 1, ?_⟩, fun _ s siblings hs ↦ ?_⟩
      · refine (dereferences_of_some rfl).mpr ⟨node'.schema, _, ?_, hdepth, rfl⟩
        exact hresolves t _ node' List.mem_cons_self hrenders
      · exact (Prod.mk.inj (Option.some.inj hs)).2.symm
  | delegated hjob =>
    cases hnodes with
    | cons hnode hnodes =>
      cases hnodes
      obtain ⟨node', hrenders, hdepth, hbare⟩ := hnode _ hjob
      exact ⟨[node'], .cons hrenders .nil, hdepth, hbare⟩
  | composition c hmode hmode' =>
    obtain ⟨nodes', hrenders, depth, hout⟩ :=
      exists_comeOut (forall₂_refers_plain hmode hmode' c.members) hnodes
    refine ⟨nodes', hrenders, ⟨depth + 1, dereferences_keyword c.kind hout⟩, fun _ ↦ ?_⟩
    exact bare_of_none (reference?_cons_of_ne (keyword_ne_ref c.kind))
  | items element hmode hmode' =>
    obtain ⟨node', hrenders, depth, hdepth⟩ := exists_node_of_plain hmode hmode' hnodes
    refine ⟨[node'], .cons hrenders .nil, ⟨depth + 1, ?_⟩, fun _ ↦ ?_⟩
    · exact dereferences_entry rfl (by simp [Free, reservedKeys]) hdepth
    · exact bare_of_none (reference?_cons_of_ne (by simp))
  | values value hmode hmode' =>
    obtain ⟨node', hrenders, depth, hdepth⟩ := exists_node_of_plain hmode hmode' hnodes
    refine ⟨[node'], .cons hrenders .nil, ⟨depth + 1, ?_⟩, fun _ ↦ ?_⟩
    · exact dereferences_entry rfl (by simp [Free, reservedKeys]) hdepth
    · exact bare_of_none (reference?_cons_of_ne (by simp))
  | @object head properties mode mode' hhead hproperties hmode hmode' =>
    have hjobs : List.Forall₂ (Job.Refers require) (properties.map (ofProperty mode))
        (properties.map (ofProperty mode')) := by
      rw [List.forall₂_map_left_iff, List.forall₂_map_right_iff]
      refine List.forall₂_same.mpr fun p hp ↦ ?_
      unfold ofProperty
      cases p.type with
      | type t =>
        exact .embedded t p.composition hmode hmode' (hproperties p hp).1 (hproperties p hp).2
      | other value => exact .misplaced value mode mode'
    obtain ⟨nodes', hrenders, depth, hout⟩ := exists_comeOut hjobs hnodes
    exact ⟨nodes', hrenders, ⟨depth + 1, dereferences_objectSchema hhead properties hout⟩,
      fun _ ↦ bare_of_none (reference?_objectSchema hhead.reference _)⟩
  | extended havoid hdistinct hplain h ih =>
    obtain ⟨nodes', hrenders, ⟨depth, hdepth⟩, hbare⟩ := ih hresolves hnodes hreferences
    -- the metadata is merged next to the reference there and into the schema here
    refine ⟨nodes', hrenders, ⟨depth, hdepth.merge hdistinct havoid (hbare hplain)⟩, ?_⟩
    rintro rfl
    exact hbare hplain

end Plan

/-! ## Inlining and referencing -/

namespace Generator

/-- The reference stands for the schema: it is the schema, with references, of a type of that name
that can be reached from the root. -/
def Resolves (g : Generator σ) (root : TypeRef σ) (require : Option Bool) (s : String)
    (target : Entries) : Prop :=
  ∃ t node, g.host.Reachable root t ∧ s = g.settings.refPrefix ++ t.schemaName ∧
    (∃ budget, (g.build budget t false require).Returns node) ∧ target = node.schema

/-- Types of one name that can be reached from the root have one schema with references. -/
def NamesAgree (g : Generator σ) (root : TypeRef σ) (require : Option Bool) : Prop :=
  ∀ t u a b, g.host.Reachable root t → g.host.Reachable root u → t.schemaName = u.schemaName →
    (∃ budget, (g.build budget t false require).Returns a) →
    (∃ budget, (g.build budget u false require).Returns b) → a.schema = b.schema

variable {g : Generator σ} {root : TypeRef σ} {require : Option Bool}

theorem namesAgree_of_injOn (h : Set.InjOn TypeRef.schemaName {t | g.host.Reachable root t}) :
    g.NamesAgree root require := by
  intro t u a b ht hu hname ha hb
  obtain rfl := h ht hu hname
  obtain rfl : a = b := Renders.unique ha hb
  rfl

theorem NamesAgree.rightUnique (h : g.NamesAgree root require) :
    Relator.RightUnique (g.Resolves root require) := by
  rintro s _ _ ⟨t, a, ht, rfl, ha, rfl⟩ ⟨u, b, hu, hs, hb, rfl⟩
  exact h t u a b ht hu ((String.append_right_inj _).mp hs) ha hb

/-- A job that spells out types, all of which can be reached, and leaves nothing out has a counterpart
that comes out as the same schema. -/
theorem Renders.hasCounterpart (require : Option Bool) (hbuiltins : g.settings.BuiltinsOnly)
    (havoid : g.host.ExtensionsAvoid reservedKeys)
    (huntagged : ∀ t tags, (g.host.tags t).Returns tags → Tag.find? tags "JsonSchema" = none)
    {job : Job σ} {node : Node σ} (h : g.Renders job node)
    (hreach : ∀ t ∈ job.types, g.host.Reachable root t) (hnode : node.references = []) :
    Plan.HasCounterpart g (require.getD g.settings.requireNonNulls) (g.Resolves root require)
      job node := by
  refine h.induction (motive := fun job node ↦ (∀ t ∈ job.types, g.host.Reachable root t) →
    node.references = [] → Plan.HasCounterpart g (require.getD g.settings.requireNonNulls)
      (g.Resolves root require) job node) ?_ hreach hnode
  intro job plan nodes hplan hnodes hreach hreferences job' hjob
  obtain ⟨plan', hplan', hrefers⟩ := exists_plan_refers hbuiltins havoid huntagged hjob hplan
  have hjobs : ∀ job ∈ plan.jobs, ∀ t ∈ job.types, g.host.Reachable root t := by
    intro next hnext t ht
    obtain ⟨u, hu, hut⟩ := reachable_of_mem_jobs hplan hnext ht
    exact (hreach u hu).trans hut
  have hcounterparts := forall₂_imp_of_mem hnodes fun next hnext node hnode hmotive ↦
    hmotive.2 (hjobs next hnext) (Plan.references_eq_nil hnodes.length_eq hreferences node hnode)
  obtain ⟨nodes', hrenders, hout, hbare⟩ := hrefers.exists_nodes
    (fun t mode node' ht hnode' ↦
      ⟨t, node', hjobs _ ht t List.mem_cons_self, rfl, hnode', rfl⟩)
    hcounterparts hreferences
  exact ⟨plan'.assemble nodes', renders_iff.mpr ⟨plan', nodes', hplan', hrenders, rfl⟩, hout,
    fun hplain ↦ hbare (plain_plan hplain hplan)⟩

/-- **Inlining is dereferencing.** -/
theorem dereferences_inline (hbuiltins : g.settings.BuiltinsOnly)
    (havoid : g.host.ExtensionsAvoid reservedKeys)
    (huntagged : ∀ t tags, (g.host.tags t).Returns tags → Tag.find? tags "JsonSchema" = none)
    {budget : Nat} {node : Node σ} (h : (g.build budget root true require).Returns node)
    (hclosed : node.references = []) :
    ∃ budget' node', (g.build budget' root false require).Returns node' ∧
      (∃ depth, Dereferences (g.Resolves root require) depth node'.schema node.schema) ∧
      (g.NamesAgree root require → ∀ depth result,
        Dereferences (g.Resolves root require) depth node'.schema result →
        result = node.schema) := by
  have hroot : ∀ t ∈ (Job.definition root
      ⟨true, require.getD g.settings.requireNonNulls, []⟩).types, g.host.Reachable root t :=
    fun t ht ↦ List.mem_singleton.mp ht ▸ .refl
  obtain ⟨node', ⟨budget', hnode'⟩, ⟨depth, hdepth⟩, -⟩ :=
    Renders.hasCounterpart require hbuiltins havoid huntagged ⟨budget, h⟩ hroot hclosed
      (.definition root ⟨false, require.getD g.settings.requireNonNulls, []⟩)
      (.definition root ⟨rfl, rfl⟩ ⟨rfl, rfl⟩)
  refine ⟨budget', node', hnode', ⟨depth, hdepth⟩, fun hnames depth' result hresult ↦ ?_⟩
  exact hresult.unique hnames.rightUnique hdepth

end Generator

/-! ## Chapters and pages

A chapter has pages, and nothing leads back to it. -/

namespace Chapters

/-- The type of whole numbers. -/
def number : TypeRef Unit :=
  { fullName := "builtins.int", simpleName := "int", kind := .primitive }

/-- A page. -/
def page : TypeRef Unit := { fullName := "library.Page", simpleName := "Page" }

/-- An array of pages. -/
def pages : TypeRef Unit :=
  { fullName := "builtins.list", simpleName := "list", kind := .array, generics := [page] }

/-- A page or nothing. -/
def optionalPage : TypeRef Unit :=
  { fullName := "typing.Optional", simpleName := "Optional", generics := [page] }

/-- A chapter. -/
def chapter : TypeRef Unit := { fullName := "library.Chapter", simpleName := "Chapter" }

/-- The declarations. -/
def graph : TypeGraph Unit where
  declarations :=
    [{ type := chapter, custom := [⟨"pages", pages⟩, ⟨"picture", optionalPage⟩] },
      { type := page, custom := [⟨"number", number⟩] }]

/-- The generator with the usual settings. -/
def generator : Generator Unit := { host := graph.host }

theorem untagged : graph.Untagged := TypeGraph.untagged_of_custom (by simp [graph])

theorem reachable_cases {t : TypeRef Unit} (h : generator.host.Reachable chapter t) :
    t ∈ [chapter, pages, optionalPage, page, number] := by
  refine untagged.mem_of_reachable ?_ ?_ ?_ List.mem_cons_self h
  · simp [chapter, pages, optionalPage, page, number]
  · simp [graph]
  · simp [graph]

theorem injOn_schemaName :
    Set.InjOn TypeRef.schemaName {t | generator.host.Reachable chapter t} := by
  intro t ht u hu hname
  have ht := reachable_cases ht
  have hu := reachable_cases hu
  simp only [List.mem_cons, List.not_mem_nil, or_false] at ht hu
  rcases ht with rfl | rfl | rfl | rfl | rfl <;> rcases hu with rfl | rfl | rfl | rfl | rfl <;>
    first
    | rfl
    | exact absurd hname (by decide)

end Chapters

/-- A chapter spelled out is what its references come to. -/
theorem Generator.dereferences_inline_chapter :
    ∃ node node', (Chapters.generator.build 9 Chapters.chapter true none).Returns node ∧
      node.references = [] ∧
      (∃ budget, (Chapters.generator.build budget Chapters.chapter false none).Returns node') ∧
      (∃ depth, Dereferences (Chapters.generator.Resolves Chapters.chapter none) depth
        node'.schema node.schema) ∧
      ∀ depth result, Dereferences (Chapters.generator.Resolves Chapters.chapter none) depth
        node'.schema result → result = node.schema := by
  have hnode : ∃ node, (Chapters.generator.build 9 Chapters.chapter true none).Returns node ∧
      node.references = [] := ⟨_, rfl, rfl⟩
  obtain ⟨node, hnode, hclosed⟩ := hnode
  obtain ⟨budget, node', hnode', hdepth, hunique⟩ := dereferences_inline
    (Settings.builtinsOnly_of_nil rfl) Chapters.untagged.extensionsAvoid
    (fun t tags htags ↦ by rw [Chapters.untagged.tags_eq_nil htags]; rfl) hnode hclosed
  exact ⟨node, node', hnode, hclosed, ⟨budget, hnode'⟩, hdepth,
    hunique (namesAgree_of_injOn Chapters.injOn_schemaName)⟩

end Schemata
