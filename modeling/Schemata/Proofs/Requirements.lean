import Schemata.Proofs.Expansion
import Schemata.Proofs.References

/-!
# What a schema requires

An object lists the names of its required properties under `required`. `Requires` speaks of the list
at a path into a schema, and two schemas require the same if they have the same lists at the same
paths.

The node of a job stands somewhere in the schema of every job that asks for it, so whatever a build
comes to can be found in the schema that it gives (`Generator.Meets.exists_stands`). Metadata may
replace any key of a schema, and so hide what stands below it: all of this is said for metadata that
leaves the keys of subschemas and `required` alone.
-/

namespace Schemata

variable {σ : Type}

open Traced

/-! ## Lists at paths -/

/-- The schema that a path of keys and indices leads to has this under `required`. -/
inductive Requires : Entries → List (String × Nat) → Value → Prop where
  | here {e : Entries} {v : Value} (h : (.str "required", v) ∈ e) : Requires e [] v
  | inside {e child : Entries} {key : String} {w v : Value} {i : Nat}
      {path : List (String × Nat)} (hentry : (.str key, w) ∈ e)
      (hchild : (Position.below (.str key, w))[i]? = some child) (h : Requires child path v) :
      Requires e ((key, i) :: path) v

/-- The schemas require the same at every path. -/
def SameRequired (e e' : Entries) : Prop := ∀ path v, Requires e path v ↔ Requires e' path v

/-- At some path into the second schema the same is required as in the first one. -/
def Stands (part whole : Entries) : Prop :=
  ∃ path, ∀ rest v, Requires whole (path ++ rest) v ↔ Requires part rest v

theorem Stands.refl (e : Entries) : Stands e e := ⟨[], fun _ _ ↦ Iff.rfl⟩

theorem Stands.trans {e₁ e₂ e₃ : Entries} (h : Stands e₁ e₂) (h' : Stands e₂ e₃) :
    Stands e₁ e₃ := by
  obtain ⟨path, h⟩ := h
  obtain ⟨path', h'⟩ := h'
  refine ⟨path' ++ path, fun rest v ↦ ?_⟩
  rw [List.append_assoc, h', h]

section Requires

variable {e e' extra : Entries} {path : List (String × Nat)} {key : String} {i : Nat} {v w : Value}

theorem requires_nil : Requires e [] v ↔ (.str "required", v) ∈ e := by
  constructor
  · rintro ⟨h⟩
    exact h
  · exact .here

theorem requires_cons : Requires e ((key, i) :: path) v ↔ ∃ w child, (.str key, w) ∈ e ∧
    (Position.below (.str key, w))[i]? = some child ∧ Requires child path v := by
  constructor
  · rintro (- | ⟨hentry, hchild, h⟩)
    exact ⟨_, _, hentry, hchild, h⟩
  · rintro ⟨w, child, hentry, hchild, h⟩
    exact .inside hentry hchild h

theorem requires_congr
    (h : ∀ key ∈ "required" :: reservedKeys, ∀ v, (.str key, v) ∈ e ↔ (.str key, v) ∈ e') :
    Requires e path v ↔ Requires e' path v := by
  cases path with
  | nil =>
    rw [requires_nil, requires_nil]
    exact h "required" List.mem_cons_self v
  | cons step path =>
    obtain ⟨key, i⟩ := step
    rw [requires_cons, requires_cons]
    refine exists_congr fun w ↦ exists_congr fun child ↦ and_congr_left fun ⟨hchild, _⟩ ↦ ?_
    obtain ⟨key', hkey, hk⟩ := Position.exists_key_of_mem_below (List.mem_of_getElem? hchild)
    obtain rfl := Value.str.inj hk
    exact h key (List.mem_cons_of_mem _ hkey) w

theorem requires_merge (h : Extension.Avoids ("required" :: reservedKeys) extra) :
    Requires (Extension.merge e extra) path v ↔ Requires e path v :=
  requires_congr fun _ hkey _ ↦ Extension.mem_merge_str h hkey

theorem requires_cons_of_unique (h : ∀ w, (.str key, w) ∈ e ↔ w = v) {u : Value} :
    Requires e ((key, i) :: path) u ↔
      ∃ child, (Position.below (.str key, v))[i]? = some child ∧ Requires child path u := by
  rw [requires_cons]
  constructor
  · rintro ⟨w, child, hentry, hchild, hrequires⟩
    obtain rfl := (h w).mp hentry
    exact ⟨child, hchild, hrequires⟩
  · rintro ⟨child, hchild, hrequires⟩
    exact ⟨v, child, (h v).mpr rfl, hchild, hrequires⟩

theorem requires_cons_of_one {child : Entries} (hkey : Position.ofKey? key = some .one)
    (h : ∀ w, (.str key, w) ∈ e ↔ w = .map child) {u : Value} :
    Requires e ((key, 0) :: path) u ↔ Requires child path u := by
  rw [requires_cons_of_unique h]
  simp [Position.below, hkey, Position.schemasIn, Position.schema?]

end Requires

/-! ## Assembled schemas -/

namespace Plan

/-- Where the node of a job stands in the assembled schema. -/
def step : Plan σ → Nat → List (String × Nat)
  | finished _, _ => []
  | delegated _, _ => []
  | composition c _, i => [(c.kind.keyword, i)]
  | items _ _, i => [("items", i)]
  | values _ _, i => [("additionalProperties", i)]
  | object _ _ _, i => [("properties", i)]
  | extended _ plan, i => plan.step i

/-- Nothing in the plan itself hides what its jobs require, and it requires nothing before them. -/
def Transparent : Plan σ → Prop
  | object head _ _ => ∀ v, (.str "properties", v) ∉ head ∧ (.str "required", v) ∉ head
  | extended extra plan => Extension.Avoids ("required" :: reservedKeys) extra ∧ plan.Transparent
  | _ => True

theorem mem_objectSchema {head : Entries} {body : Generator.Body σ}
    (hhead : ∀ v, (.str "properties", v) ∉ head) (v : Value) :
    (.str "properties", v) ∈ objectSchema head body ↔ v = .map body.properties := by
  have hmem : (.str "properties", v) ∈ head ++ [(.str "properties", .map body.properties)] ↔
      v = .map body.properties := by
    rw [List.mem_append, or_iff_right (hhead v), List.mem_singleton]
    simp
  rw [objectSchema, Value.put_str_eq_append hhead]
  split
  · exact hmem
  · rw [Value.mem_put_str (by simp)]
    exact hmem

/-- What a job requires is required where its node stands. -/
theorem requires_step {plan : Plan σ} (hplan : plan.Transparent) {nodes : List (Node σ)}
    (hlength : plan.jobs.length = nodes.length) {i : Nat} {node : Node σ}
    (hnode : nodes[i]? = some node) {path : List (String × Nat)} {v : Value} :
    Requires (plan.assemble nodes).schema (plan.step i ++ path) v ↔
      Requires node.schema path v := by
  induction plan with
  | finished known =>
    rw [List.eq_nil_of_length_eq_zero hlength.symm] at hnode
    exact nomatch hnode
  | delegated job =>
    obtain ⟨node', rfl⟩ := List.length_eq_one_iff.mp hlength.symm
    cases i with
    | zero =>
      obtain rfl := Option.some.inj hnode
      rfl
    | succ i => exact nomatch hnode
  | composition c mode =>
    rw [step, assemble, List.singleton_append,
      requires_cons_of_unique (v := .list (nodes.map (.map ·.schema))) (by simp),
      below_keyword, List.getElem?_map, hnode]
    simp
  | items element mode =>
    obtain ⟨node', rfl⟩ := List.length_eq_one_iff.mp hlength.symm
    cases i with
    | zero =>
      obtain rfl := Option.some.inj hnode
      rw [step, assemble, List.singleton_append]
      exact requires_cons_of_one rfl (by simp)
    | succ i => exact nomatch hnode
  | values value mode =>
    obtain ⟨node', rfl⟩ := List.length_eq_one_iff.mp hlength.symm
    cases i with
    | zero =>
      obtain rfl := Option.some.inj hnode
      rw [step, assemble, List.singleton_append]
      exact requires_cons_of_one rfl (by simp)
    | succ i => exact nomatch hnode
  | object head properties mode =>
    have hbody : properties.length = nodes.length := by
      rw [← hlength, jobs, List.length_map]
    have hbelow : Position.below (.str "properties", .map (bodyOf properties nodes).properties) =
        nodes.map (·.schema) := schemasIn_bodyOf hbody
    have hproperties : ∀ v, (.str "properties", v) ∈ objectSchema head (bodyOf properties nodes) ↔
        v = .map (bodyOf properties nodes).properties := mem_objectSchema fun v ↦ (hplan v).1
    rw [step, assemble, List.singleton_append, requires_cons_of_unique hproperties,
      hbelow, List.getElem?_map, hnode]
    simp
  | extended extra plan ih =>
    rw [step, assemble, requires_merge hplan.1]
    exact ih hplan.2 hlength

end Plan

/-! ## Rendered schemas -/

namespace Generator

variable {g : Generator σ} {job job' root : Job σ} {plan : Plan σ} {node whole : Node σ}

theorem transparent_containerPlan (t : TypeRef σ) (mode : Mode σ) :
    (containerPlan t mode).Transparent := by
  rcases containerPlan_cases t mode with ⟨node, h⟩ | ⟨u, -, h⟩ | ⟨u, -, h⟩
  · rw [h]
    exact trivial
  · rw [h]
    exact trivial
  · rw [h]
    exact trivial

theorem transparent_of_baseCase {t : TypeRef σ} {mode : Mode σ} (h : g.BaseCase t mode plan) :
    plan.Transparent := by
  cases h with
  | container => exact transparent_containerPlan t mode
  | _ => exact trivial

theorem transparent_plan (hbuiltins : g.settings.BuiltinsOnly)
    (havoid : g.host.ExtensionsAvoid ("required" :: reservedKeys))
    (hjob : job.Avoids ("required" :: reservedKeys)) (hplan : (g.plan job).Returns plan) :
    plan.Transparent := by
  cases job with
  | definition t mode =>
    cases returns_definitionPlan_iff.mp hplan with
    | override | simple | composed => exact trivial
    | byKind htags _ _ _ hkind =>
      cases kindCase_of_kindPlan hkind with
      | object hextra =>
        have hhead := havoid.types htags hextra
        refine fun v ↦ ⟨fun hv ↦ ?_, fun hv ↦ ?_⟩
        · rw [Extension.mem_merge_str hhead (by decide)] at hv
          simp at hv
        · rw [Extension.mem_merge_str hhead (by decide)] at hv
          simp at hv
      | enumeration => exact trivial
      | container => exact transparent_containerPlan t mode
  | embedded t mode composition extra =>
    obtain ⟨tags, -, ⟨u, -, rfl⟩ | ⟨-, rfl⟩⟩ := returns_embeddedPlan_iff.mp hplan
    · exact trivial
    · exact ⟨hjob, transparent_of_baseCase (baseCase_basePlan hbuiltins t mode composition extra)⟩
  | misplaced => exact nomatch hplan

/-- A job that is rendered is rendered together with everything that it asks for. -/
theorem Renders.exists_asked (h : g.Renders job node) (hask : g.Asks job job') :
    ∃ (plan : Plan σ) (nodes : List (Node σ)) (i : Nat) (node' : Node σ),
      (g.plan job).Returns plan ∧ List.Forall₂ g.Renders plan.jobs nodes ∧
        plan.assemble nodes = node ∧ plan.jobs[i]? = some job' ∧ nodes[i]? = some node' ∧
          g.Renders job' node' := by
  obtain ⟨plan, before, after, hplan, hjobs, -⟩ := hask
  obtain ⟨plan', nodes, hplan', hnodes, hnode⟩ := renders_iff.mp h
  obtain rfl := hplan'.unique hplan
  have hjob' : plan'.jobs[before.length]? = some job' := by
    rw [hjobs, List.getElem?_append_right (Nat.le_refl _), Nat.sub_self, List.getElem?_cons_zero]
  obtain ⟨node', hnode', hrenders⟩ := exists_getElem?_of_forall₂ hnodes hjob'
  exact ⟨plan', nodes, before.length, node', hplan, hnodes, hnode, hjob', hnode', hrenders⟩

/-- **What a build comes to stands in its schema.** -/
theorem Meets.exists_stands (hbuiltins : g.settings.BuiltinsOnly) {os cs : List (TypeRef σ)}
    (h : g.Meets root os cs job) (hwhole : g.Renders root whole) :
    ∃ node, g.Renders job node ∧ (g.host.ExtensionsAvoid ("required" :: reservedKeys) →
      root.Avoids ("required" :: reservedKeys) → job.Avoids ("required" :: reservedKeys) ∧
        Stands node.schema whole.schema) := by
  induction h with
  | root => exact ⟨whole, hwhole, fun _ hroot ↦ ⟨hroot, .refl _⟩⟩
  | object _ _ hask ih | composition _ _ hask ih | passed _ _ _ hask ih =>
    obtain ⟨node, hnode, hstands⟩ := ih
    obtain ⟨plan, nodes, i, node', hplan, hnodes, rfl, hjob', hnode', hrenders⟩ :=
      hnode.exists_asked hask
    refine ⟨node', hrenders, fun havoid hroot ↦ ?_⟩
    obtain ⟨hjob, hstands⟩ := hstands havoid hroot
    have hplace : Stands node'.schema (plan.assemble nodes).schema :=
      ⟨plan.step i, fun rest v ↦ Plan.requires_step
        (transparent_plan hbuiltins havoid hjob hplan) hnodes.length_eq hnode'⟩
    exact ⟨avoids_of_mem_jobs havoid hjob hplan _ (List.mem_of_getElem? hjob'),
      hplace.trans hstands⟩

end Generator

end Schemata
