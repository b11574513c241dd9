import Schemata.Proofs.Evaluation
import Schemata.Proofs.Memberwise

/-!
# Object schemas

The schema of an object has its properties under one key and the names of the required ones under
another. Properties may share a name, since names are kept, derived, given by tags and injected; of
several with one name only the first one counts, for its schema as well as for being required.

`Property.Sourced` is a list of properties together with what each of them comes from, a member that
takes part or an injection. `Generator.ObjectSchema` is what such a list makes of a schema.
-/

namespace Schemata

variable {σ : Type}

open Traced

/-! ## Values under keys -/

namespace Value

variable {a b : String} {k v : Value} {e : List (Value × Value)}

theorem lookup_put_str : lookup (.str a) (put e (.str a) v) = some v := by
  induction e with
  | nil => exact if_pos (sameKey_str_left.mpr rfl)
  | cons x e ih =>
    rw [put]
    split
    · next hx => exact if_pos hx
    · next hx => exact (if_neg hx).trans ih

theorem lookup_put_of_ne (h : k ≠ .str a) : lookup (.str a) (put e k v) = lookup (.str a) e := by
  induction e with
  | nil => exact if_neg fun hk ↦ h (sameKey_str_right.mp hk)
  | cons x e ih =>
    rw [put, lookup]
    split
    · next hx =>
      have hxa : ¬x.1.sameKey (.str a) := by
        intro hxa
        rw [sameKey_str_right.mp hxa] at hx
        exact h (sameKey_str_left.mp hx)
      rw [lookup, if_neg hxa, if_neg hxa]
    · rw [lookup, ih]

theorem lookup_eq_none_iff : lookup (.str a) e = none ↔ ∀ v, (.str a, v) ∉ e := by
  induction e with
  | nil => exact iff_of_true rfl fun _ ↦ List.not_mem_nil
  | cons x e ih =>
    rw [lookup]
    by_cases hx : x.1 = .str a
    · rw [if_pos (sameKey_str_right.mpr hx)]
      refine iff_of_false (Option.some_ne_none x.2) fun h ↦ h x.2 ?_
      rw [← hx]
      exact List.mem_cons_self
    · rw [if_neg fun h ↦ hx (sameKey_str_right.mp h), ih]
      refine forall_congr' fun v ↦ not_congr ?_
      rw [List.mem_cons, or_iff_right fun h ↦ hx (congrArg Prod.fst h).symm]

end Value

/-! ## First properties -/

namespace Property

variable {taken : List String} {ps : List (Property σ)} {p : Property σ}

theorem mem_firsts_iff :
    p ∈ firsts taken ps ↔ p.name ∉ taken ∧ ps.find? (·.name == p.name) = some p := by
  induction ps generalizing taken with
  | nil => simp [firsts]
  | cons q ps ih =>
    rw [firsts, List.find?_cons]
    by_cases htaken : q.name ∈ taken
    · rw [if_pos (List.contains_iff_mem.mpr htaken), ih]
      refine and_congr_right fun hp ↦ ?_
      have hne : (q.name == p.name) = false := beq_false_of_ne fun h ↦ hp (h ▸ htaken)
      rw [hne]
    · rw [if_neg fun h ↦ htaken (List.contains_iff_mem.mp h), List.mem_cons, ih, List.mem_append,
        List.mem_singleton, not_or]
      by_cases hname : p.name = q.name
      · rw [hname, beq_self_eq_true]
        simp [htaken, eq_comm]
      · rw [beq_false_of_ne (Ne.symm hname), or_iff_right fun h ↦ hname (congrArg _ h)]
        simp [hname]

theorem map_name_firsts (taken : List String) (ps : List (Property σ)) :
    (firsts taken ps).map (·.name) =
      ((ps.map (·.name)).filter (!taken.contains ·)).eraseDups := by
  induction ps generalizing taken with
  | nil => rfl
  | cons p ps ih =>
    rw [firsts, List.map_cons]
    by_cases htaken : taken.contains p.name
    · rw [if_pos htaken, ih, List.filter_cons_of_neg (by simpa using htaken)]
    · rw [if_neg htaken, List.map_cons, ih, List.filter_cons_of_pos (by simpa using htaken),
        List.eraseDups_cons, List.filter_filter]
      refine congrArg (p.name :: List.eraseDups ·) (List.filter_congr fun name _ ↦ ?_)
      rw [List.contains_append, Bool.not_or, Bool.and_comm, List.contains_cons, List.contains_nil,
        Bool.or_false]

theorem nodup_map_name_firsts (taken : List String) (ps : List (Property σ)) :
    ((firsts taken ps).map (·.name)).Nodup := by
  induction ps generalizing taken with
  | nil => exact List.nodup_nil
  | cons p ps ih =>
    rw [firsts]
    split
    · exact ih taken
    · refine List.nodup_cons.mpr ⟨fun h ↦ ?_, ih _⟩
      obtain ⟨q, hq, hname⟩ := List.mem_map.mp h
      rw [mem_firsts_iff, hname] at hq
      exact hq.1 (List.mem_append_right _ List.mem_cons_self)

/-! ## Where properties come from -/

/-- What a property comes from. -/
inductive Source (σ : Type) where
  /-- A member of the type. -/
  | member (m : Member σ)
  /-- An injection by the host. -/
  | injected (c : CustomProperty σ)

/-- The property comes from there, where properties that cannot be null are required or not. -/
inductive Source.Gives (verbatim require : Bool) : Source σ → Property σ → Prop
  | member {m p} (h : Makes verbatim require m p) : Gives verbatim require (.member m) p
  | injected (c : CustomProperty σ) : Gives verbatim require (.injected c) (ofCustom require c)

/-- A property from there cannot be null. -/
def Source.NeverNull : Source σ → Property σ → Prop
  | .member m, p => (∃ t, p.type = .type t ∧ t.isPrimitive = true) ∨
    ∃ a, Tag.find? m.tags "NotNull" = some a
  | .injected _, _ => True

theorem Source.Gives.required_iff {verbatim require : Bool} {source : Source σ}
    (h : source.Gives verbatim require p) :
    p.required = true ↔ require = true ∧ source.NeverNull p := by
  cases h with
  | member h =>
    cases require with
    | false => exact iff_of_false (by simp [h.notRequired]) (by simp)
    | true =>
      obtain ⟨t, htype, hrequired⟩ := h.required rfl
      rw [hrequired, Bool.or_eq_true, Option.isSome_iff_exists]
      simp [NeverNull, htype]
  | injected c => exact (and_iff_left trivial).symm

/-- These are the properties of a type and what they come from: the members that take part, in
their order, and then what is injected. -/
structure Sourced (host : Host σ) (settings : Settings σ) (t : TypeRef σ) (require : Bool)
    (all : List (Source σ × Property σ)) : Prop where
  returns_extract : (extract host settings t require).Returns (all.map (·.2))
  sources : ∃ floor verbatim ms cs, ReadAs host t floor verbatim ∧ (host.members t).Returns ms ∧
    (host.customProperties t).Returns cs ∧
    all.map (·.1) = (ms.filter (TakesPart host settings ⟨t, floor, verbatim, require⟩ ·)).map
      .member ++ cs.map .injected ∧
    ∀ x ∈ all, x.1.Gives verbatim require x.2

/-- Every extracted list of properties comes from somewhere. -/
theorem exists_sourced {host : Host σ} {settings : Settings σ} {t : TypeRef σ} {require : Bool}
    (h : (extract host settings t require).Returns ps) :
    ∃ all : List (Source σ × Property σ),
      Sourced host settings t require all ∧ all.map (·.2) = ps := by
  obtain ⟨floor, verbatim, ms, cs, declared, hread, hms, hcs, hmakes, rfl⟩ := exists_readAs h
  generalize htaken : ms.filter (TakesPart host settings ⟨t, floor, verbatim, require⟩ ·) = taken
    at hmakes
  -- members that take no part are gone from both lists, so the two can be paired
  let all : List (Source σ × Property σ) :=
    (taken.map .member).zip declared ++ cs.map fun c ↦ (.injected c, ofCustom require c)
  have hlength : (taken.map Source.member).length = declared.length := by
    rw [List.length_map, hmakes.length_eq]
  have hproperties : all.map (·.2) = declared ++ cs.map (ofCustom require) := by
    rw [List.map_append, List.map_snd_zip (Nat.le_of_eq hlength.symm), List.map_map]
    rfl
  have hgives : List.Forall₂ (Source.Gives verbatim require) (taken.map .member) declared :=
    List.forall₂_map_left_iff.mpr (hmakes.imp fun _ _ h ↦ .member h)
  refine ⟨all, ⟨?_, floor, verbatim, ms, cs, hread, hms, hcs, ?_, ?_⟩, hproperties⟩
  · rw [hproperties]
    exact h
  · rw [htaken, List.map_append, List.map_fst_zip (Nat.le_of_eq hlength), List.map_map]
    rfl
  · intro x hx
    rcases List.mem_append.mp hx with hx | hx
    · exact (List.forall₂_iff_zip.mp hgives).2 hx
    · obtain ⟨c, -, rfl⟩ := List.mem_map.mp hx
      exact .injected c

end Property

/-! ## Spelled-out types -/

namespace Generator

variable {g : Generator σ} {t : TypeRef σ} {tags : List (Tag σ)} {mode : Mode σ}

/-- The type is spelled out as an object: nothing stands in its place, it is not simple, it is
composed of nothing, and its kind is that of an object or a primitive. -/
structure SpellsOut (g : Generator σ) (t : TypeRef σ) (tags : List (Tag σ)) : Prop where
  returns_tags : (g.host.tags t).Returns tags
  override : definedBy tags = .ok none
  simple : g.simpleType t = none
  composition : Composition.find? tags = .ok none
  kind : t.kind = .object ∨ t.kind = .primitive

/-- What is spelled out is planned as an object. -/
theorem SpellsOut.plan_eq (h : g.SpellsOut t tags) :
    (g.plan (.definition t mode)).outcome = (g.objectPlan t tags mode).outcome := by
  have hkind : g.kindPlan t tags mode = g.objectPlan t tags mode := by
    unfold kindPlan
    rcases h.kind with hkind | hkind
    · rw [hkind]
    · rw [hkind]
  rw [plan, definitionPlan, outcome_bind, show (g.host.tags t).outcome = _ from h.returns_tags]
  change (_ : Traced _).outcome = _
  rw [h.override, h.simple, h.composition]
  exact congrArg Traced.outcome hkind

/-- The circumstances under which the properties of an object are rendered. -/
def innerMode (t : TypeRef σ) (tags : List (Tag σ)) (mode : Mode σ) : Mode σ :=
  { mode with
    require := requireOf tags mode.require
    inlining := TypeRef.insertNew mode.inlining t }

/-- These properties make an object schema with this under `properties` and these names under
`required`. -/
structure ObjectSchema (g : Generator σ) (inner : Mode σ)
    (all : List (Property.Source σ × Property σ)) (schema properties : Entries)
    (required : List String) : Prop where
  lookup_properties : Value.lookup (.str "properties") schema = some (.map properties)
  keys : properties.map (·.1) = (all.map (·.2.name)).eraseDups.map .str
  first : ∀ name value, (.str name, value) ∈ properties → ∃ source p child,
    all.find? (·.2.name == name) = some (source, p) ∧
      g.Renders (Plan.ofProperty inner p) child ∧ value = .map child.schema
  lookup_required : Value.lookup (.str "required") schema =
    if required = [] then none else some (.list (required.map .str))
  nodup : required.Nodup
  sublist : required.Sublist (all.map (·.2.name)).eraseDups
  mem_required : ∀ name, name ∈ required ↔ inner.require = true ∧
    ∃ source p, all.find? (·.2.name == name) = some (source, p) ∧ source.NeverNull p

/-! ## Bodies of objects -/

theorem lookup_properties_objectSchema (head : Entries) (body : Body σ) :
    Value.lookup (.str "properties") (Plan.objectSchema head body) =
      some (.map body.properties) := by
  unfold Plan.objectSchema
  dsimp only
  split
  · exact Value.lookup_put_str
  · rw [Value.lookup_put_of_ne (by simp)]
    exact Value.lookup_put_str

theorem lookup_required_objectSchema {head : Entries}
    (hhead : Value.lookup (.str "required") head = none) (body : Body σ) :
    Value.lookup (.str "required") (Plan.objectSchema head body) =
      if body.required = [] then none else some (.list (body.required.map .str)) := by
  unfold Plan.objectSchema
  dsimp only
  by_cases hempty : body.required = []
  · rw [if_pos hempty, if_pos (List.isEmpty_iff.mpr hempty), Value.lookup_put_of_ne (by simp)]
    exact hhead
  · rw [if_neg hempty, if_neg (by simpa using hempty)]
    exact Value.lookup_put_str

variable {inner : Mode σ} {all : List (Property.Source σ × Property σ)} {name : String}

theorem mem_firsts_iff_find? {p : Property σ} :
    p ∈ Property.firsts [] (all.map (·.2)) ∧ p.name = name ↔
      ∃ source, all.find? (·.2.name == name) = some (source, p) := by
  have hfind : (all.map (·.2)).find? (·.name == name) =
      (all.find? (·.2.name == name)).map (·.2) := List.find?_map
  rw [Property.mem_firsts_iff]
  constructor
  · rintro ⟨⟨-, h⟩, rfl⟩
    obtain ⟨x, hx, rfl⟩ := Option.map_eq_some_iff.mp (hfind.symm.trans h)
    exact ⟨x.1, hx⟩
  · rintro ⟨source, h⟩
    have hname : p.name = name := by simpa using List.find?_some h
    refine ⟨⟨List.not_mem_nil, ?_⟩, hname⟩
    rw [hname, hfind, h]
    rfl

theorem properties_bodyOf (ps : List (Property σ)) (nodes : List (Node σ)) :
    (Plan.bodyOf ps nodes).properties =
      (ps.zip nodes).map fun x ↦ (.str x.1.name, .map x.2.schema) :=
  (List.nil_append _).trans List.map_uncurry_zip_eq_zipWith.symm

/-- The first properties of a list, rendered one by one, make an object schema. -/
theorem objectSchema_bodyOf {nodes : List (Node σ)} {head : Entries}
    (hall : ∀ x ∈ all, x.2.required = true ↔ inner.require = true ∧ x.1.NeverNull x.2)
    (hnodes : List.Forall₂ (fun p node ↦ g.Renders (Plan.ofProperty inner p) node)
      (Property.firsts [] (all.map (·.2))) nodes)
    (hhead : Value.lookup (.str "required") head = none) :
    let body := Plan.bodyOf (Property.firsts [] (all.map (·.2))) nodes
    g.ObjectSchema inner all (Plan.objectSchema head body) body.properties body.required := by
  intro body
  have hnames : (Property.firsts [] (all.map (·.2))).map (·.name) =
      (all.map (·.2.name)).eraseDups := by
    rw [Property.map_name_firsts, List.map_map]
    exact congrArg List.eraseDups (List.filter_eq_self.mpr fun _ _ ↦ rfl)
  have hrequired : body.required.Sublist (all.map (·.2.name)).eraseDups := by
    rw [← hnames]
    exact List.filter_sublist.map _
  refine ⟨lookup_properties_objectSchema head body, ?_, ?_, lookup_required_objectSchema hhead body,
    hrequired.nodup ?_, hrequired, ?_⟩
  · have hzip : ((Property.firsts [] (all.map (·.2))).zip nodes).map (·.1) =
        Property.firsts [] (all.map (·.2)) := List.map_fst_zip (Nat.le_of_eq hnodes.length_eq)
    rw [← hnames, properties_bodyOf, List.map_map, List.map_map]
    nth_rewrite 2 [← hzip]
    rw [List.map_map]
    rfl
  · intro name value hvalue
    rw [properties_bodyOf] at hvalue
    obtain ⟨⟨p, child⟩, hmem, hentry⟩ := List.mem_map.mp hvalue
    obtain ⟨hname, rfl⟩ := Prod.mk.inj hentry
    have hp : p ∈ Property.firsts [] (all.map (·.2)) := (List.of_mem_zip hmem).1
    obtain ⟨source, hfind⟩ := mem_firsts_iff_find?.mp ⟨hp, Value.str.inj hname⟩
    exact ⟨source, p, child, hfind, (List.forall₂_iff_zip.mp hnodes).2 hmem, rfl⟩
  · rw [← hnames]
    exact Property.nodup_map_name_firsts _ _
  · intro name
    have hname : name ∈ body.required ↔
        ∃ p ∈ Property.firsts [] (all.map (·.2)), p.required = true ∧ p.name = name := by
      simp [body, Plan.bodyFrom, and_assoc]
    rw [hname]
    constructor
    · rintro ⟨p, hp, hprequired, hpname⟩
      obtain ⟨source, hfind⟩ := mem_firsts_iff_find?.mp ⟨hp, hpname⟩
      obtain ⟨hrequire, hnull⟩ := (hall _ (List.mem_of_find?_eq_some hfind)).mp hprequired
      exact ⟨hrequire, source, p, hfind, hnull⟩
    · rintro ⟨hrequire, source, p, hfind, hnull⟩
      obtain ⟨hp, hpname⟩ := mem_firsts_iff_find?.mpr ⟨source, hfind⟩
      exact ⟨p, hp, (hall _ (List.mem_of_find?_eq_some hfind)).mpr ⟨hrequire, hnull⟩, hpname⟩

/-- **Object schemas.** Let a type be spelled out as an object, and let nothing collected from its
tags be called `required`. Then what its properties come from is known, and they make its schema:
the keys of `properties` are their names in order, without the repetitions, each with the schema of
the first property of that name. `required` is there unless it is empty; it lists some of these
names, each once and in the same order, and a name is among them exactly if properties that cannot
be null are required of this type and the first property of that name is injected, of a primitive
type, or comes from a member that is never null. -/
theorem objectSchema_of_renders {node : Node σ} (hspells : g.SpellsOut t tags)
    (havoid : ∀ extra, (Extension.collect tags t.text).Returns extra →
      Extension.Avoids ["required"] extra)
    (h : g.Renders (.definition t mode) node) :
    ∃ all properties required,
      Property.Sourced g.host g.settings t (requireOf tags mode.require) all ∧
      g.ObjectSchema (innerMode t tags mode) all node.schema properties required := by
  obtain ⟨plan, nodes, hplan, hnodes, rfl⟩ := renders_iff.mp h
  rw [Returns, hspells.plan_eq] at hplan
  obtain ⟨extra, hextra, hplan⟩ := returns_bind.mp hplan
  obtain ⟨ps, hps, hplan⟩ := returns_bind.mp hplan
  obtain rfl := returns_pure.mp hplan
  obtain ⟨all, hsourced, rfl⟩ := Property.exists_sourced hps
  have hall : ∀ x ∈ all, x.2.required = true ↔
      (innerMode t tags mode).require = true ∧ x.1.NeverNull x.2 := by
    obtain ⟨_, _, _, _, _, _, _, _, hgives⟩ := hsourced.sources
    exact fun x hx ↦ (hgives x hx).required_iff
  have hhead : Value.lookup (.str "required") (Extension.merge
      [(.str "type", .str "object"), (.str "additionalProperties", .bool false)] extra) = none := by
    -- whatever merging leaves under this key was in the head, which has only two others
    refine Value.lookup_eq_none_iff.mpr fun v hv ↦ ?_
    rw [Extension.mem_merge_str (havoid extra hextra) List.mem_cons_self] at hv
    simp at hv
  exact ⟨all, _, _, hsourced,
    objectSchema_bodyOf hall (List.forall₂_map_left_iff.mp hnodes) hhead⟩

end Generator

/-! ## People

A person has two properties of the same name, since one is given the name of the other, and an age
that is injected once more. -/

namespace People

/-- The type of whole numbers. -/
def number : TypeRef Unit :=
  { fullName := "builtins.int", simpleName := "int", kind := .primitive }

/-- The type of texts. -/
def text : TypeRef Unit := { fullName := "builtins.str", simpleName := "str" }

/-- A person. -/
def person : TypeRef Unit := { fullName := "app.Person", simpleName := "Person" }

/-- A tag that gives a member the name of another one. -/
def givenName : Tag Unit := .mk "marks.OpenApiName" [("value", .string (.str "name"))] false

/-- The declarations. -/
def graph : TypeGraph Unit where
  declarations :=
    [{ type := person,
       members :=
        [{ name := "name", kind := .property, declaredType := some text },
          { name := "alias", kind := .property, declaredType := some number, tags := [givenName] },
          { name := "age", kind := .property, declaredType := some number }],
       custom := [⟨"age", text⟩, ⟨"links", text⟩] }]

/-- The generator with the usual settings. -/
def generator : Generator Unit := { host := graph.host }

theorem avoids_of_untagged {keys : List String} {element : String} {extra : Entries}
    (h : (Extension.collect ([] : List (Tag Unit)) element).Returns extra) :
    Extension.Avoids keys extra := by
  obtain rfl : [(.str "example", .null)] = extra := Except.ok.inj h
  intro key hkey v hv
  exact (Prod.mk.inj (List.mem_singleton.mp hv)).2

/-- Of both names the first one counts, which may be null; of both ages the first one as well, which
may not. -/
theorem objectSchema_of_renders_person :
    generator.SpellsOut person [] ∧
    (∀ extra, (Extension.collect ([] : List (Tag Unit)) person.text).Returns extra →
      Extension.Avoids ["required"] extra) ∧
    ∃ node, generator.Renders (.definition person ⟨false, true, []⟩) node ∧
      Value.lookup (.str "required") node.schema = some (.list [.str "age", .str "links"]) ∧
      ∃ all properties required, Property.Sourced graph.host {} person true all ∧
        generator.ObjectSchema ⟨false, true, [person]⟩ all node.schema properties required := by
  have hspells : generator.SpellsOut person [] := ⟨rfl, rfl, rfl, rfl, .inl rfl⟩
  have havoid : ∀ extra, (Extension.collect ([] : List (Tag Unit)) person.text).Returns extra →
      Extension.Avoids ["required"] extra := fun _ h ↦ avoids_of_untagged h
  have hrenders : generator.Renders (.definition person ⟨false, true, []⟩) _ := ⟨2, rfl⟩
  exact ⟨hspells, havoid, _, hrenders, rfl,
    Generator.objectSchema_of_renders hspells havoid hrenders⟩

end People

end Schemata
