import Schemata.Proofs.Resolution

/-!
# Schema names of parameterized types

The schema name of a parameterized type is its simple name followed by the names of everything in
its arguments, in order and each after a separator. Nothing in it says where a name ends, how many
arguments belong to it or which package it comes from. So a schema name can be read back only if the
names inside the arguments settle all this by themselves: `TypeRef.ToldApart` asks that whenever one
name, with the separator, begins another one, both belong to types of the same full name that have
as many arguments. Under this condition two types of the same name that are filed under one schema
name are the same type. The type itself needs no condition, because its name is where the two agree.

The condition cannot be dropped. `Pairs` has types of one name that differ in the package of an
argument, in where the separator stands, or in how arguments are nested, and that are filed under
one schema name; the first of them takes the definition of the others.
-/

namespace Schemata

variable {σ : Type}

open Traced

namespace TypeRef

/-! ## What occurs in a type -/

mutual

/-- The type and everything in its arguments, in the order of the schema name. -/
def occurring : TypeRef σ → List (TypeRef σ)
  | ⟨f, s, k, gs, h⟩ => ⟨f, s, k, gs, h⟩ :: occurringAll gs

/-- Everything that occurs in several types. -/
def occurringAll : List (TypeRef σ) → List (TypeRef σ)
  | [] => []
  | t :: ts => occurring t ++ occurringAll ts

end

/-- The types inside the arguments. -/
def inside (t : TypeRef σ) : List (TypeRef σ) := occurringAll t.generics

/-- The separator and the simple name. -/
def spelling (t : TypeRef σ) : List Char := '_' :: t.simpleName.toList

/-- The simple name and the separator. -/
def label (t : TypeRef σ) : List Char := t.simpleName.toList ++ ['_']

/-- The references carry the same names. -/
structure SameGeneric (t u : TypeRef σ) : Prop where
  fullName : t.fullName = u.fullName
  simpleName : t.simpleName = u.simpleName

/-- The references carry the same names and have as many arguments. -/
structure SameHead (t u : TypeRef σ) : Prop extends SameGeneric t u where
  arity : t.generics.length = u.generics.length

/-- The names inside the arguments tell what they belong to: if one of them begins another one, both
have the same head. -/
def ToldApart (t u : TypeRef σ) : Prop :=
  ∀ x ∈ t.inside, ∀ y ∈ u.inside, x.label <+: y.label ∨ y.label <+: x.label → SameHead x y

/-! ## Names are sequences of spellings -/

mutual

theorem toList_schemaName : ∀ t : TypeRef σ,
    '_' :: t.schemaName.toList = (occurring t).flatMap spelling
  | ⟨f, s, k, gs, h⟩ => by
    rw [schemaName, occurring, List.flatMap_cons, String.toList_append, toList_schemaSuffix gs]
    rfl

theorem toList_schemaSuffix : ∀ ts : List (TypeRef σ),
    (schemaSuffix ts).toList = (occurringAll ts).flatMap spelling
  | [] => rfl
  | t :: ts => by
    rw [schemaSuffix, occurringAll, List.flatMap_append, String.toList_append,
      String.toList_append, toList_schemaSuffix ts, ← toList_schemaName t]
    rfl

end

theorem spelling_starts (ts : List (TypeRef σ)) : ['_'] <+: ts.flatMap spelling ++ ['_'] := by
  cases ts with
  | nil => exact List.prefix_refl _
  | cons t ts => exact List.prefix_append _ _

/-- **Names are read from the front.** If the names tell what they belong to, the same spellings
come from the same heads. -/
theorem forall₂_sameHead {xs ys : List (TypeRef σ)}
    (htold : ∀ x ∈ xs, ∀ y ∈ ys, x.label <+: y.label ∨ y.label <+: x.label → SameHead x y)
    (h : xs.flatMap spelling = ys.flatMap spelling) : List.Forall₂ SameHead xs ys := by
  induction xs generalizing ys with
  | nil =>
    cases ys with
    | nil => exact .nil
    | cons y ys => exact nomatch h
  | cons x xs ih =>
    cases ys with
    | nil => exact nomatch h
    | cons y ys =>
      have hspelling : x.simpleName.toList ++ xs.flatMap spelling =
          y.simpleName.toList ++ ys.flatMap spelling := (List.cons.inj h).2
      -- both labels begin the same text, so one of them begins the other
      have hx : x.label <+: y.simpleName.toList ++ ys.flatMap spelling ++ ['_'] := by
        rw [← hspelling, List.append_assoc]
        exact (List.prefix_append_right_inj _).mpr (spelling_starts xs)
      have hy : y.label <+: y.simpleName.toList ++ ys.flatMap spelling ++ ['_'] := by
        rw [List.append_assoc]
        exact (List.prefix_append_right_inj _).mpr (spelling_starts ys)
      have hhead : SameHead x y :=
        htold x List.mem_cons_self y List.mem_cons_self (List.prefix_or_prefix_of_prefix hx hy)
      rw [hhead.simpleName] at hspelling
      refine .cons hhead (ih (fun x' hx' y' hy' ↦ ?_) (List.append_cancel_left hspelling))
      exact htold x' (List.mem_cons_of_mem x hx') y' (List.mem_cons_of_mem y hy')

/-! ## Heads are sequences of types -/

mutual

/-- A head says how many arguments follow, so the front of a sequence of heads is one type. -/
theorem same_of_forall₂ : ∀ (t u : TypeRef σ) {xs ys : List (TypeRef σ)},
    List.Forall₂ SameHead (occurring t ++ xs) (occurring u ++ ys) →
      same t u ∧ List.Forall₂ SameHead xs ys
  | ⟨f, s, k, gs, h⟩, ⟨f', s', k', gs', h'⟩, xs, ys, hforall => by
    rw [occurring, occurring, List.cons_append, List.cons_append, List.forall₂_cons] at hforall
    obtain ⟨hhead, hrest⟩ := hforall
    obtain ⟨hgenerics, hxs⟩ := sameAll_of_forall₂ gs gs' hhead.arity hrest
    refine ⟨?_, hxs⟩
    rw [same, hgenerics, show f = f' from hhead.fullName, show s = s' from hhead.simpleName]
    simp

theorem sameAll_of_forall₂ : ∀ (ts us : List (TypeRef σ)) {xs ys : List (TypeRef σ)},
    ts.length = us.length →
      List.Forall₂ SameHead (occurringAll ts ++ xs) (occurringAll us ++ ys) →
        sameAll ts us ∧ List.Forall₂ SameHead xs ys
  | [], [], _, _, _, hforall => ⟨rfl, hforall⟩
  | t :: ts, u :: us, xs, ys, hlength, hforall => by
    rw [occurringAll, occurringAll, List.append_assoc, List.append_assoc] at hforall
    obtain ⟨ht, hrest⟩ := same_of_forall₂ t u hforall
    obtain ⟨hts, hxs⟩ := sameAll_of_forall₂ ts us (Nat.succ.inj hlength) hrest
    exact ⟨by rw [sameAll, ht, hts]; rfl, hxs⟩

end

/-- Where the sequence ends, the number of types need not be known. -/
theorem sameAll_of_forall₂_occurringAll {ts us : List (TypeRef σ)}
    (h : List.Forall₂ SameHead (occurringAll ts) (occurringAll us)) : sameAll ts us := by
  have hcons : ∀ (t : TypeRef σ) ts, ∃ x xs, occurringAll (t :: ts) = x :: xs := by
    rintro ⟨f, s, k, gs, handle⟩ ts
    rw [occurringAll, occurring]
    exact ⟨_, _, rfl⟩
  induction ts generalizing us with
  | nil =>
    cases us with
    | nil => rfl
    | cons u us =>
      obtain ⟨x, xs, hus⟩ := hcons u us
      rw [hus] at h
      exact nomatch h
  | cons t ts ih =>
    cases us with
    | nil =>
      obtain ⟨x, xs, hts⟩ := hcons t ts
      rw [hts] at h
      exact nomatch h
    | cons u us =>
      rw [occurringAll, occurringAll] at h
      obtain ⟨ht, hrest⟩ := same_of_forall₂ t u h
      rw [sameAll, ht, ih hrest]
      rfl

/-- Types of one name whose arguments are told apart share a schema name only if they are the
same. -/
theorem beq_of_schemaName_eq {t u : TypeRef σ} (hnames : SameGeneric t u) (htold : ToldApart t u)
    (h : t.schemaName = u.schemaName) : t == u := by
  obtain ⟨f, s, k, gs, handle⟩ := t
  obtain ⟨f', s', k', gs', handle'⟩ := u
  obtain ⟨rfl, rfl⟩ : f = f' ∧ s = s' := ⟨hnames.fullName, hnames.simpleName⟩
  rw [schemaName, schemaName, String.append_right_inj] at h
  have hspelling : (occurringAll gs).flatMap spelling = (occurringAll gs').flatMap spelling := by
    rw [← toList_schemaSuffix, ← toList_schemaSuffix, h]
  have hgenerics : sameAll gs gs' :=
    sameAll_of_forall₂_occurringAll (forall₂_sameHead htold hspelling)
  change same _ _ = true
  rw [same, hgenerics]
  simp

/-- Names without separators tell what they belong to if the same names have the same heads. -/
theorem toldApart_of_not_mem {t u : TypeRef σ}
    (hseparator : ∀ x ∈ t.inside ++ u.inside, '_' ∉ x.simpleName.toList)
    (hhead : ∀ x ∈ t.inside, ∀ y ∈ u.inside, x.simpleName = y.simpleName → SameHead x y) :
    ToldApart t u := by
  have hname : ∀ x y : TypeRef σ, '_' ∉ y.simpleName.toList → x.label <+: y.label →
      x.simpleName = y.simpleName := by
    intro x y hy hstarts
    rw [label, label, List.prefix_concat_iff] at hstarts
    rcases hstarts with heq | hstarts
    · exact String.toList_inj.mp (List.append_cancel_right heq)
    · exact absurd (hstarts.subset (List.mem_append_right _ List.mem_cons_self)) hy
  intro x hx y hy hstarts
  refine hhead x hx y hy ?_
  rcases hstarts with hstarts | hstarts
  · exact hname x y (hseparator y (List.mem_append_right _ hy)) hstarts
  · exact (hname y x (hseparator x (List.mem_append_left _ hx)) hstarts).symm

end TypeRef

/-! ## Definitions of parameterized types -/

namespace Components

open TypeRef

section Build

variable {g : Generator σ} {budget : Nat} {inline : Bool} {roots : List (TypeRef σ)}

/-- **Parameterizations have definitions of their own** as long as the names inside their arguments
tell what they belong to. Then types of one name share a schema name exactly if they are the same;
no two of them that are built compete for a name, and no reference to one of them resolves to the
definition of another one. -/
theorem build_separates {entries : Entries} (h : (build g budget inline roots).Returns entries) :
    (∀ t u : TypeRef σ, SameGeneric t u → ToldApart t u →
      (t.schemaName = u.schemaName ↔ t == u)) ∧
    ∃ order node, BuildOrder g budget inline roots order node ∧
      entries = definitions node (leaders order) ∧
      (∀ t ∈ order, ∀ u ∈ order, t ≠ u → SameGeneric t u → ToldApart t u →
        t.schemaName ≠ u.schemaName) ∧
      ∀ t ∈ order, ∀ r ∈ (node t).references, ∃ u ∈ leaders order,
        (.str r.schemaName, .map (node u).schema) ∈ entries ∧
          (SameGeneric u r → ToldApart u r → u == r) := by
  obtain ⟨order, node, horder, rfl⟩ := exists_buildOrder h
  refine ⟨fun t u hnames htold ↦ ⟨beq_of_schemaName_eq hnames htold, schemaName_eq_of_beq⟩,
    order, node, horder, rfl, fun t ht u hu hne hnames htold hname ↦ ?_, fun t ht r hr ↦ ?_⟩
  · have hsame : t == u := beq_of_schemaName_eq hnames htold hname
    rw [horder.distinct.beq_eq_false ht hu hne] at hsame
    exact Bool.false_ne_true hsame
  · obtain ⟨u, hu, hname⟩ := named_leaders_of_contains (horder.contains_reference ht hr)
    refine ⟨u, hu, ?_, fun hnames htold ↦ beq_of_schemaName_eq hnames htold hname⟩
    rw [← hname]
    exact List.mem_map_of_mem hu

end Build

end Components

/-! ## Pairs, boxes and pages -/

namespace Pairs

open TypeRef

/-- A type of this simple name with arguments. -/
def type (simpleName : String) (generics : List (TypeRef Unit) := []) (package : String := "app") :
    TypeRef Unit :=
  { fullName := package ++ "." ++ simpleName, simpleName, generics }

/-- A pair whose first argument has a separator in its name. -/
def left : TypeRef Unit := type "Pair" [type "A_B", type "C"]

/-- A pair whose second argument has a separator in its name. -/
def right : TypeRef Unit := type "Pair" [type "A", type "B_C"]

/-- Types of one name with different arguments. -/
def parameterizations : List (TypeRef Unit × TypeRef Unit) :=
  [(left, right), (type "Box" [type "A"], type "Box" [type "A" [] "other"]),
    (type "Page" [type "Pair" [type "A"], type "B"],
      type "Page" [type "Pair" [type "A", type "B"]])]

/-- The declarations: the two pairs have properties of different names. -/
def graph : TypeGraph Unit where
  declarations :=
    [{ type := left, custom := [⟨"first", Shelves.number⟩] },
      { type := right, custom := [⟨"second", Shelves.number⟩] }]

/-- The generator with the usual settings. -/
def generator : Generator Unit := { host := graph.host }

/-- The schema of an object with one required number. -/
def numbered (name : String) : Entries :=
  [(.str "type", .str "object"), (.str "additionalProperties", .bool false),
    (.str "properties", .map [(.str name, .map [(.str "type", .str "integer")])]),
    (.str "required", .list [.str name])]

/-- Schema names do not tell parameterizations apart: the types differ in the package of an
argument, in where the separator stands or in how arguments are nested, and share a schema name. The
first of two pairs keeps the name, so the other one is known under the definition of the first. -/
theorem shared_schemaName :
    (∀ p ∈ parameterizations, SameGeneric p.1 p.2 ∧ p.1.schemaName = p.2.schemaName ∧
      (p.1 == p.2) = false) ∧
    (generator.build 9 left).Returns ⟨numbered "first", []⟩ ∧
    (generator.build 9 right).Returns ⟨numbered "second", []⟩ ∧
    (Components.build generator 9 false [left, right]).Returns
      [(.str "Pair_A_B_C", .map (numbered "first"))] := by
  have hleft : (generator.build 9 left).Returns ⟨numbered "first", []⟩ := rfl
  have hright : (generator.build 9 right).Returns ⟨numbered "second", []⟩ := rfl
  let node : TypeRef Unit → Node Unit := fun t ↦
    ⟨numbered (if t == left then "first" else "second"), []⟩
  have hbuild : ∀ t ∈ [left, right], (generator.build 9 t).Returns (node t) := by
    intro t ht
    rcases List.mem_cons.mp ht with rfl | ht
    · exact hleft
    · obtain rfl := List.mem_singleton.mp ht
      exact hright
  refine ⟨fun p hp ↦ ?_, hleft, hright,
    Components.returns_build_of_references_nil hbuild (fun _ ↦ rfl) (by decide)⟩
  simp only [parameterizations, List.mem_cons, List.not_mem_nil, or_false] at hp
  rcases hp with rfl | rfl | rfl <;> exact ⟨⟨rfl, rfl⟩, by decide, by decide⟩

/-- A box of one type. -/
def box (content : String) : TypeRef Unit := type "Box" [type content]

theorem toldApart_box : ToldApart (box "Cat") (box "Dog") := by
  have hcat : (box "Cat").inside = [type "Cat"] := rfl
  have hdog : (box "Dog").inside = [type "Dog"] := rfl
  refine toldApart_of_not_mem ?_ ?_
  · rw [hcat, hdog]
    simp [type]
  · rw [hcat, hdog]
    simp [type]

theorem returns_build_boxes : ∃ entries,
    (Components.build generator 9 false [box "Cat", box "Dog"]).Returns entries := by
  let node : TypeRef Unit → Node Unit := fun _ ↦
    ⟨[(.str "type", .str "object"), (.str "additionalProperties", .bool false),
      (.str "properties", .map [])], []⟩
  have hbuild : ∀ t ∈ [box "Cat", box "Dog"], (generator.build 9 t).Returns (node t) := by
    intro t ht
    rcases List.mem_cons.mp ht with rfl | ht
    · rfl
    · obtain rfl := List.mem_singleton.mp ht
      rfl
  exact ⟨_, Components.returns_build_of_references_nil hbuild (fun _ ↦ rfl) (by decide)⟩

end Pairs

/-- Boxes of cats and of dogs are told apart and defined under two names. -/
theorem Components.build_separates_boxes : ∃ entries,
    (build Pairs.generator 9 false [Pairs.box "Cat", Pairs.box "Dog"]).Returns entries ∧
      TypeRef.ToldApart (Pairs.box "Cat") (Pairs.box "Dog") ∧
      ((Pairs.box "Cat").schemaName = (Pairs.box "Dog").schemaName ↔
        Pairs.box "Cat" == Pairs.box "Dog") := by
  obtain ⟨entries, hentries⟩ := Pairs.returns_build_boxes
  obtain ⟨hnames, -⟩ := build_separates hentries
  exact ⟨entries, hentries, Pairs.toldApart_box, hnames _ _ ⟨rfl, rfl⟩ Pairs.toldApart_box⟩

end Schemata
