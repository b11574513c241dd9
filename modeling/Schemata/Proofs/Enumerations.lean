import Schemata.Proofs.Naming
import Schemata.Proofs.Overrides

/-!
# Enumerations of references

Resolution looks at sets of references, and a set has no order of its own. What comes out must not
depend on the order in which its members happen to be enumerated, so they are sorted by their texts
first. Sorting settles the order only if different types have different texts.

A text is a full name with the texts of the arguments in brackets. Names without brackets and commas
say where they end, so such a text is read back from the front (`TypeRef.same_of_text_append`): the
full names and the nesting are what the text says, and the simple names are what the full names
stand for. Then the members of a set are sorted into one sequence however they were enumerated
(`TypeRef.sortByText_eq_of_perm`).

`Components.buildFrom` and `freestandingFrom` resolve with sets that are enumerated in any way at
all. They give what `Components.build` and `freestandingSchema` give, to the last record of the log.
-/

namespace Schemata

variable {σ : Type}

open Traced

namespace TypeRef

/-! ## Texts that can be read -/

/-- A character that separates the names in a text. -/
def IsMark (c : Char) : Prop := c = '[' ∨ c = ']' ∨ c = ','

/-- The names inside the types can be read from their texts: no full name has a mark in it, and
types of one full name have one simple name. -/
structure Legible (among : TypeRef σ → Prop) : Prop where
  unmarked : ∀ t, among t → ∀ x ∈ occurring t, ∀ c ∈ x.fullName.toList, ¬IsMark c
  simpleName : ∀ t, among t → ∀ u, among u → ∀ x ∈ occurring t, ∀ y ∈ occurring u,
    x.fullName = y.fullName → x.simpleName = y.simpleName

theorem Legible.mono {among among' : TypeRef σ → Prop} (h : Legible among)
    (hsub : ∀ t, among' t → among t) : Legible among' where
  unmarked t ht := h.unmarked t (hsub t ht)
  simpleName t ht u hu := h.simpleName t (hsub t ht) u (hsub u hu)

/-- What follows the text of a type inside another text, or at its end. -/
def Closes : List Char → Prop
  | [] => True
  | c :: _ => c = ']' ∨ c = ','

/-- What follows a full name: the text ends, or there are arguments. -/
def Ends : List Char → Prop
  | [] => True
  | c :: _ => IsMark c

theorem Closes.ends {rest : List Char} (h : Closes rest) : Ends rest := by
  cases rest with
  | nil => exact h
  | cons c rest => exact .inr h

/-- A name without marks ends at the first mark. -/
theorem unmarked_append_inj {name name' rest rest' : List Char} (hname : ∀ c ∈ name, ¬IsMark c)
    (hname' : ∀ c ∈ name', ¬IsMark c) (hrest : Ends rest) (hrest' : Ends rest')
    (h : name ++ rest = name' ++ rest') : name = name' ∧ rest = rest' := by
  induction name generalizing name' with
  | nil =>
    cases name' with
    | nil => exact ⟨rfl, h⟩
    | cons c name' =>
      -- the other name would begin with a mark
      rw [List.nil_append] at h
      rw [h] at hrest
      exact absurd hrest (hname' c List.mem_cons_self)
  | cons c name ih =>
    cases name' with
    | nil =>
      rw [List.nil_append] at h
      rw [← h] at hrest'
      exact absurd hrest' (hname c List.mem_cons_self)
    | cons c' name' =>
      rw [List.cons_append, List.cons_append] at h
      obtain ⟨rfl, htail⟩ := List.cons.inj h
      obtain ⟨rfl, hrest⟩ := ih (fun x hx ↦ hname x (List.mem_cons_of_mem c hx))
        (fun x hx ↦ hname' x (List.mem_cons_of_mem c hx)) htail
      exact ⟨rfl, hrest⟩

/-- The texts of the arguments as they follow one another, each after a separator. -/
def argumentsText (ts : List (TypeRef σ)) : List Char :=
  ts.flatMap fun t ↦ ',' :: ' ' :: t.text.toList

/-- What follows the full name in the text of a type with these arguments. -/
def bracketText (ts : List (TypeRef σ)) : List Char :=
  if ts.isEmpty then [] else '[' :: ((argumentsText ts).drop 2 ++ [']'])

theorem toList_joinWith_texts (t : TypeRef σ) (ts : List (TypeRef σ)) :
    ',' :: ' ' :: (Text.joinWith ", " (texts (t :: ts))).toList = argumentsText (t :: ts) := by
  induction ts generalizing t with
  | nil => rw [argumentsText, List.flatMap_singleton]; rfl
  | cons u ts ih =>
    rw [argumentsText, List.flatMap_cons, ← argumentsText, ← ih u, texts, texts, Text.joinWith,
      ← texts, String.toList_append, String.toList_append]
    · simp
    · exact nofun

theorem toList_text (t : TypeRef σ) :
    t.text.toList = t.fullName.toList ++ bracketText t.generics := by
  obtain ⟨f, s, k, gs, h⟩ := t
  rw [text, bracketText]
  dsimp only
  cases gs with
  | nil => simp
  | cons t ts =>
    rw [List.isEmpty_cons, if_neg Bool.false_ne_true, if_neg Bool.false_ne_true,
      ← toList_joinWith_texts]
    simp

theorem ends_bracketText {ts : List (TypeRef σ)} {rest : List Char} (h : Closes rest) :
    Ends (bracketText ts ++ rest) := by
  rw [bracketText]
  by_cases hts : ts.isEmpty
  · rw [if_pos hts]
    exact h.ends
  · rw [if_neg hts]
    exact .inl rfl

/-- Whether there are arguments is seen at once, and the brackets do not matter. -/
theorem argumentsText_of_bracketText {ts us : List (TypeRef σ)} {rest rest' : List Char}
    (hrest : Closes rest) (hrest' : Closes rest')
    (h : bracketText ts ++ rest = bracketText us ++ rest') :
    argumentsText ts ++ ']' :: rest = argumentsText us ++ ']' :: rest' := by
  have hopen : ∀ l : List Char, ¬Closes ('[' :: l) := by
    rintro l (h | h) <;> exact absurd h (by decide)
  have hdrop : ∀ (t : TypeRef σ) ts, ',' :: ' ' :: (argumentsText (t :: ts)).drop 2 =
      argumentsText (t :: ts) := fun _ _ ↦ rfl
  cases ts with
  | nil =>
    cases us with
    | nil => exact congrArg (']' :: ·) h
    | cons u us =>
      have hbracket : rest = '[' :: _ := h
      exact absurd hrest (hbracket ▸ hopen _)
  | cons t ts =>
    cases us with
    | nil =>
      have hbracket : rest' = '[' :: _ := h.symm
      exact absurd hrest' (hbracket ▸ hopen _)
    | cons u us =>
      rw [← hdrop, ← hdrop u]
      simpa [bracketText] using h

/-- The condition for reading the texts of two types, or of two lists of types, side by side. -/
structure ReadAlike (xs ys : List (TypeRef σ)) : Prop where
  left : ∀ x ∈ xs, ∀ c ∈ x.fullName.toList, ¬IsMark c
  right : ∀ y ∈ ys, ∀ c ∈ y.fullName.toList, ¬IsMark c
  simpleName : ∀ x ∈ xs, ∀ y ∈ ys, x.fullName = y.fullName → x.simpleName = y.simpleName

theorem ReadAlike.sub {xs ys xs' ys' : List (TypeRef σ)} (h : ReadAlike xs ys) (hxs : xs' ⊆ xs)
    (hys : ys' ⊆ ys) : ReadAlike xs' ys' where
  left x hx := h.left x (hxs hx)
  right y hy := h.right y (hys hy)
  simpleName x hx y hy := h.simpleName x (hxs hx) y (hys hy)

mutual

/-- **A text is read back from the front**: what it says about the type, and where it ends. -/
theorem same_of_text_append : ∀ (t u : TypeRef σ) {rest rest' : List Char},
    ReadAlike (occurring t) (occurring u) → Closes rest → Closes rest' →
      t.text.toList ++ rest = u.text.toList ++ rest' → same t u ∧ rest = rest'
  | ⟨f, s, k, ts, h⟩, ⟨f', s', k', us, h'⟩, rest, rest', hread, hrest, hrest', heq => by
    rw [occurring, occurring] at hread
    rw [toList_text, toList_text, List.append_assoc, List.append_assoc] at heq
    obtain ⟨hname, heq⟩ := unmarked_append_inj (hread.left _ List.mem_cons_self)
      (hread.right _ List.mem_cons_self) (ends_bracketText hrest) (ends_bracketText hrest') heq
    have hfull : f = f' := String.toList_inj.mp hname
    have hsimple : s = s' := hread.simpleName _ List.mem_cons_self _ List.mem_cons_self hfull
    obtain ⟨hgenerics, hrests⟩ := sameAll_of_argumentsText_append ts us
      (hread.sub (List.subset_cons_self _ _) (List.subset_cons_self _ _))
      (argumentsText_of_bracketText hrest hrest' heq)
    refine ⟨?_, hrests⟩
    rw [same, hgenerics, hfull, hsimple]
    simp

theorem sameAll_of_argumentsText_append : ∀ (ts us : List (TypeRef σ)) {rest rest' : List Char},
    ReadAlike (occurringAll ts) (occurringAll us) →
      argumentsText ts ++ ']' :: rest = argumentsText us ++ ']' :: rest' →
        sameAll ts us ∧ rest = rest'
  | [], [], _, _, _, heq => ⟨rfl, (List.cons.inj heq).2⟩
  | [], _ :: _, _, _, _, heq => absurd (List.cons.inj heq).1 (by decide)
  | _ :: _, [], _, _, _, heq => absurd (List.cons.inj heq).1 (by decide)
  | t :: ts, u :: us, rest, rest', hread, heq => by
    rw [occurringAll, occurringAll] at hread
    have hcloses : ∀ (ts : List (TypeRef σ)) l, Closes (argumentsText ts ++ ']' :: l) := by
      intro ts l
      cases ts with
      | nil => exact .inl rfl
      | cons t ts => exact .inr rfl
    rw [argumentsText, argumentsText, List.flatMap_cons, List.flatMap_cons, ← argumentsText,
      ← argumentsText, List.append_assoc, List.append_assoc] at heq
    obtain ⟨ht, hrest⟩ := same_of_text_append t u
      (hread.sub (List.subset_append_left _ _) (List.subset_append_left _ _))
      (hcloses ts rest) (hcloses us rest') (List.cons.inj (List.cons.inj heq).2).2
    obtain ⟨hts, hrests⟩ := sameAll_of_argumentsText_append ts us
      (hread.sub (List.subset_append_right _ _) (List.subset_append_right _ _)) hrest
    exact ⟨by rw [sameAll, ht, hts]; rfl, hrests⟩

end

theorem Legible.beq_of_text_eq {among : TypeRef σ → Prop} (h : Legible among) {t u : TypeRef σ}
    (ht : among t) (hu : among u) (htext : t.text = u.text) : t == u := by
  have hread : ReadAlike (occurring t) (occurring u) :=
    ⟨h.unmarked t ht, h.unmarked u hu, h.simpleName t ht u hu⟩
  have hend : Closes [] := trivial
  exact (same_of_text_append t u hread hend hend (by rw [htext])).1

mutual

theorem text_eq_of_same : ∀ {t u : TypeRef σ}, same t u = true → t.text = u.text
  | ⟨_, _, _, gs, _⟩, ⟨_, _, _, gs', _⟩, h => by
    simp only [same, Bool.and_eq_true, beq_iff_eq] at h
    have hempty : gs.isEmpty = gs'.isEmpty := by
      cases gs with
      | nil =>
        cases gs' with
        | nil => rfl
        | cons => exact nomatch h.2
      | cons =>
        cases gs' with
        | nil => exact nomatch h.2
        | cons => rfl
    rw [text, text, h.1.1, texts_eq_of_sameAll h.2, hempty]

theorem texts_eq_of_sameAll : ∀ {ts us : List (TypeRef σ)},
    sameAll ts us = true → texts ts = texts us
  | [], [], _ => rfl
  | _ :: _, _ :: _, h => by
    simp only [sameAll, Bool.and_eq_true] at h
    rw [texts, texts, text_eq_of_same h.1, texts_eq_of_sameAll h.2]

end

theorem text_eq_of_beq {t u : TypeRef σ} (h : t == u) : t.text = u.text := text_eq_of_same h

/-! ## Sorting -/

/-- **Sorting forgets the enumeration.** Legible types that are pairwise different come into one
order by their texts. -/
theorem sortByText_eq_of_perm {among : TypeRef σ → Prop} (h : Legible among)
    {s r : List (TypeRef σ)}
    (hs : ∀ t ∈ s, among t) (hdistinct : Distinct s) (hperm : r.Perm s) :
    sortByText r = sortByText s := by
  have hsorted : ∀ l : List (TypeRef σ), (sortByText l).Pairwise fun t u ↦ t.text ≤ u.text := by
    intro l
    have hpairwise := @List.pairwise_mergeSort _ (fun t u : TypeRef σ ↦ decide (t.text ≤ u.text))
      (fun a b c hab hbc ↦ by simpa using String.le_trans (by simpa using hab) (by simpa using hbc))
      (fun a b ↦ by simpa using String.le_total a.text b.text) l
    exact hpairwise.imp of_decide_eq_true
  have hmem : ∀ t ∈ sortByText r, t ∈ s := fun t ht ↦ hperm.mem_iff.mp (List.mem_mergeSort.mp ht)
  have hmem' : ∀ t ∈ sortByText s, t ∈ s := fun t ht ↦ List.mem_mergeSort.mp ht
  refine List.Perm.eq_of_pairwise ?_ (hsorted r) (hsorted s)
    ((List.mergeSort_perm r _).trans (hperm.trans (List.mergeSort_perm s _).symm))
  intro t u ht hu htu hut
  -- members of one text are the same type, and the set holds no type twice
  have hbeq : t == u := h.beq_of_text_eq (hs t (hmem t ht)) (hs u (hmem' u hu))
    (String.le_antisymm htu hut)
  by_contra hne
  rw [hdistinct.beq_eq_false (hmem t ht) (hmem' u hu) hne] at hbeq
  exact Bool.false_ne_true hbeq

end TypeRef

open TypeRef

/-! ## The recorded references are sets -/

/-- The references that the fixed schema of a processor comes with are a set. -/
def Settings.RecordsSets (s : Settings σ) : Prop :=
  ∀ p ∈ s.chain, ∀ name schema references,
    p.rule = .constant name schema references → Distinct references

namespace Plan

/-- The references that the plan itself knows are a set. -/
def RecordsSets : Plan σ → Prop
  | finished node => Distinct node.references
  | extended _ plan => plan.RecordsSets
  | _ => True

variable {plan : Plan σ} {nodes : List (Node σ)}

/-- Sets are put together to a set. -/
theorem RecordsSets.distinct_assemble (h : plan.RecordsSets)
    (hlength : plan.jobs.length = nodes.length)
    (hnodes : ∀ node ∈ nodes, Distinct node.references) :
    Distinct (plan.assemble nodes).references := by
  induction plan with
  | finished node => exact h
  | delegated job =>
    obtain ⟨node, rfl⟩ := List.length_eq_one_iff.mp hlength.symm
    exact hnodes node List.mem_cons_self
  | composition c mode =>
    rw [assemble]
    clear hlength
    induction nodes with
    | nil => exact List.Pairwise.nil
    | cons node nodes ih => exact (hnodes node List.mem_cons_self).union _
  | items element mode =>
    obtain ⟨node, rfl⟩ := List.length_eq_one_iff.mp hlength.symm
    exact hnodes node List.mem_cons_self
  | values value mode =>
    obtain ⟨node, rfl⟩ := List.length_eq_one_iff.mp hlength.symm
    exact hnodes node List.mem_cons_self
  | object head properties mode =>
    have hunions : ∀ (sets : List (List (TypeRef σ))) (s : List (TypeRef σ)), Distinct s →
        Distinct (sets.foldl TypeRef.union s) := by
      intro sets
      induction sets with
      | nil => exact fun _ hs ↦ hs
      | cons r sets ih => exact fun s hs ↦ ih _ (hs.union r)
    exact hunions _ _ List.Pairwise.nil
  | extended extra plan ih => exact ih h hlength

theorem recordsSets_finished_nil (schema : Entries) :
    (finished ⟨schema, []⟩ : Plan σ).RecordsSets :=
  List.Pairwise.nil

end Plan

namespace Generator

variable {g : Generator σ} {t : TypeRef σ} {mode : Mode σ} {job : Job σ} {plan : Plan σ}

theorem recordsSets_containerPlan (t : TypeRef σ) (mode : Mode σ) :
    (containerPlan t mode).RecordsSets := by
  unfold containerPlan
  split
  · exact Plan.recordsSets_finished_nil _
  · split
    · exact Plan.recordsSets_finished_nil _
    · trivial
  · trivial
  · exact Plan.recordsSets_finished_nil _

theorem recordsSets_referencePlan : (g.referencePlan t mode).RecordsSets := by
  unfold referencePlan
  split
  · exact Plan.recordsSets_finished_nil _
  · split
    · trivial
    · exact List.pairwise_singleton _ t

theorem recordsSets_rulePlan {rule : ProcessorRule σ} {composition : Option (Composition σ)}
    {extra : Option Entries}
    (hrule : ∀ name schema references, rule = .constant name schema references →
      Distinct references)
    (h : rulePlan t mode composition extra rule = some plan) : plan.RecordsSets := by
  by_cases hbuiltin : rule.IsBuiltin
  · rcases hbuiltin.rulePlan_cases h with ⟨inner, -, rfl⟩ | rfl
    · trivial
    · trivial
  · cases rule with
    | unwrap | anyOfArguments => exact absurd trivial hbuiltin
    | declines => cases h
    | itemsOf selector =>
      dsimp only [rulePlan] at h
      split at h
      · cases h
      · split at h
        · obtain rfl := Option.some.inj h
          trivial
        · cases h
    | constant name schema references =>
      dsimp only [rulePlan] at h
      split at h
      · obtain rfl := Option.some.inj h
        exact hrule name schema references rfl
      · cases h
    | circumstances name =>
      dsimp only [rulePlan] at h
      split at h
      · obtain rfl := Option.some.inj h
        exact Plan.recordsSets_finished_nil _
      · cases h

theorem recordsSets_basePlan (hsets : g.settings.RecordsSets) (t : TypeRef σ) (mode : Mode σ)
    (composition : Option (Composition σ)) (extra : Option Entries) :
    (g.basePlan t mode composition extra).RecordsSets := by
  unfold basePlan
  split
  next plan hplan =>
    obtain ⟨p, hp, hplan⟩ := List.exists_of_findSome?_eq_some hplan
    exact recordsSets_rulePlan (hsets p hp) hplan
  · split
    · trivial
    · unfold fallbackPlan
      split
      · exact recordsSets_containerPlan t mode
      · exact recordsSets_referencePlan

theorem recordsSets_plan (hsets : g.settings.RecordsSets) (h : (g.plan job).Returns plan) :
    plan.RecordsSets := by
  cases job with
  | definition t mode =>
    cases returns_definitionPlan_iff.mp h with
    | override | composed => trivial
    | simple => exact Plan.recordsSets_finished_nil _
    | byKind _ _ _ _ hplan =>
      cases kindCase_of_kindPlan hplan with
      | object => trivial
      | enumeration => exact Plan.recordsSets_finished_nil _
      | container => exact recordsSets_containerPlan t mode
  | embedded t mode composition extra =>
    obtain ⟨tags, -, ⟨u, -, rfl⟩ | ⟨-, rfl⟩⟩ := returns_embeddedPlan_iff.mp h
    · trivial
    · exact recordsSets_basePlan hsets t mode composition extra
  | misplaced => exact nomatch h

theorem Renders.distinct_references (hsets : g.settings.RecordsSets) {node : Node σ}
    (h : g.Renders job node) : Distinct node.references := by
  refine h.induction (motive := fun _ node ↦ Distinct node.references) ?_
  intro job plan nodes hplan hnodes
  refine (recordsSets_plan hsets hplan).distinct_assemble hnodes.length_eq fun node hnode ↦ ?_
  obtain ⟨-, -, -, hdistinct⟩ := exists_of_mem_right hnodes hnode
  exact hdistinct

end Generator

/-! ## Resolution from any enumeration -/

/-- A way to enumerate the members of sets. -/
structure Enumeration (σ : Type) where
  /-- The members of a set in some order. -/
  members : List (TypeRef σ) → List (TypeRef σ)
  /-- Every member comes up, and none of them twice. -/
  perm : ∀ s, (members s).Perm s

/-- A type that a resolution of the roots comes upon references it. -/
def Generator.Referenced (g : Generator σ) (inline : Bool) (roots : List (TypeRef σ))
    (u : TypeRef σ) : Prop :=
  ∃ t node, g.Reached inline roots t ∧ g.Builds inline t node ∧ u ∈ node.references

namespace Components

/-- Builds queued types until none is left, at most `rounds` of them; new references come up as they
are enumerated, and are sorted then. -/
def resolveFrom (e : Enumeration σ) (define : TypeRef σ → Traced (Node σ)) :
    Nat → Progress σ → Traced Entries
  | rounds, p =>
    match p.pending with
    | [] => return p.schemas
    | t :: rest =>
      match rounds with
      | 0 => Traced.exhausted
      | rounds + 1 => do
        let node ← define t
        let p ← Progress.file { p with pending := rest } t node.schema
        let new := node.references.filter (!p.seen.contains ·)
        resolveFrom e define rounds (p.enqueue (TypeRef.sortByText (e.members new)))

/-- The definitions of the roots and of all types they reference, with sets as they are
enumerated. -/
def buildFrom (e : Enumeration σ) (g : Generator σ) (budget : Nat) (inline : Bool)
    (roots : List (TypeRef σ)) : Traced Entries :=
  resolveFrom e (fun t ↦ g.build budget t inline) budget (Progress.enqueue {} roots)

end Components

/-- The freestanding schema of a type, with sets as they are enumerated. -/
def freestandingFrom (e : Enumeration σ) (g : Generator σ) (budget : Nat) (root : TypeRef σ) :
    Traced Entries := do
  let node ← g.freestanding.build budget root true
  let schema := Value.putAll [(.str "$schema", .str schemaDialect)] node.schema
  let schema ←
    if node.references.isEmpty then pure schema
    else do
      let definitions ← Components.buildFrom e g.freestanding budget true
        (TypeRef.sortByText (e.members node.references))
      pure (Value.put schema (.str "definitions") (.map definitions))
  Traced.write .info ("Generated JSON schema for " ++ root.text)
  return schema

/-- What follows a computation matters only for the value that it returns. -/
theorem Traced.bind_congr_of_returns {α β : Type} {x : Traced α} {f f' : α → Traced β}
    (h : ∀ a, x.Returns a → f a = f' a) : x >>= f = x >>= f' := by
  change Traced.bind x f = Traced.bind x f'
  unfold Traced.bind
  cases hx : x.outcome with
  | error e => rfl
  | ok a =>
    dsimp only
    rw [h a hx]

namespace Components

section Run

variable {e : Enumeration σ} {define : TypeRef σ → Traced (Node σ)} {p : Progress σ}
  {among : TypeRef σ → Prop}

/-- **A run from any enumeration.** Let the references of every type that is come upon be such types
again, and let them be sorted alike however they are enumerated. Then one round after the other
queues the same. -/
theorem resolveFrom_eq
    (hstep : ∀ t node, among t → (define t).Returns node →
      (∀ u ∈ node.references, among u) ∧
        ∀ s, s.Sublist node.references → sortByText (e.members s) = sortByText s)
    (rounds : Nat) (hp : ∀ t ∈ p.pending, among t) :
    resolveFrom e define rounds p = resolve define rounds p := by
  induction rounds generalizing p with
  | zero =>
    unfold resolveFrom resolve
    cases p.pending <;> rfl
  | succ rounds ih =>
    unfold resolveFrom resolve
    cases hpending : p.pending with
    | nil => rfl
    | cons t rest =>
      rw [hpending] at hp
      obtain ⟨ht, hrest⟩ := List.forall_mem_cons.mp hp
      refine bind_congr_of_returns fun node hnode ↦ bind_congr_of_returns fun p' hfile ↦ ?_
      obtain ⟨hreferences, hsort⟩ := hstep t node ht hnode
      dsimp only
      rw [hsort _ List.filter_sublist]
      refine ih fun u hu ↦ ?_
      rcases mem_pending_enqueue hu with hu | hu
      · rw [pending_of_file hfile] at hu
        exact hrest u hu
      · exact hreferences u (List.mem_filter.mp (mem_sortByText.mp hu)).1

end Run

section Build

variable {g : Generator σ} {inline : Bool} {roots : List (TypeRef σ)}

/-- The references of a type that is come upon are sorted alike, however they are enumerated. -/
theorem sortByText_members (e : Enumeration σ) (hsets : g.settings.RecordsSets)
    (hlegible : Legible (g.Referenced inline roots)) {t : TypeRef σ} {node : Node σ}
    (ht : g.Reached inline roots t) (hnode : g.Builds inline t node) {s : List (TypeRef σ)}
    (hs : s.Sublist node.references) : sortByText (e.members s) = sortByText s := by
  obtain ⟨budget, hrenders⟩ := hnode
  have hdistinct : Distinct node.references :=
    Generator.Renders.distinct_references hsets ⟨budget, hrenders⟩
  exact sortByText_eq_of_perm hlegible
    (fun u hu ↦ ⟨t, node, ht, ⟨budget, hrenders⟩, hs.subset hu⟩) (hdistinct.sublist hs) (e.perm s)

theorem buildFrom_eq (e : Enumeration σ) (hsets : g.settings.RecordsSets)
    (hlegible : Legible (g.Referenced inline roots)) (budget : Nat) :
    buildFrom e g budget inline roots = build g budget inline roots := by
  have hreached : ∀ t ∈ (Progress.enqueue {} roots).pending, g.Reached inline roots t := by
    intro t ht
    rcases mem_pending_enqueue ht with ht | ht
    · exact absurd ht List.not_mem_nil
    · exact .root ht
  refine resolveFrom_eq (fun t node ht hnode ↦ ?_) budget hreached
  exact ⟨fun u hu ↦ .step ht ⟨budget, hnode⟩ hu,
    fun s hs ↦ sortByText_members e hsets hlegible ht ⟨budget, hnode⟩ hs⟩

end Build

end Components

/-- What is reached from reached types is reached. -/
theorem Generator.Reached.of_roots {g : Generator σ} {inline : Bool}
    {roots roots' : List (TypeRef σ)}
    (hroots : ∀ t ∈ roots', g.Reached inline roots t) {t : TypeRef σ}
    (h : g.Reached inline roots' t) : g.Reached inline roots t := by
  induction h with
  | root ht => exact hroots _ ht
  | step _ hnode hu ih => exact .step ih hnode hu

theorem freestandingFrom_eq (e : Enumeration σ) {g : Generator σ} (hsets : g.settings.RecordsSets)
    {root : TypeRef σ} (hlegible : Legible (g.freestanding.Referenced true [root])) (budget : Nat) :
    freestandingFrom e g budget root = freestandingSchema g budget root := by
  have hroot : g.freestanding.Reached true [root] root := .root List.mem_cons_self
  refine bind_congr_of_returns fun node hnode ↦ ?_
  have hbuilds : g.freestanding.Builds true root node := ⟨budget, hnode⟩
  have hreferences : ∀ t ∈ sortByText node.references, g.freestanding.Reached true [root] t :=
    fun t ht ↦ .step hroot hbuilds (Components.mem_sortByText.mp ht)
  -- the second pass starts from what the root references
  have hsecond : Legible (g.freestanding.Referenced true (sortByText node.references)) :=
    hlegible.mono fun u ⟨t, n, ht, hn, hu⟩ ↦ ⟨t, n, .of_roots hreferences ht, hn, hu⟩
  have hsort : sortByText (e.members node.references) = sortByText node.references :=
    Components.sortByText_members (g := g.freestanding) e hsets hlegible hroot hbuilds
      (List.Sublist.refl _)
  dsimp only
  rw [hsort, Components.buildFrom_eq (g := g.freestanding) e hsets hsecond]

/-- **Enumerations do not matter.** Let full names have no marks in them and tell the simple names.
Then types have one text exactly if they are the same; a set of them is sorted into one sequence
however it is enumerated; and so resolution gives the same definitions in the same order, and a
freestanding schema is the same, whatever order the sets of references come in. -/
theorem enumeration_irrelevant {among : TypeRef σ → Prop} (h : Legible among) :
    (∀ t u, among t → among u → (t.text = u.text ↔ t == u)) ∧
    (∀ s r : List (TypeRef σ), (∀ t ∈ s, among t) → Distinct s → r.Perm s →
      sortByText r = sortByText s) ∧
    ∀ (g : Generator σ) (e : Enumeration σ), g.settings.RecordsSets →
      (∀ budget inline roots, (∀ t, g.Referenced inline roots t → among t) →
        Components.buildFrom e g budget inline roots = Components.build g budget inline roots) ∧
      ∀ budget root, (∀ t, g.freestanding.Referenced true [root] t → among t) →
        freestandingFrom e g budget root = freestandingSchema g budget root := by
  refine ⟨fun t u ht hu ↦ ⟨h.beq_of_text_eq ht hu, text_eq_of_beq⟩,
    fun s r hs hdistinct hperm ↦ sortByText_eq_of_perm h hs hdistinct hperm,
    fun g e hsets ↦ ⟨fun budget inline roots hamong ↦ ?_, fun budget root hamong ↦ ?_⟩⟩
  · exact Components.buildFrom_eq e hsets (h.mono hamong) budget
  · exact freestandingFrom_eq e hsets (h.mono hamong) budget

/-! ## Pets -/

namespace Pets

/-- A cat. -/
def cat : TypeRef Unit := { fullName := "app.Cat", simpleName := "Cat" }

/-- A dog. -/
def dog : TypeRef Unit := { fullName := "app.Dog", simpleName := "Dog" }

/-- Somebody with a dog and a cat. -/
def owner : TypeRef Unit := { fullName := "app.Owner", simpleName := "Owner" }

/-- The declarations. -/
def graph : TypeGraph Unit where
  declarations := [{ type := owner, custom := [⟨"dog", dog⟩, ⟨"cat", cat⟩] }]

/-- The generator with the usual settings. -/
def generator : Generator Unit := { host := graph.host }

/-- From the last member to the first. -/
def backwards : Enumeration Unit where
  members := List.reverse
  perm := List.reverse_perm

theorem builds_owner : ∃ node, generator.Builds false owner node ∧ node.references = [dog, cat] :=
  ⟨_, ⟨9, rfl⟩, rfl⟩

theorem builds_dog : ∃ node, generator.Builds false dog node ∧ node.references = [] :=
  ⟨_, ⟨9, rfl⟩, rfl⟩

theorem builds_cat : ∃ node, generator.Builds false cat node ∧ node.references = [] :=
  ⟨_, ⟨9, rfl⟩, rfl⟩

theorem referenced {t : TypeRef Unit} (h : generator.Referenced false [owner] t) :
    t ∈ [dog, cat] := by
  have hreached : ∀ u, generator.Reached false [owner] u → u ∈ [owner, dog, cat] := by
    intro u hu
    induction hu with
    | root hu => exact List.mem_cons.mpr (.inl (List.mem_singleton.mp hu))
    | step _ hnode hu ih =>
      simp only [List.mem_cons, List.not_mem_nil, or_false] at ih
      rcases ih with rfl | rfl | rfl
      · rw [Components.references_of_builds builds_owner hnode] at hu
        exact List.mem_cons_of_mem owner hu
      · rw [Components.references_of_builds builds_dog hnode] at hu
        exact absurd hu List.not_mem_nil
      · rw [Components.references_of_builds builds_cat hnode] at hu
        exact absurd hu List.not_mem_nil
  obtain ⟨u, node, hu, hnode, ht⟩ := h
  have hcases := hreached u hu
  simp only [List.mem_cons, List.not_mem_nil, or_false] at hcases
  rcases hcases with rfl | rfl | rfl
  · rwa [Components.references_of_builds builds_owner hnode] at ht
  · rw [Components.references_of_builds builds_dog hnode] at ht
    exact absurd ht List.not_mem_nil
  · rw [Components.references_of_builds builds_cat hnode] at ht
    exact absurd ht List.not_mem_nil

theorem legible : Legible (· ∈ [dog, cat]) := by
  have hmarks : ∀ t ∈ [dog, cat], ∀ x ∈ occurring t,
      '[' ∉ x.fullName.toList ∧ ']' ∉ x.fullName.toList ∧ ',' ∉ x.fullName.toList := by decide
  have hnames : ∀ t ∈ [dog, cat], ∀ u ∈ [dog, cat], ∀ x ∈ occurring t, ∀ y ∈ occurring u,
      x.fullName = y.fullName → x.simpleName = y.simpleName := by decide
  refine ⟨fun t ht x hx c hc hmark ↦ ?_, hnames⟩
  obtain ⟨hopening, hclosing, hcomma⟩ := hmarks t ht x hx
  rcases hmark with rfl | rfl | rfl
  · exact hopening hc
  · exact hclosing hc
  · exact hcomma hc

theorem recordsSets : generator.settings.RecordsSets := by
  intro p hp name schema references hrule
  have hbuiltin := Settings.builtinsOnly_of_nil (s := generator.settings) rfl p hp
  rw [hrule] at hbuiltin
  exact absurd hbuiltin id

end Pets

/-- Two pets are sorted into one sequence from both ends, and their owner is resolved alike. -/
theorem enumeration_irrelevant_pets :
    Legible (· ∈ [Pets.dog, Pets.cat]) ∧ Distinct [Pets.dog, Pets.cat] ∧
      sortByText [Pets.cat, Pets.dog] = sortByText [Pets.dog, Pets.cat] ∧
      Pets.generator.settings.RecordsSets ∧
      (∀ t, Pets.generator.Referenced false [Pets.owner] t → t ∈ [Pets.dog, Pets.cat]) ∧
      Components.buildFrom Pets.backwards Pets.generator 9 false [Pets.owner] =
        Components.build Pets.generator 9 false [Pets.owner] := by
  have hdistinct : Distinct [Pets.dog, Pets.cat] := by
    refine List.pairwise_pair.mpr ?_
    decide
  obtain ⟨-, hsort, hresolve⟩ := enumeration_irrelevant Pets.legible
  obtain ⟨hbuild, -⟩ := hresolve Pets.generator Pets.backwards Pets.recordsSets
  exact ⟨Pets.legible, hdistinct,
    hsort [Pets.dog, Pets.cat] [Pets.cat, Pets.dog] (fun _ ht ↦ ht) hdistinct
      (List.Perm.swap _ _ []), Pets.recordsSets, fun _ ↦ Pets.referenced,
    hbuild 9 false [Pets.owner] fun _ ↦ Pets.referenced⟩

end Schemata
