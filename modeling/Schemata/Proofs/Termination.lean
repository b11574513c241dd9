import Schemata.Proofs.Declared
import Schemata.Proofs.Grounding

/-!
# Termination

Rendering in inline mode ends unless it composes for ever. Compositions are not among the expansions
that the mode records, so nothing but the declarations themselves keeps a build from entering the
composition of a type inside the composition of the same type.

If no composed type is mentioned inside its own composition, then the compositions around a job are
of different types, and the build ends. Exactly then every type that is met again inside its own
expansion is referenced instead of expanded (`cutsRepeats_iff`). The last section shows what happens
otherwise.
-/

namespace Schemata

variable {σ : Type}

open Traced

/-- The host answers, finitely many types can be reached from the type, and no chain of arguments
and replacements among them is infinite. -/
structure Host.Finitary (host : Host σ) (t : TypeRef σ) : Prop where
  answers : host.Answers
  finite : ∃ among : List (TypeRef σ), ∀ u, host.Reachable t u → among.contains u
  descent : ¬∃ f : ℕ → TypeRef σ, host.Reachable t (f 0) ∧ ∀ n, host.Descends (f n) (f (n + 1))

namespace Generator

variable {g : Generator σ} {t : TypeRef σ} {mode : Mode σ} {job : Job σ}

/-! ## Types that are met again -/

/-- The job is rendered as a reference to the type, and nothing else is rendered for it. -/
def Cuts (g : Generator σ) (t : TypeRef σ) (mode : Mode σ) (extra : Option Entries) : Prop :=
  (g.render 1 (.embedded t mode none extra)).Returns
    ⟨Extension.merge (g.referenceNode t).schema (extra.getD []), [t]⟩

/-- Every type that is mentioned inside its own object or its own composition is referenced. -/
def CutsRepeats (g : Generator σ) (root : Job σ) : Prop :=
  ∀ {os cs t mode extra}, g.Meets root os cs (.embedded t mode none extra) →
    g.Mentions t mode extra → os.contains t ∨ cs.contains t → g.Cuts t mode extra

/-- No type is mentioned inside its own composition. -/
def ComposesApart (g : Generator σ) (root : Job σ) : Prop :=
  ∀ {os cs t mode extra}, g.Meets root os cs (.embedded t mode none extra) →
    g.Mentions t mode extra → cs.contains t = false

namespace Mentions

variable {extra : Option Entries}

theorem returns_plan (h : g.Mentions t mode extra) :
    (g.plan (.embedded t mode none extra)).Returns
      (.extended (extra.getD []) (g.referencePlan t mode)) := by
  obtain ⟨tags, htags, hnone⟩ := h.override
  have hbase : g.basePlan t mode none extra = g.referencePlan t mode := by
    unfold basePlan
    rw [h.declined]
    simp only [fallbackPlan, h.array, h.dictionary, decide_false, Bool.or_false, Bool.and_false,
      Bool.false_eq_true, if_false]
  rw [← hbase]
  exact returns_embeddedPlan_iff.mpr ⟨tags, htags, .inr ⟨hnone, rfl⟩⟩

/-- In inline mode a type is referenced exactly where it is being spelled out already. -/
theorem cuts_iff (h : g.Mentions t mode extra) (hinline : mode.inline = true) :
    g.Cuts t mode extra ↔ mode.inlining.contains t := by
  rw [Cuts, Returns, outcome_render_of_plan 0 h.returns_plan]
  unfold referencePlan
  rw [h.simple, hinline, Bool.true_and]
  cases mode.inlining.contains t with
  | true => exact ⟨fun _ ↦ rfl, fun _ ↦ rfl⟩
  | false =>
    -- the definition would need a budget of its own
    constructor
    · intro hcut
      cases hcut
    · intro hinlining
      cases hinlining

end Mentions

section Apart

variable {root : Job σ} {os cs : List (TypeRef σ)}

theorem ComposesApart.not_contains (hapart : g.ComposesApart root)
    (h : g.Meets root os cs (.definition t mode)) : cs.contains t = false := by
  rcases h.start_or_mentioned with ⟨-, rfl⟩ | ⟨extra, h, hmention, -⟩
  · rfl
  · exact hapart h hmention

/-- A type that is referenced where it is met again is never defined inside its own composition. -/
theorem CutsRepeats.not_contains (hcuts : g.CutsRepeats root) (hinline : root.mode.inline = true)
    (h : g.Meets root os cs (.definition t mode)) : cs.contains t = false := by
  rcases h.start_or_mentioned with ⟨-, rfl⟩ | ⟨extra, h, hmention, hnew⟩
  · rfl
  · refine Bool.eq_false_iff.mpr fun hcs ↦ Bool.false_ne_true (hnew.symm.trans ?_)
    have hcut : g.Cuts t mode extra := hcuts h hmention (.inr hcs)
    exact (hmention.cuts_iff (h.inline_eq.trans hinline)).mp hcut

theorem CutsRepeats.disjoint (hcuts : g.CutsRepeats root) (hinline : root.mode.inline = true)
    (hstart : root.mode.inlining = []) (h : g.Meets root os cs job) {u : TypeRef σ}
    (hu : os.contains u) : cs.contains u = false := by
  induction h with
  | root => rfl
  | @object _ cs t _ _ h _ _ ih =>
    -- the new object is of a type that is not composed around it, and the other way round below
    rw [List.contains_cons, Bool.or_eq_true] at hu
    rcases hu with hut | hu
    · rw [List.contains_congr hut]
      exact hcuts.not_contains hinline h
    · exact ih hu
  | @composition os _ t _ _ h _ _ ih =>
    rw [List.contains_cons, ih hu, Bool.or_false]
    refine Bool.eq_false_iff.mpr fun hut ↦ ?_
    have ht : os.contains t := by
      rw [← List.contains_congr hut]
      exact hu
    rw [h.not_contains_objects hstart] at ht
    exact Bool.false_ne_true ht
  | passed _ _ _ _ ih => exact ih hu

/-- **Exactly if no type is mentioned inside its own composition, every type that is met again is
referenced.** -/
theorem cutsRepeats_iff (hinline : root.mode.inline = true) (hstart : root.mode.inlining = []) :
    g.CutsRepeats root ↔ g.ComposesApart root := by
  constructor
  · intro hcuts os cs t mode extra h hmention
    refine Bool.eq_false_iff.mpr fun hcs ↦ ?_
    have hcut : g.Cuts t mode extra := hcuts h hmention (.inr hcs)
    -- only an object of the type lets the mention be cut
    have hos : os.contains t := by
      rw [← h.contains_inlining hstart]
      exact (hmention.cuts_iff (h.inline_eq.trans hinline)).mp hcut
    rw [hcuts.disjoint hinline hstart h hos] at hcs
    exact Bool.false_ne_true hcs
  · intro hapart os cs t mode extra h hmention hrepeat
    have hcs : ¬cs.contains t := by
      rw [hapart h hmention]
      exact Bool.false_ne_true
    have hos : os.contains t := hrepeat.resolve_right hcs
    have hinlining : mode.inlining.contains t := (h.contains_inlining hstart t).trans hos
    exact (hmention.cuts_iff (h.inline_eq.trans hinline)).mpr hinlining

end Apart

/-! ## The build -/

section Build

variable {root : Job σ} {among os cs : List (TypeRef σ)}

theorem ComposesApart.distinct (hapart : g.ComposesApart root) (h : g.Meets root os cs job) :
    TypeRef.Distinct cs := by
  induction h with
  | root => exact List.Pairwise.nil
  | object _ _ _ ih => exact ih
  | composition h _ _ ih => exact ih.cons (hapart.not_contains h)
  | passed _ _ _ _ ih => exact ih

/-- A chain of compositions is not longer than the list of the types that can be composed. -/
theorem ComposesApart.not_composesForever (hroot : g.Confined root among)
    (hapart : g.ComposesApart root) : ¬g.ComposesForever root := by
  rintro ⟨f, ⟨os, cs, h⟩, hchain⟩
  -- the `n`-th composition of the chain stands inside `n` others
  have hlength : ∀ n, ∃ os cs, g.Meets root os cs (f n) ∧ n ≤ cs.length := by
    intro n
    induction n with
    | zero => exact ⟨os, cs, h, Nat.zero_le _⟩
    | succ n ih =>
      obtain ⟨os, cs, h, hle⟩ := ih
      obtain ⟨cs', h', hlt⟩ := h.recomposes (hchain n)
      exact ⟨os, cs', h', by omega⟩
  obtain ⟨os, cs, h, hlt⟩ := hlength (among.length + 1)
  have hle : cs.length ≤ among.length := by
    refine (hapart.distinct h).length_le fun u hu ↦ ?_
    obtain ⟨t, ht, hreach⟩ := h.reachable_around (.inr hu)
    exact hroot.among t ht u hreach
  omega

/-- The job of an inline build. -/
abbrev inlineRoot (t : TypeRef σ) (require : Bool) : Job σ :=
  .definition t { inline := true, require }

/-- **Inline builds.** Let a host answer, let finitely many types be reachable from a type, and let
no chain of arguments and replacements among them be infinite. Then the inline build of the type
ends exactly if it does not compose for ever. And exactly if no type is mentioned inside its own
composition, the build ends and references every type that it meets again inside its own expansion.
-/
theorem inline_ends_iff (h : g.host.Finitary t) (require : Option Bool) :
    let root := inlineRoot t (require.getD g.settings.requireNonNulls)
    ((∃ budget, (g.build budget t true require).Ends) ↔ ¬g.ComposesForever root) ∧
      ((∃ budget, (g.build budget t true require).Ends) ∧ g.CutsRepeats root ↔
        g.ComposesApart root) := by
  intro root
  obtain ⟨hanswers, ⟨among, hamong⟩, hdescent⟩ := h
  have hbottoms : ∀ u, g.host.Reachable t u → g.host.Bottoms u := by
    intro u hu
    by_contra hacc
    obtain ⟨f, rfl, hchain⟩ := not_acc_iff_exists_descending_chain.mp hacc
    exact hdescent ⟨f, hu, hchain⟩
  have hroot : g.Confined root among := by
    refine ⟨rfl, fun v hv u hu ↦ ?_, fun v hv u hu ↦ ?_⟩
    · obtain rfl := List.mem_singleton.mp hv
      exact hamong u hu
    · obtain rfl := List.mem_singleton.mp hv
      exact hbottoms u hu
  have hgrounded : (∃ budget, (g.build budget t true require).Ends) ↔ g.Grounded root :=
    halts_iff_grounded (ends_plan hanswers)
  have hends : (∃ budget, (g.build budget t true require).Ends) ↔ ¬g.ComposesForever root :=
    hgrounded.trans ⟨not_composesForever, fun h ↦ grounded_of_met hroot h .root⟩
  refine ⟨hends, ?_⟩
  rw [cutsRepeats_iff rfl rfl, hends]
  exact and_iff_right_of_imp fun hapart ↦ hapart.not_composesForever hroot

end Build

end Generator

/-! ## Hosts without tags -/

namespace TypeGraph.Untagged

variable {graph : TypeGraph σ} {t : TypeRef σ}

theorem mem_generics_of_descends (h : graph.Untagged) {u : TypeRef σ}
    (hdescends : graph.host.Descends t u) : u ∈ t.generics := by
  cases hdescends with
  | argument hu => exact hu
  | override htags hu =>
    rw [h.tags_eq_nil htags] at hu
    exact nomatch hu

theorem finitary (h : graph.Untagged)
    (hfinite : ∃ among : List (TypeRef σ), ∀ u, graph.host.Reachable t u → among.contains u) :
    graph.host.Finitary t := by
  refine ⟨graph.answers, hfinite, ?_⟩
  rintro ⟨f, -, hchain⟩
  have hstep : ∀ n, sizeOf (f (n + 1)) < sizeOf (f n) := by
    intro n
    have hmem : sizeOf (f (n + 1)) < sizeOf (f n).generics :=
      List.sizeOf_lt_of_mem (h.mem_generics_of_descends (hchain n))
    have hgenerics : sizeOf (f n).generics < sizeOf (f n) := by
      cases f n
      simp only [TypeRef.mk.sizeOf_spec]
      omega
    omega
  have hsum : ∀ n, sizeOf (f n) + n ≤ sizeOf (f 0) := by
    intro n
    induction n with
    | zero => omega
    | succ n ih =>
      have hlt := hstep n
      omega
  have hle := hsum (sizeOf (f 0) + 1)
  omega

theorem not_composes (h : graph.Untagged) {settings : Settings σ} {job : Job σ} :
    ¬(Generator.mk graph.host settings).Composes job := by
  cases job with
  | embedded => exact Generator.not_composes_embedded
  | misplaced => exact fun h ↦ nomatch h
  | definition t mode =>
    rintro hcomposes
    obtain ⟨tags, c, htags, hc⟩ := hcomposes.tags
    rw [h.tags_eq_nil htags] at hc
    exact nomatch hc

theorem composesApart (h : graph.Untagged) {settings : Settings σ} {root : Job σ} :
    (Generator.mk graph.host settings).ComposesApart root := by
  have hnil : ∀ {os cs job}, (Generator.mk graph.host settings).Meets root os cs job →
      cs = [] := by
    intro os cs job hmet
    induction hmet with
    | root => rfl
    | object _ _ _ ih => exact ih
    | composition _ hcomposes => exact absurd hcomposes h.not_composes
    | passed _ _ _ _ ih => exact ih
  intro os cs t mode extra hmet _
  rw [hnil hmet]
  rfl

end TypeGraph.Untagged

/-- Shelves and books enclose each other; spelled out, each is cut inside itself. -/
theorem Generator.inline_ends_shelf : Shelves.graph.host.Finitary Shelves.shelf ∧
    (∃ budget, (Shelves.generator.build budget Shelves.shelf true none).Ends) ∧
      Shelves.generator.CutsRepeats (inlineRoot Shelves.shelf true) := by
  have hfinitary : Shelves.graph.host.Finitary Shelves.shelf :=
    Shelves.untagged.finitary ⟨_, fun u hu ↦
      TypeRef.contains_of_mem (Shelves.reachable_cases hu)⟩
  exact ⟨hfinitary, (inline_ends_iff (g := Shelves.generator) hfinitary none).2.mpr
    Shelves.untagged.composesApart⟩

/-! ## Types that are composed of themselves

The tags of a choice compose one type, and a part has a choice as a property. -/

namespace Choices

open Generator

/-- A type whose tags compose another type. -/
def choice : TypeRef Unit := { fullName := "app.A", simpleName := "A" }

/-- A type with a member. -/
def part : TypeRef Unit := { fullName := "app.B", simpleName := "B" }

/-- The tag that composes one type. -/
def oneOf (content : TypeRef Unit) : Tag Unit :=
  .mk "marks.OneOf" [("value", .array [.type content])] false

/-- The declarations, where the choice is between this one type. -/
def graph (content : TypeRef Unit) : TypeGraph Unit where
  declarations :=
    [{ type := choice, tags := [oneOf content] },
      { type := part, members := [{ name := "getA", declaredType := some choice }] }]

/-- The generator with the usual settings. -/
def generator (content : TypeRef Unit) : Generator Unit := { host := (graph content).host }

variable {content u : TypeRef Unit}

theorem returns_tags_choice : ((graph content).host.tags choice).Returns [oneOf content] := rfl

theorem simpleName_oneOf : (oneOf content).simpleName = "OneOf" := by
  rw [Tag.simpleName, show (oneOf content).name = "marks.OneOf" from rfl]
  decide

theorem definedBy_oneOf : definedBy [oneOf content] = .ok none := by
  rw [definedBy, Tag.find?, List.find?_singleton, simpleName_oneOf]
  rfl

theorem find?_oneOf : Composition.find? [oneOf content] = .ok (some ⟨.oneOf, [content]⟩) := by
  rw [Composition.find?, simpleName_oneOf]
  rfl

theorem leads_choice (h : (graph content).host.Leads choice u) : u = content := by
  cases h with
  | argument hu => exact absurd hu List.not_mem_nil
  | override htags hu =>
    rw [htags.unique returns_tags_choice, definedBy_oneOf] at hu
    exact nomatch hu
  | part htags hc hu =>
    rw [htags.unique returns_tags_choice, find?_oneOf] at hc
    obtain rfl := Option.some.inj (Except.ok.inj hc)
    exact List.mem_singleton.mp hu
  | member hms hm | memberOverride hms hm | memberPart hms hm =>
    obtain rfl := returns_pure.mp hms
    exact absurd hm List.not_mem_nil
  | custom hcs hc =>
    obtain rfl := returns_pure.mp hcs
    exact absurd hc List.not_mem_nil

theorem leads_part (h : (graph content).host.Leads part u) : u = choice := by
  have hmembers : ∀ m ∈ (graph content).declared (·.members) part, m.tags = [] := by
    intro m hm
    obtain rfl := List.mem_singleton.mp hm
    rfl
  rcases TypeGraph.leads_cases rfl hmembers h with hu | ⟨m, hm, hu⟩ | ⟨c, hc, -⟩
  · exact absurd hu List.not_mem_nil
  · obtain rfl := List.mem_singleton.mp hm
    exact (Option.some.inj hu).symm
  · exact absurd hc List.not_mem_nil

theorem reachable_cases (hcontent : content = choice ∨ content = part)
    (h : (graph content).host.Reachable choice u) : u = choice ∨ u = part := by
  induction h with
  | refl => exact .inl rfl
  | tail _ hleads ih =>
    rcases ih with rfl | rfl
    · rw [leads_choice hleads]
      exact hcontent
    · exact .inl (leads_part hleads)

theorem not_descends {t : TypeRef Unit} (ht : t = choice ∨ t = part) :
    ¬(graph content).host.Descends t u := by
  intro h
  rcases ht with rfl | rfl
  · cases h with
    | argument hu => exact List.not_mem_nil hu
    | override htags hu =>
      rw [htags.unique returns_tags_choice, definedBy_oneOf] at hu
      exact nomatch hu
  · cases h with
    | argument hu => exact List.not_mem_nil hu
    | override htags hu =>
      obtain rfl := returns_pure.mp htags
      exact nomatch hu

theorem finitary (hcontent : content = choice ∨ content = part) :
    (graph content).host.Finitary choice := by
  refine ⟨(graph content).answers, ⟨[choice, part], fun u hu ↦ ?_⟩, ?_⟩
  · rcases reachable_cases hcontent hu with rfl | rfl <;> rfl
  · rintro ⟨f, hreach, hchain⟩
    exact not_descends (reachable_cases hcontent hreach) (hchain 0)

variable {mode : Mode Unit}

theorem returns_plan_choice : ((generator content).plan (.definition choice mode)).Returns
    (.composition ⟨.oneOf, [content]⟩ mode) :=
  Generator.returns_definitionPlan_iff.mpr
    (.composed returns_tags_choice definedBy_oneOf rfl find?_oneOf)

theorem composes_choice : (generator content).Composes (.definition choice mode) :=
  ⟨_, _, returns_plan_choice⟩

theorem asks_choice :
    (generator content).Asks (.definition choice mode) (Plan.plain mode content) :=
  asks_of_jobs_eq_singleton returns_plan_choice rfl

theorem mentions_choice {extra : Option Entries} :
    (generator content).Mentions choice mode extra :=
  ⟨⟨_, returns_tags_choice, definedBy_oneOf⟩, rfl, rfl, (nomatch ·), (nomatch ·)⟩

theorem mentions_part {extra : Option Entries} : (generator content).Mentions part mode extra :=
  ⟨⟨[], rfl, rfl⟩, rfl, rfl, (nomatch ·), (nomatch ·)⟩

theorem returns_plan_part : ∃ head p inner,
    ((generator part).plan (inlineRoot part true)).Returns (.object head [p] inner) ∧
      p.type = .type choice ∧ p.composition = none := ⟨_, _, _, rfl, rfl, rfl⟩

theorem meets_choice : ∃ inner extra, (generator part).Meets (inlineRoot choice true)
    [part] [choice] (.embedded choice inner none extra) := by
  have hembedded : (generator part).Meets (inlineRoot choice true) [] [choice]
      (Plan.plain { inline := true, require := true } part) :=
    Meets.root.composition composes_choice asks_choice
  have hask : (generator part).Asks (Plan.plain { inline := true, require := true } part)
      (inlineRoot part true) :=
    asks_of_jobs_eq_singleton mentions_part.returns_plan rfl
  have hdefinition : (generator part).Meets (inlineRoot choice true) [] [choice]
      (inlineRoot part true) :=
    hembedded.passed not_spellsObject_embedded not_composes_embedded hask
  obtain ⟨head, p, inner, hplan, htype, hcomposition⟩ := returns_plan_part
  have hproperty : (generator part).Asks (inlineRoot part true) (Plan.ofProperty inner p) :=
    asks_of_jobs_eq_singleton hplan rfl
  have hmet := hdefinition.object ⟨_, _, _, hplan⟩ hproperty
  rw [Plan.ofProperty, htype, hcomposition] at hmet
  exact ⟨inner, _, hmet⟩

theorem recomposes_choice : (generator choice).Recomposes (inlineRoot choice true)
    (inlineRoot choice true) := by
  have hask : (generator choice).Asks (Plan.plain { inline := true, require := true } choice)
      (inlineRoot choice true) :=
    asks_of_jobs_eq_singleton mentions_choice.returns_plan rfl
  have hpath : Relation.TransGen (generator choice).Passes (inlineRoot choice true)
      (inlineRoot choice true) :=
    .tail (.single ⟨composes_choice.not_spellsObject, asks_choice⟩)
      ⟨not_spellsObject_embedded, hask⟩
  exact ⟨composes_choice, composes_choice, hpath⟩

/-- The types of a composition are not recorded. A choice between parts is composed again where its
part mentions it, and the part is cut in its place; the inline build of a choice between choices
does not end. In both cases finitely many types can be reached and nothing descends at all. -/
theorem not_cut_in_composition : (∀ content, (generator content).settings.BuiltinsOnly) ∧
    ((graph part).host.Finitary choice ∧
      ((generator part).build 9 choice true none).Returns
        ⟨[(.str "oneOf", .list [.map
          [(.str "type", .str "object"), (.str "additionalProperties", .bool false),
            (.str "properties", .map [(.str "a", .map [(.str "oneOf", .list
              [.map [(.str "$ref", .str "#/components/schemas/B")]])])])]])], [part]⟩ ∧
      ¬(generator part).CutsRepeats (inlineRoot choice true)) ∧
    (graph choice).host.Finitary choice ∧
      ∀ budget, ¬((generator choice).build budget choice true none).Ends := by
  refine ⟨fun _ ↦ Settings.builtinsOnly_of_nil rfl, ⟨finitary (.inr rfl), rfl, ?_⟩,
    finitary (.inl rfl), fun budget hends ↦ ?_⟩
  · rw [Generator.cutsRepeats_iff rfl rfl]
    intro hapart
    obtain ⟨inner, extra, hmet⟩ := meets_choice
    exact absurd (hapart hmet mentions_choice) (by decide)
  · have hgrounded : (generator choice).Grounded (inlineRoot choice true) :=
      (Generator.halts_iff_grounded (Generator.ends_plan (graph choice).answers)).mp
        ⟨budget, hends⟩
    exact Generator.not_composesForever hgrounded
      ⟨fun _ ↦ inlineRoot choice true, ⟨[], [], .root⟩, fun _ ↦ recomposes_choice⟩

end Choices

end Schemata
