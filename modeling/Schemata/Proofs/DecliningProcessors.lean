import Schemata.Proofs.MergedLast

/-!
# Processors that decline

The first processor that does not decline an embedded type decides how it is rendered, so one that
always declines can stand anywhere in the chain, or not stand there. A processor renders what it
takes by asking the whole generator again, and that generator has the longer chain too. The argument
is therefore about a step first, with any function for the jobs it meets: `processFirst` passes over
what declines, and definitions never ask a processor. An induction on the budget carries this to
every job, and from there it reaches compositions and documents, whose logs agree as well.

What a declared composition depends on is the second half: it is rendered exactly when every
processor of the chain declines, and otherwise the first one that does not decline decides
(`Generator.ComposesIfDeclined`).
-/

namespace Schemata

variable {σ : Type}

open Traced

/-! ## Declining -/

/-- The rule takes no embedded type, whatever the circumstances. -/
def ProcessorRule.AlwaysDeclines (rule : ProcessorRule σ) : Prop :=
  ∀ render t mode composition extra,
    Generator.process render rule t mode composition extra = pure none

theorem ProcessorRule.alwaysDeclines_declines : (declines : ProcessorRule σ).AlwaysDeclines :=
  fun _ _ _ _ _ ↦ rfl

theorem ProcessorRule.alwaysDeclines_unwrap_nil :
    (unwrap [] : ProcessorRule σ).AlwaysDeclines := by
  intro render t mode composition extra
  unfold Generator.process
  dsimp only
  split
  · rw [List.contains_nil, if_neg Bool.false_ne_true]
  · rfl

namespace Generator

variable {g : Generator σ} {render : Job σ → Traced (Node σ)} {t : TypeRef σ} {mode : Mode σ}
  {composition : Option (Composition σ)} {extra : Option Entries} {p : Processor σ}
  {ds pre post chain : List (Processor σ)}

theorem processFirst_append_of_declines (hds : ∀ p ∈ ds, p.rule.AlwaysDeclines)
    (rest : List (Processor σ)) :
    processFirst render t mode composition extra (ds ++ rest) =
      processFirst render t mode composition extra rest := by
  induction ds with
  | nil => rfl
  | cons p ds ih =>
    obtain ⟨hp, hds⟩ := List.forall_mem_cons.mp hds
    rw [List.cons_append, processFirst, hp, ← ih hds]
    rfl

/-- **What always declines is passed over**, wherever it stands. -/
theorem processFirst_insert_of_declines (hds : ∀ p ∈ ds, p.rule.AlwaysDeclines)
    (pre rest : List (Processor σ)) :
    processFirst render t mode composition extra (pre ++ (ds ++ rest)) =
      processFirst render t mode composition extra (pre ++ rest) := by
  induction pre with
  | nil => exact processFirst_append_of_declines hds rest
  | cons p pre ih => simp only [List.cons_append, processFirst, ih]

/-! ## Other processors -/

/-- The generator with other configured processors. -/
def withProcessors (g : Generator σ) (processors : List (Processor σ)) : Generator σ :=
  { g with settings := { g.settings with processors } }

@[simp] theorem host_withProcessors (g : Generator σ) (processors : List (Processor σ)) :
    (g.withProcessors processors).host = g.host := rfl

theorem chain_withProcessors (g : Generator σ) (before after : List (Processor σ)) :
    (g.withProcessors (before ++ after)).settings.chain =
      before ++ (g.withProcessors after).settings.chain :=
  List.append_assoc before after _

theorem define_withProcessors (processors : List (Processor σ)) (t : TypeRef σ) (mode : Mode σ) :
    (g.withProcessors processors).define render t mode = g.define render t mode := by
  have hfilter : (g.withProcessors processors).settings.filter = g.settings.filter := rfl
  have hextract : ∀ require, Property.extract g.host (g.withProcessors processors).settings t
      require = Property.extract g.host g.settings t require :=
    fun require ↦ Property.extract_congr_of_filter hfilter t require
  have henumeration := enumeration_congr_of_host (g.host_withProcessors processors) t
  unfold define object
  simp only [host_withProcessors, hextract, henumeration]
  rfl

/-! ## Inserting what declines -/

/-- One step is the same, whatever the jobs it meets come to. -/
theorem step_insert_of_declines (hds : ∀ p ∈ ds, p.rule.AlwaysDeclines) (job : Job σ) :
    (g.withProcessors (pre ++ (ds ++ post))).step render job =
      (g.withProcessors (pre ++ post)).step render job := by
  cases job with
  | definition t mode => rw [step, step, define_withProcessors, define_withProcessors]
  | embedded t mode composition extra =>
    unfold step embedStep
    simp only [chain_withProcessors, processFirst_insert_of_declines hds]
    rfl
  | misplaced => rfl

/-- **Every job is the same.** The jobs that a processor asks for are rendered with the longer
chain, so the two chains are compared under one budget at a time. -/
theorem render_insert_of_declines (hds : ∀ p ∈ ds, p.rule.AlwaysDeclines) (budget : Nat) :
    (g.withProcessors (pre ++ (ds ++ post))).render budget =
      (g.withProcessors (pre ++ post)).render budget := by
  induction budget with
  | zero => rfl
  | succ budget ih =>
    funext job
    rw [Generator.render, Generator.render, ih, step_insert_of_declines hds]

theorem build_insert_of_declines (hds : ∀ p ∈ ds, p.rule.AlwaysDeclines) (budget : Nat)
    (t : TypeRef σ) (inline : Bool) (require : Option Bool) :
    (g.withProcessors (pre ++ (ds ++ post))).build budget t inline require =
      (g.withProcessors (pre ++ post)).build budget t inline require := by
  unfold build
  rw [render_insert_of_declines hds]
  rfl

/-- Every call gives the same node or document or failure, and writes the same records. -/
structure SameResults (g g' : Generator σ) : Prop where
  build : ∀ budget t inline require,
    g'.build budget t inline require = g.build budget t inline require
  embedded : ∀ budget t mode composition extra,
    g'.render budget (.embedded t mode composition extra) =
      g.render budget (.embedded t mode composition extra)
  composition : ∀ budget c mode,
    compose (g'.render budget) c mode = compose (g.render budget) c mode
  components : ∀ budget inline roots,
    Components.build g' budget inline roots = Components.build g budget inline roots
  freestanding : ∀ budget root, freestandingSchema g' budget root = freestandingSchema g budget root

theorem components_insert_of_declines (hds : ∀ p ∈ ds, p.rule.AlwaysDeclines) (budget : Nat) :
    Components.build (g.withProcessors (pre ++ (ds ++ post))) budget =
      Components.build (g.withProcessors (pre ++ post)) budget := by
  funext inline roots
  unfold Components.build
  simp only [build_insert_of_declines hds]

theorem sameResults_insert_of_declines (hds : ∀ p ∈ ds, p.rule.AlwaysDeclines) :
    (g.withProcessors (pre ++ post)).SameResults (g.withProcessors (pre ++ (ds ++ post))) where
  build := build_insert_of_declines hds
  embedded budget t mode composition extra := by rw [render_insert_of_declines hds]
  composition budget c mode := by rw [render_insert_of_declines hds]
  components budget inline roots := by rw [components_insert_of_declines hds]
  freestanding budget root := by
    -- another prefix of references is a setting that no processor looks at
    have hbase : ∀ processors, (g.withProcessors processors).freestanding =
        g.freestanding.withProcessors processors := fun _ ↦ rfl
    unfold freestandingSchema
    rw [hbase, hbase, build_insert_of_declines hds, components_insert_of_declines hds]

/-! ## Declared compositions -/

/-- The processor leaves this embedded type to the next one. -/
def Declines (render : Job σ → Traced (Node σ)) (t : TypeRef σ) (mode : Mode σ)
    (composition : Option (Composition σ)) (extra : Option Entries) (p : Processor σ) : Prop :=
  (process render p.rule t mode composition extra).Returns none

theorem returns_processFirst_none (h : ∀ p ∈ chain, Declines render t mode composition extra p) :
    (processFirst render t mode composition extra chain).Returns none := by
  induction chain with
  | nil => exact returns_pure.mpr rfl
  | cons p chain ih =>
    obtain ⟨hp, hchain⟩ := List.forall_mem_cons.mp h
    exact returns_bind.mpr ⟨none, hp, ih hchain⟩

/-- The first processor that does not decline decides. -/
theorem outcome_processFirst_of_not_declines
    (hpre : ∀ q ∈ pre, Declines render t mode composition extra q)
    (hp : ¬Declines render t mode composition extra p) (post : List (Processor σ)) :
    (processFirst render t mode composition extra (pre ++ p :: post)).outcome =
      (process render p.rule t mode composition extra).outcome := by
  induction pre with
  | nil =>
    rw [List.nil_append, processFirst, outcome_bind]
    cases hprocess : (process render p.rule t mode composition extra).outcome with
    | error e => rfl
    | ok taken =>
      cases taken with
      | none => exact absurd hprocess hp
      | some node => rfl
  | cons q pre ih =>
    obtain ⟨hq, hpre⟩ := List.forall_mem_cons.mp hpre
    rw [List.cons_append, processFirst, outcome_bind,
      show (process render q.rule t mode composition extra).outcome = .ok none from hq]
    exact ih hpre

/-- What stands in the place of an embedded type, before its metadata are merged: what a processor
makes of it, or the composition that is declared. -/
theorem outcome_embedStep_of_composition (ht : (g.host.override t).Returns none) (mode : Mode σ)
    (c : Composition σ) (extra : Option Entries) :
    (g.embedStep render t mode (some c) extra).outcome =
      Node.merged (extra.getD []) <$>
        ((processFirst render t mode (some c) extra g.settings.chain).outcome >>= fun taken ↦
          match taken with
          | some node => .ok node
          | none => (compose render c mode).outcome) := by
  obtain ⟨tags, htags, hoverride⟩ := Host.returns_override_iff.mp ht
  unfold embedStep
  rw [outcome_bind, show (g.host.tags t).outcome = .ok tags from htags]
  change (ofExcept (definedBy tags) >>= _ : Traced (Node σ)).outcome = _
  rw [hoverride]
  change (processFirst render t mode (some c) extra g.settings.chain >>= _ : Traced _).outcome = _
  rw [outcome_bind, map_bind]
  cases (processFirst render t mode (some c) extra g.settings.chain).outcome with
  | error e => rfl
  | ok taken =>
    cases taken with
    | some node => rfl
    | none =>
      change (compose render c mode >>= fun node ↦ _).outcome = _
      rw [outcome_bind]
      change _ = Node.merged (extra.getD []) <$> (compose render c mode).outcome
      cases (compose render c mode).outcome <;> rfl

/-- In the place of a type whose property declares a composition, the composition is rendered
exactly when every processor declines. -/
structure ComposesIfDeclined (g : Generator σ) (budget : Nat) (t : TypeRef σ) (mode : Mode σ)
    (c : Composition σ) (extra : Option Entries) : Prop where
  /-- If all decline, the composition is rendered. -/
  declined : (∀ p ∈ g.settings.chain, Declines (g.render budget) t mode (some c) extra p) →
    (g.render (budget + 1) (.embedded t mode (some c) extra)).outcome =
      Node.merged (extra.getD []) <$> (compose (g.render budget) c mode).outcome
  /-- Otherwise it comes to what the first processor that does not decline makes of the type. -/
  taken : ∀ pre p post, g.settings.chain = pre ++ p :: post →
    (∀ q ∈ pre, Declines (g.render budget) t mode (some c) extra q) →
    ¬Declines (g.render budget) t mode (some c) extra p →
    ∃ made : Except Failure (Node σ),
      (process (g.render budget) p.rule t mode (some c) extra).outcome = some <$> made ∧
      (g.render (budget + 1) (.embedded t mode (some c) extra)).outcome =
        Node.merged (extra.getD []) <$> made

theorem composesIfDeclined (ht : (g.host.override t).Returns none) (budget : Nat) (mode : Mode σ)
    (c : Composition σ) (extra : Option Entries) :
    g.ComposesIfDeclined budget t mode c extra where
  declined hchain := by
    rw [Generator.render, step, outcome_embedStep_of_composition ht,
      show (processFirst _ t mode _ extra _).outcome = .ok none from
        returns_processFirst_none hchain]
    rfl
  taken pre p post hchain hpre hp := by
    have hfirst := outcome_processFirst_of_not_declines hpre hp post
    rw [Generator.render, step, outcome_embedStep_of_composition ht, hchain, hfirst]
    cases hprocess : (process (g.render budget) p.rule t mode (some c) extra).outcome with
    | error e => exact ⟨.error e, rfl, rfl⟩
    | ok taken =>
      cases taken with
      | none => exact absurd hprocess hp
      | some node => exact ⟨.ok node, rfl, rfl⟩

/-- **A processor that declines is neutral.** For every host and all settings, any number of
processors that always decline, inserted anywhere into the configured chain, an empty one included,
change no result of any call, no failure and no record. Which of the other processors decline
decides about declared compositions: one is rendered, in the place of a type that no override
replaces, exactly when all of them do. -/
theorem declining_neutral (g : Generator σ) :
    (∀ pre ds post, (∀ p ∈ ds, p.rule.AlwaysDeclines) →
      (g.withProcessors (pre ++ post)).SameResults (g.withProcessors (pre ++ (ds ++ post)))) ∧
    ∀ t, (g.host.override t).Returns none →
      ∀ budget mode c extra, g.ComposesIfDeclined budget t mode c extra :=
  ⟨fun _ _ _ hds ↦ sameResults_insert_of_declines hds,
    fun _ ht budget mode c extra ↦ composesIfDeclined ht budget mode c extra⟩

end Generator

/-! ## Pages

A processor renders pages as arrays, and two others decline: one does nothing at all, one would
unwrap types of no name.
-/

namespace Pages

/-- A page of numbers. -/
def page : TypeRef Unit :=
  { fullName := "library.Page", simpleName := "Page", generics := [Shelves.number] }

/-- The processor that renders pages. -/
def pages : Processor Unit := ⟨"PageProcessor", .itemsOf (.simpleName "Page")⟩

/-- The processors that decline. -/
def decliners : List (Processor Unit) := [⟨"PassThrough", .declines⟩, .optionalUnwrap []]

/-- A generator with these processors. -/
def generator (processors : List (Processor Unit)) : Generator Unit :=
  { host := Shelves.graph.host, settings := { processors } }

/-- A number, or what stands in its place. -/
def numbers : Composition Unit := ⟨.oneOf, [Shelves.number]⟩

theorem alwaysDeclines {p : Processor Unit} (hp : p ∈ decliners) : p.rule.AlwaysDeclines := by
  rcases List.mem_cons.mp hp with rfl | hp
  · exact ProcessorRule.alwaysDeclines_declines
  · obtain rfl := List.mem_singleton.mp hp
    exact ProcessorRule.alwaysDeclines_unwrap_nil

/-- A chain of decliners is as good as none. In the place of a page a declared composition is
rendered if pages are left alone, and a page if they are not. -/
theorem declining_neutral_pages :
    (∀ p ∈ decliners, p.rule.AlwaysDeclines) ∧ (Shelves.graph.host.override page).Returns none ∧
    (generator []).SameResults (generator decliners) ∧
    (generator [pages]).SameResults (generator (decliners ++ [pages])) ∧
    ((generator decliners).render 2 (.embedded page Labels.referring (some numbers) none)).Returns
      ⟨[(.str "oneOf", .list [.map [(.str "type", .str "integer")]])], []⟩ ∧
    ((generator [pages]).render 2 (.embedded page Labels.referring (some numbers) none)).Returns
      ⟨[(.str "type", .str "array"), (.str "items", .map [(.str "type", .str "integer")])], []⟩ := by
  have hpage : (Shelves.graph.host.override page).Returns none := rfl
  obtain ⟨hneutral, -⟩ := Generator.declining_neutral (generator [])
  refine ⟨fun _ ↦ alwaysDeclines, hpage, hneutral [] decliners [] fun _ ↦ alwaysDeclines,
    hneutral [] decliners [pages] fun _ ↦ alwaysDeclines, ?_, ?_⟩
  · obtain ⟨-, hall⟩ := Generator.declining_neutral (generator decliners)
    have hcomposes := hall page hpage 1 Labels.referring numbers none
    refine (hcomposes.declined fun p hp ↦ ?_).trans rfl
    rcases List.mem_append.mp hp with hp | hp
    · rw [Generator.Declines, alwaysDeclines hp]
      exact returns_pure.mpr rfl
    · -- the built-in processors decline every declared composition
      rcases List.mem_cons.mp hp with rfl | hp
      · rfl
      · obtain rfl := List.mem_singleton.mp hp
        rfl
  · obtain ⟨-, hall⟩ := Generator.declining_neutral (generator [pages])
    have hcomposes := hall page hpage 1 Labels.referring numbers none
    obtain ⟨made, hmade, hrender⟩ := hcomposes.taken [] pages Processor.builtins rfl
      (fun _ hq ↦ absurd hq List.not_mem_nil) fun h ↦ nomatch h
    cases made with
    | error e => exact nomatch hmade
    | ok node =>
      obtain rfl := Option.some.inj (Except.ok.inj hmade)
      exact hrender

end Pages

end Schemata
