import Schemata.Proofs.ProperHints
import Schemata.Proofs.RecordFields
import Schemata.Proofs.SameTypes

/-!
# Proper tables

Describing a class asks for hints that nobody wrote in this form: names are looked up, applied hints
are spelled out, the fields of a model are worked out when it is declared. All of them come from the
table of classes. If the hints and the metadata in a table are proper, and what its runtime knows besides
(`ClassTable.Proper`), then so is whatever is looked up in it (`ClassTable.Proper.resolve`,
`ClassTable.Proper.hintsOf`), and declaring another class leaves the table proper
(`ClassTable.proper_declare`).
-/

namespace Schemata

/-- The arguments of a class that a model makes of them are proper; any other class is. -/
def Hint.ProperModel (a : Hint) : Prop := ∀ c args, a = .model c args → ∀ x ∈ args, x.Proper

/-- The hints and data of an attribute are proper. -/
def Attribute.Proper : Attribute → Prop
  | .accessor a => (∀ h ∈ a.result, h.Proper) ∧ ∀ d ∈ a.attached, d.Proper
  | .value d => d.Proper
  | .nested c => c.NoUnion
  | .other => True

/-- The hints and data of a class are proper, and the class can be told from unions. -/
structure DeclaredClass.Proper (d : DeclaredClass) : Prop where
  noUnion : d.name.NoUnion
  takes : d.name.TakesArguments
  ancestry : ∀ a ∈ d.ancestry, a.ProperModel
  hints : ∀ e ∈ d.hints, e.2.Proper
  body : ∀ e ∈ d.body, e.2.Proper
  model : ∀ fields, d.model = some fields → ∀ e ∈ fields, e.2.Proper
  attached : ∀ x ∈ d.attached, x.Proper

/-- The hints and data of a declaration are proper, and the class can be told from unions. -/
structure ClassSource.Proper (source : ClassSource) : Prop where
  noUnion : source.name.NoUnion
  takes : source.name.TakesArguments
  bases : ∀ b ∈ source.bases, b.Proper
  fields : ∀ f ∈ source.fields, f.hint.Proper ∧ ∀ d ∈ f.default, d.Proper
  values : ∀ v ∈ source.values, v.2.Proper
  methods : ∀ m ∈ source.methods, (∀ h ∈ m.result, h.Proper) ∧ ∀ d ∈ m.attached, d.Proper
  nested : ∀ n ∈ source.nested,
    (⟨source.name.moduleName, source.name.path ++ "." ++ n⟩ : ClassName).NoUnion
  attached : ∀ x ∈ source.attached, x.Proper

namespace Hint

theorem properModel_named (c : ClassName) : ProperModel (.named c) := nofun

theorem Proper.properModel {h : Hint} (hh : h.Proper) : h.ProperModel := by
  rintro c args rfl
  cases hh with
  | model _ _ hargs => exact hargs

theorem Proper.classBehind {h cls : Hint} (hh : h.Proper) (hcls : h.classBehind = some cls) :
    cls.ProperModel := by
  cases h with
  | model c args => exact Option.some.inj hcls ▸ hh.properModel
  | union bar members =>
    cases bar with
    | false => exact nomatch hcls
    | true => exact Option.some.inj hcls ▸ properModel_named _
  | named | bare | applied => exact Option.some.inj hcls ▸ properModel_named _
  | _ => exact nomatch hcls

end Hint

/-- What names and expressions stand for that only the runtime knows is proper. -/
structure Runtime.Proper (runtime : Runtime) : Prop where
  imported : ∀ s h, runtime.imported? s = some h → h.Proper
  core : ∀ s h, runtime.core? s = some h → h.Proper
  refused : ∀ operator operands e h, (∀ k ∈ operands, k.Proper) →
    runtime.refused operator operands e = .ok h → h.Proper
  other : ∀ source parts h, (∀ k ∈ parts, k.Proper) → runtime.other source parts = .ok h → h.Proper

theorem Hint.proper_ofCoreName? {s : String} {h : Hint} (e : Hint.ofCoreName? s = some h) :
    h.Proper := by
  simp only [Hint.ofCoreName?] at e
  split_ifs at e with _ hclass hfunction
  · exact Option.some.inj e ▸ .named (ClassName.noUnion_core s)
  · exact Option.some.inj e ▸ .special _ _
  · split at e
    · exact Option.some.inj e ▸ .named (ClassName.noUnion_core _)
    · exact Option.some.inj e ▸ .named (ClassName.noUnion_core _)
    · exact Option.some.inj e ▸ .ellipsis
    · exact Option.some.inj e ▸ .special _ _
    · exact nomatch e

theorem Runtime.proper_default : Runtime.Proper {} where
  imported _ _ e := absurd e.symm (Option.some_ne_none _)
  core _ _ e := Hint.proper_ofCoreName? e
  refused _ _ _ _ _ e := nomatch e
  other _ _ _ _ e := Except.ok.inj e ▸ .special _ _

namespace ClassTable

/-- The hints and data of a table are proper. -/
structure Proper (table : ClassTable) : Prop where
  parameters : ∀ e ∈ table.parameters, e.2.Proper
  classes : ∀ d ∈ table.classes, d.Proper
  runtime : table.runtime.Proper

variable {table table' : ClassTable}

theorem Proper.of_find? (h : table.Proper) {c : ClassName} {d : DeclaredClass}
    (hd : table.find? c = some d) : d.Proper :=
  h.classes d (List.mem_of_find?_eq_some hd)

/-! ## Names in a proper table -/

section Lookup

variable {scope : Option ClassName} {cls k r : Hint} {args : List Hint} {s : String}

theorem Proper.attribute? (h : table.Proper) {a : Attribute}
    (ha : table.attribute? cls s = some a) : a.Proper := by
  obtain ⟨d, hd, ha⟩ := List.exists_of_findSome?_eq_some ha
  exact (h.classes d (mem_classes_of_mem_declaredAncestry hd)).body _ (Keyed.mem_of_get? ha)

theorem proper_attributeHint {a : Attribute} (ha : a.Proper) : (attributeHint a).Proper := by
  unfold attributeHint
  split
  · exact .named ha
  · cases ha with
    | hint hh => exact hh
  all_goals constructor

theorem Proper.nameHint (h : table.Proper) (e : table.nameHint scope s = .ok k) : k.Proper := by
  unfold ClassTable.nameHint at e
  dsimp only at e
  split at e
  next hfound =>
    obtain rfl := Except.ok.inj e
    obtain ⟨d, hd⟩ := Option.isSome_iff_exists.mp hfound
    exact .named (name_of_find? hd ▸ (h.of_find? hd).noUnion)
  · split at e
    next p hp =>
      obtain rfl := Except.ok.inj e
      rcases Option.or_eq_some_iff.mp hp with hp | ⟨-, hp⟩
      · exact h.parameters _ (Keyed.mem_of_get? hp)
      · exact h.runtime.imported s p hp
    · split at e
      next a ha =>
        obtain rfl := Except.ok.inj e
        obtain ⟨c, -, ha⟩ := Option.bind_eq_some_iff.mp ha
        obtain ⟨d, hd, ha⟩ := Option.bind_eq_some_iff.mp ha
        exact proper_attributeHint ((h.of_find? hd).body _ (Keyed.mem_of_get? ha))
      · split at e
        next k' hcore =>
          obtain rfl := Except.ok.inj e
          exact h.runtime.core s k' hcore
        · exact nomatch e

theorem Proper.partHint (h : table.Proper) (e : table.partHint r s = .ok k) : k.Proper := by
  unfold ClassTable.partHint at e
  split at e
  · split at e
    next ha =>
      obtain rfl := Except.ok.inj e
      exact proper_attributeHint (h.attribute? ha)
    · split at e
      · exact nomatch e
      · exact nomatch e
  · exact nomatch e

theorem takesArguments_of_isApplicable {c : ClassName} (h : LibraryClass.isApplicable c = true) :
    c.TakesArguments := by
  have hall : ∀ l ∈ LibraryClass.all, l.isContainer = true → l.shape ≠ .primitive := by decide
  have hcore : ∀ path ∈ coreContainers, ClassName.TakesArguments ⟨ClassName.coreModule, path⟩ := by
    decide
  unfold LibraryClass.isApplicable at h
  rcases Bool.or_eq_true_iff.mp h with h | h
  · rcases Bool.or_eq_true_iff.mp h with h | h
    · unfold ClassName.TakesArguments
      cases hl : LibraryClass.get? c with
      | none => exact nofun
      | some l =>
        rw [hl] at h
        exact fun hshape ↦ hall l (List.mem_of_find?_eq_some hl) h (Option.some.inj hshape)
    · rw [of_decide_eq_true h]
      decide
  · obtain ⟨hmodule, hpath⟩ := Bool.and_eq_true_iff.mp h
    have hc : c = ⟨ClassName.coreModule, c.path⟩ := by rw [← eq_of_beq hmodule]
    rw [hc]
    exact hcore c.path (List.contains_iff_mem.mp hpath)

theorem Proper.takesArguments (h : table.Proper) {c : ClassName}
    (e : table.applyClass c args = .ok k) : c.TakesArguments := by
  unfold applyClass at e
  dsimp only at e
  split at e
  next hgeneric =>
    rw [hgeneric]
    decide
  · split at e
    next d hd => exact name_of_find? hd ▸ (h.of_find? hd).takes
    · split at e
      next hcontainer => exact takesArguments_of_isApplicable hcontainer
      · exact nomatch e

theorem Proper.apply (h : table.Proper) (hk : k.Proper) (hargs : ∀ a ∈ args, a.Proper)
    (e : table.apply k args = .ok r) : r.Proper := by
  have harguments : ∀ a ∈ args.map Hint.asArgument, a.Proper :=
    List.forall_mem_map.mpr fun a ha ↦ (hargs a ha).asArgument
  unfold ClassTable.apply at e
  split at e
  next c =>
    have takes := h.takesArguments e
    cases hk with
    | named hc =>
      rcases applyClass_cases e with (rfl | rfl) | ⟨rfl, -⟩ | ⟨rfl, -⟩
      · exact .applied hc takes hargs
      · exact .named hc
      · exact .applied hc takes harguments
      · exact .model hc takes hargs
  next c =>
    split at e
    · exact nomatch e
    · obtain rfl := Except.ok.inj e
      cases hk with
      | bare hc takes => exact .applied hc takes harguments
  · split at e
    · exact nomatch e
    · obtain rfl := Except.ok.inj e
      exact hk.substitute (Hint.proper_bindingsOf hargs)

theorem Proper.entryHint (h : table.Proper) {c : ClassName} (e : table.entryHint c args = .ok r) :
    r.Proper := by
  unfold ClassTable.entryHint at e
  split at e
  · split at e
    · exact h.partHint e
    · exact nomatch e
  · exact nomatch e

theorem Proper.applied (h : table.Proper) (hk : k.Proper) (hargs : ∀ a ∈ args, a.Proper)
    (e : table.applied k args = .ok r) : r.Proper := by
  unfold ClassTable.applied at e
  split at e
  · exact h.entryHint e
  next happly => exact h.apply hk hargs (Except.ok.inj e ▸ happly)
  · exact nomatch e

theorem proper_alternatives (h : k.Proper) {k' : Hint} (h' : k'.Proper)
    (e : table.alternatives k k' = .ok r) : r.Proper := by
  unfold ClassTable.alternatives at e
  split at e
  · exact Except.ok.inj e ▸ h.either h'
  · exact nomatch e

/-- What an operator gives for proper operands is proper, if the table is the one to say. -/
theorem Proper.operated (h : table.Proper) {operator : String} {operands : List Hint}
    (hoperands : ∀ k ∈ operands, k.Proper) {found : Except LookupFailure Hint}
    (hfound : ∀ k, found = .ok k → k.Proper) (e : table.operated operator operands found = .ok r) :
    r.Proper := by
  cases found with
  | ok k => exact Except.ok.inj e ▸ hfound k rfl
  | error e' => exact h.runtime.refused operator operands e' r hoperands e

theorem Proper.partOf (h : table.Proper) (hr : r.Proper) (e : table.partOf r s = .ok k) :
    k.Proper :=
  h.operated (List.forall_mem_singleton.mpr hr) (fun _ hk ↦ h.partHint hk) e

theorem Proper.appliedTo (h : table.Proper) (hk : k.Proper) (hargs : ∀ a ∈ args, a.Proper)
    (e : table.appliedTo k args = .ok r) : r.Proper :=
  h.operated (List.forall_mem_cons.mpr ⟨hk, hargs⟩) (fun _ hr ↦ h.applied hk hargs hr) e

theorem Proper.barred (h : table.Proper) (hk : k.Proper) {k' : Hint} (hk' : k'.Proper)
    (e : table.barred k k' = .ok r) : r.Proper :=
  h.operated (List.forall_mem_cons.mpr ⟨hk, List.forall_mem_singleton.mpr hk'⟩)
    (fun _ hr ↦ proper_alternatives hk hk' hr) e

mutual

theorem Proper.evaluate (h : table.Proper) : ∀ {x : NameExpr} {k : Hint},
    table.evaluate scope x = .ok k → k.Proper
  | .name s, k, e => h.nameHint (by rwa [ClassTable.evaluate] at e)
  | .part owner s, k, e => by
    rw [ClassTable.evaluate] at e
    obtain ⟨r, hr, e⟩ := bind_eq_ok_iff.mp e
    exact h.partOf (Proper.evaluate h hr) e
  | .applied f given, k, e => by
    rcases em (∃ items, given = [.several items]) with ⟨items, rfl⟩ | hother
    · rw [ClassTable.evaluate] at e
      obtain ⟨r, hr, e⟩ := bind_eq_ok_iff.mp e
      obtain ⟨args, hargs, e⟩ := bind_eq_ok_iff.mp e
      exact h.appliedTo (Proper.evaluate h hr) (Proper.evaluateAll h hargs) e
    · rw [ClassTable.evaluate] at e
      · obtain ⟨r, hr, e⟩ := bind_eq_ok_iff.mp e
        obtain ⟨args, hargs, e⟩ := bind_eq_ok_iff.mp e
        exact h.appliedTo (Proper.evaluate h hr) (Proper.evaluateAll h hargs) e
      · exact fun items hitems ↦ hother ⟨items, hitems⟩
  | .either a b, k, e => by
    rw [ClassTable.evaluate] at e
    obtain ⟨r, hr, e⟩ := bind_eq_ok_iff.mp e
    obtain ⟨r', hr', e⟩ := bind_eq_ok_iff.mp e
    exact h.barred (Proper.evaluate h hr) (Proper.evaluate h hr') e
  | .null, k, e => by
    rw [ClassTable.evaluate] at e
    exact Except.ok.inj e ▸ .null
  | .ellipsis, k, e => by
    rw [ClassTable.evaluate] at e
    exact Except.ok.inj e ▸ .ellipsis
  | .text s, k, e => by
    rw [ClassTable.evaluate] at e
    exact Except.ok.inj e ▸ .text s
  | .several _, k, e => by
    rw [ClassTable.evaluate] at e
    exact nomatch e
  | .other source parts, k, e => by
    rw [ClassTable.evaluate] at e
    obtain ⟨hints, hhints, e⟩ := bind_eq_ok_iff.mp e
    exact h.runtime.other source hints k (Proper.evaluateAll h hhints) e

theorem Proper.evaluateAll (h : table.Proper) : ∀ {xs : List NameExpr} {ks : List Hint},
    table.evaluateAll scope xs = .ok ks → ∀ k ∈ ks, k.Proper
  | [], ks, e => by
    rw [ClassTable.evaluateAll] at e
    rw [← Except.ok.inj e]
    exact List.forall_mem_nil _
  | x :: xs, ks, e => by
    rw [ClassTable.evaluateAll] at e
    obtain ⟨k, hk, e⟩ := bind_eq_ok_iff.mp e
    obtain ⟨ks, hks, e⟩ := bind_eq_ok_iff.mp e
    obtain rfl := Except.ok.inj e
    exact List.forall_mem_cons.mpr ⟨Proper.evaluate h hk, Proper.evaluateAll h hks⟩

end

theorem Proper.lookup (h : table.Proper) {depth : Nat} (e : table.lookup scope depth s = .ok k) :
    k.Proper := by
  induction depth generalizing s k with
  | zero => exact Except.ok.inj e ▸ .forward s
  | succ depth ih =>
    rw [ClassTable.lookup] at e
    split at e
    · cases e
    · obtain ⟨r, hr, e⟩ := bind_eq_ok_iff.mp e
      split at e
      · exact Except.ok.inj e ▸ .named (ClassName.noUnion_core _)
      · exact (h.evaluate hr).replaceNames (fun _ _ hk ↦ ih hk) e

theorem Proper.resolve (h : table.Proper) (hk : k.Proper) (e : table.resolve scope k = .ok r) :
    r.Proper := by
  unfold ClassTable.resolve at e
  split at e
  · exact Except.ok.inj e ▸ .named (ClassName.noUnion_core _)
  · exact hk.replaceNames (fun _ _ hs ↦ h.lookup hs) e

end Lookup

/-! ## The hints of a class -/

section Hints

variable {cls k : Hint}

theorem Proper.inheritedHints (h : table.Proper) {hints : List (String × Hint)}
    (e : table.inheritedHints cls = .ok hints) : ∀ e ∈ hints, e.2.Proper := by
  obtain ⟨layers, hlayers, e⟩ := bind_eq_ok_iff.mp e
  obtain rfl := Except.ok.inj e
  have hproper : ∀ layer ∈ layers, ∀ e ∈ layer, e.2.Proper := by
    intro layer hlayer e he
    obtain ⟨d, hd, hresolved⟩ := exists_of_mem_right (mapM_eq_ok_iff.mp hlayers) hlayer
    obtain ⟨f, hf, -, hresolve⟩ := exists_of_mem_right (forall₂_of_resolvedHints hresolved) he
    have hdeclared := h.classes d (mem_classes_of_mem_declaredAncestry (List.mem_reverse.mp hd))
    exact h.resolve (hdeclared.hints f hf) hresolve
  intro e he
  obtain ⟨layer, hlayer, he⟩ := Keyed.exists_of_mem_foldl_putAll he
  exact hproper layer hlayer e he

theorem Proper.hintsOf (h : table.Proper) {hints : List (String × Hint)}
    (e : (table.hintsOf cls).Returns hints) : ∀ e ∈ hints, e.2.Proper := by
  rcases returns_hintsOf.mp e with e | ⟨-, rfl⟩
  · exact h.inheritedHints e
  · unfold writtenHints
    split
    next c =>
      cases hd : table.find? c with
      | none => exact List.forall_mem_nil _
      | some d => exact (h.of_find? hd).hints
    · exact List.forall_mem_nil _

theorem Proper.resultOf (h : table.Proper) {a : Accessor} (ha : ∀ k ∈ a.result, k.Proper)
    {shown : String} (e : (table.resultOf shown a).Returns (some k)) : k.Proper := by
  unfold ClassTable.resultOf at e
  split at e
  · exact nomatch Traced.returns_pure.mp e
  next written hwritten =>
    have hproper := ha written hwritten
    obtain ⟨found, hfound, e⟩ := Traced.returns_bind.mp e
    have hfound : found.Proper := by
      rcases returns_orWritten.mp hfound with hfound | ⟨-, rfl⟩
      · exact h.resolve hproper hfound
      · exact hproper
    split at e
    · exact nomatch Traced.returns_pure.mp e
    · have e := Traced.returns_pure.mp e
      split at e
      · exact nomatch e
      · exact Option.some.inj e ▸ hfound
    · exact Option.some.inj (Traced.returns_pure.mp e) ▸ hfound

theorem Proper.modelHints (h : table.Proper) (hcls : cls.ProperModel) :
    ∀ e ∈ table.modelHints cls, e.2.Proper := by
  have hfields (c : ClassName) : ∀ e ∈ table.modelFields c, e.2.Proper := by
    intro e he
    obtain ⟨d, hd, fields, hmodel, he⟩ := exists_of_mem_modelFields he
    exact (h.classes d hd).model fields hmodel e he
  unfold ClassTable.modelHints
  split
  · exact hfields _
  · refine List.forall_mem_map.mpr fun e he ↦ ?_
    exact (hfields _ e he).substitute (Hint.proper_bindingsOf (hcls _ _ rfl))
  · exact List.forall_mem_nil _

theorem Proper.modelLayout (h : table.Proper) {source : ClassSource} {ancestors : List Hint}
    (hancestors : ∀ a ∈ ancestors, a.ProperModel) (hhints : ∀ e ∈ source.hints, e.2.Proper) :
    ∀ e ∈ table.modelLayout source ancestors, e.2.Proper := by
  intro e he
  unfold ClassTable.modelLayout at he
  extract_lets inherited found kept hiddenNames at he
  have hkept : ∀ e ∈ kept, e.2.Proper := by
    intro e he
    obtain ⟨⟨name, written⟩, hwritten, he⟩ := List.mem_filterMap.mp he
    dsimp only at he
    split at he
    · exact nomatch he
    · obtain rfl := Option.some.inj he
      have hproper := hhints _ hwritten
      dsimp only [found]
      split
      next hresolve => exact h.resolve hproper hresolve
      · exact hproper.asArgument
  rcases Keyed.mem_putAll he with he | he
  · obtain ⟨a, ha, he⟩ := Keyed.exists_of_mem_foldl_putAll (List.mem_of_mem_filter he)
    exact h.modelHints (hancestors a (List.mem_reverse.mp ha)) e he
  · exact hkept e he

end Hints

/-! ## Ancestors -/

section Ancestors

variable {names : List Hint}

theorem mem_of_mem_mergeOrders {n : Nat} {orders : List (List Hint)} {merged : List Hint}
    (e : mergeOrders n orders = some merged) {a : Hint} (ha : a ∈ merged) :
    ∃ order ∈ orders, a ∈ order := by
  induction n generalizing orders merged with
  | zero => exact nomatch e
  | succ n ih =>
    rw [mergeOrders] at e
    split at e
    · obtain rfl := Option.some.inj e
      exact absurd ha List.not_mem_nil
    · have hsub : ∀ order ∈ orders.filter (!·.isEmpty), order ∈ orders := fun order horder ↦
        (List.mem_filter.mp horder).1
      dsimp only at e
      split at e
      · exact nomatch e
      next first hfirst =>
        obtain ⟨rest, hrest, rfl⟩ := Option.map_eq_some_iff.mp e
        rcases List.mem_cons.mp ha with rfl | ha
        · -- what comes next is the head of some order
          obtain ⟨order, horder, hhead⟩ := List.mem_filterMap.mp (List.mem_of_find?_eq_some hfirst)
          exact ⟨order, hsub order horder, List.mem_of_mem_head? hhead⟩
        · obtain ⟨left, hleft, ha⟩ := ih hrest ha
          obtain ⟨order, horder, rfl⟩ := List.mem_map.mp hleft
          refine ⟨order, hsub order horder, ?_⟩
          split at ha
          · exact List.mem_of_mem_tail ha
          · exact ha

theorem properModel_of_mem_aliasClasses {c : ClassName} {bases rest others : List Hint}
    (hothers : ∀ a ∈ others, a.ProperModel) :
    ∀ a ∈ aliasClasses table (.named c) bases rest others, a.ProperModel := by
  unfold aliasClasses
  extract_lets parametrised
  have hparametrised : ∀ a ∈ parametrised, Hint.ProperModel a := by
    unfold parametrised
    split
    · exact hothers
    · exact List.forall_mem_cons.mpr ⟨Hint.properModel_named _, hothers⟩
  split
  · exact hparametrised
  · exact List.forall_mem_cons.mpr ⟨Hint.properModel_named c, hparametrised⟩

theorem properModel_of_mem_baseClasses {all bases : List Hint} (hbases : ∀ b ∈ bases, b.Proper)
    (e : baseClasses table all bases = .ok names) : ∀ a ∈ names, a.ProperModel := by
  induction bases generalizing names with
  | nil =>
    rw [← Except.ok.inj e]
    exact List.forall_mem_nil _
  | cons base rest ih =>
    obtain ⟨hbase, hrest⟩ := List.forall_mem_cons.mp hbases
    rw [baseClasses] at e
    obtain ⟨others, hothers, e⟩ := bind_eq_ok_iff.mp e
    have hothers := ih hrest hothers
    have hcons (c : ClassName) : ∀ a ∈ .named c :: others, Hint.ProperModel a :=
      List.forall_mem_cons.mpr ⟨Hint.properModel_named c, hothers⟩
    split at e
    · exact Except.ok.inj e ▸ properModel_of_mem_aliasClasses hothers
    · exact Except.ok.inj e ▸ properModel_of_mem_aliasClasses hothers
    · split at e
      · exact Except.ok.inj e ▸ hothers
      · exact Except.ok.inj e ▸ hcons _
    · exact Except.ok.inj e ▸ hcons _
    · split at e
      next cls hcls =>
        exact Except.ok.inj e ▸ List.forall_mem_cons.mpr ⟨hbase.classBehind hcls, hothers⟩
      · exact nomatch e

theorem Proper.ancestry (h : table.Proper) {cls : Hint} (hcls : cls.ProperModel) :
    ∀ a ∈ table.ancestry cls, a.ProperModel := by
  have hlibrary (cs : List ClassName) : ∀ a ∈ cs.map Hint.named, a.ProperModel :=
    List.forall_mem_map.mpr fun c _ ↦ Hint.properModel_named c
  have hancestors (c : ClassName) : ∀ a ∈ table.ancestryOf c, a.ProperModel := by
    unfold ancestryOf
    split
    next hd => exact (h.of_find? hd).ancestry
    · dsimp only
      split
      · exact hlibrary [c]
      · refine List.forall_mem_append.mpr ⟨?_, hlibrary [.root]⟩
        split
        · exact hlibrary (c :: _)
        · exact hlibrary [c]
  unfold ClassTable.ancestry
  split
  · exact hancestors _
  · exact List.forall_mem_cons.mpr ⟨hcls, hancestors _⟩
  · exact List.forall_mem_nil _

theorem Proper.ancestorsOf (h : table.Proper) {bases ancestors : List Hint}
    (hbases : ∀ b ∈ bases, b.Proper) (e : table.ancestorsOf bases = .ok ancestors) :
    ∀ a ∈ ancestors, a.ProperModel := by
  unfold ClassTable.ancestorsOf at e
  obtain ⟨stated, hstated, e⟩ := bind_eq_ok_iff.mp e
  have hstated := properModel_of_mem_baseClasses hbases hstated
  extract_lets names orders merge at e
  replace e : merge () = .ok ancestors := by
    split at e
    · exact nomatch e
    · exact e
  unfold merge at e
  have hnames : ∀ a ∈ names, Hint.ProperModel a := by
    unfold names
    split
    · exact List.forall_mem_singleton.mpr (Hint.properModel_named _)
    · exact hstated
  split at e
  next merged hmerged =>
    intro a ha
    obtain ⟨order, horder, ha⟩ := mem_of_mem_mergeOrders hmerged (Except.ok.inj e ▸ ha)
    rcases List.mem_append.mp horder with horder | horder
    · obtain ⟨cls, hcls, rfl⟩ := List.mem_map.mp horder
      exact h.ancestry (hnames cls hcls) a ha
    · exact hnames a (List.mem_singleton.mp horder ▸ ha)
  · exact nomatch e

end Ancestors

end ClassTable

/-! ## Tables that stay proper -/

theorem MethodSource.proper_attribute {m : MethodSource}
    (hm : (∀ h ∈ m.result, h.Proper) ∧ ∀ d ∈ m.attached, d.Proper) : m.attribute.Proper := by
  unfold MethodSource.attribute
  cases m.form with
  | cached | setterOnly => exact trivial
  | _ => exact hm

namespace ClassSource

variable {source : ClassSource}

theorem Proper.hints (h : source.Proper) : ∀ e ∈ source.hints, e.2.Proper := by
  intro e he
  obtain ⟨f, hf, rfl⟩ := List.mem_map.mp (Keyed.mem_of_mem_putAll_nil he)
  exact (h.fields f hf).1

theorem Proper.body (h : source.Proper) : ∀ e ∈ source.body, e.2.Proper := by
  intro e he
  obtain ⟨entry, hentry, rfl⟩ := List.mem_map.mp (Keyed.mem_of_mem_putAll_nil he)
  rcases List.mem_append.mp hentry with hentry | hnested
  · rcases List.mem_append.mp hentry with hentry | hmethod
    · rcases List.mem_append.mp hentry with hassigned | hvalue
      · obtain ⟨f, hf, hassigned⟩ := List.mem_filterMap.mp hassigned
        obtain ⟨d, hd, rfl⟩ := Option.map_eq_some_iff.mp hassigned
        exact (h.fields f hf).2 d hd
      · obtain ⟨v, hv, rfl⟩ := List.mem_map.mp hvalue
        exact h.values v hv
    · obtain ⟨m, hm, rfl⟩ := List.mem_map.mp hmethod
      exact MethodSource.proper_attribute (h.methods m hm)
  · obtain ⟨n, hn, rfl⟩ := List.mem_map.mp hnested
    exact h.nested n hn

theorem Proper.allBases (h : source.Proper) : ∀ b ∈ source.allBases, b.Proper := by
  have hcons {c : ClassName} (hc : c.NoUnion) : ∀ b ∈ .named c :: source.bases, Hint.Proper b :=
    List.forall_mem_cons.mpr ⟨.named hc, h.bases⟩
  unfold ClassSource.allBases
  split
  · split
    · exact h.bases
    · exact hcons (by decide)
  · split
    · exact List.forall_mem_singleton.mpr (.named (by decide))
    · exact h.bases
  · exact hcons (by decide)
  · exact hcons (by decide)
  · exact h.bases

end ClassSource

namespace ClassTable

variable {table table' : ClassTable} {source : ClassSource}

theorem proper_of_follows {d : DeclaredClass} {ancestors : List Hint}
    (hd : d.Follows source ancestors) (hsource : source.Proper)
    (hancestors : ∀ a ∈ ancestors, a.ProperModel)
    (hmodel : ∀ fields, d.model = some fields → ∀ e ∈ fields, e.2.Proper) : d.Proper where
  noUnion := hd.name ▸ hsource.noUnion
  takes := hd.name ▸ hsource.takes
  ancestry := hd.ancestry ▸ List.forall_mem_cons.mpr ⟨Hint.properModel_named _, hancestors⟩
  hints e he := by
    obtain ⟨k, hk, hek⟩ := hd.written e he
    have hproper := hsource.hints _ hk
    rcases hek with hek | hek
    · exact hek ▸ hproper
    · exact hek ▸ hproper.asArgument
  body := hd.body ▸ hsource.body
  model := hmodel
  attached x hx := hsource.attached x (hd.attached x hx)

theorem proper_nil (moduleName : String) {parameters : List (String × Hint)} {runtime : Runtime}
    (h : ∀ e ∈ parameters, e.2.Proper) (hruntime : runtime.Proper) :
    Proper { moduleName, parameters, runtime } where
  parameters := h
  classes _ hd := absurd hd List.not_mem_nil
  runtime := hruntime

theorem Proper.modify (h : table.Proper) (name : ClassName) {f : DeclaredClass → DeclaredClass}
    (hf : ∀ d ∈ table.classes, d.Proper → (f d).Proper) : (table.modify name f).Proper where
  parameters := h.parameters
  classes := forall_mem_classes_modify h.classes name hf
  runtime := h.runtime

theorem proper_define (h : table.Proper) (hsource : source.Proper)
    (e : table.define source = .ok table') : table'.Proper := by
  obtain ⟨ancestors, declared, finished, hancestors, hdeclared, hfinished, hnone, hlayout, -,
    rfl⟩ := exists_of_define e
  have hancestors := h.ancestorsOf hsource.allBases hancestors
  have hadded : Proper { table with classes := table.classes ++ [declared] } := by
    refine ⟨h.parameters, List.forall_mem_append.mpr
      ⟨h.classes, List.forall_mem_singleton.mpr ?_⟩, h.runtime⟩
    refine proper_of_follows hdeclared hsource hancestors fun fields hfields ↦ ?_
    exact nomatch hnone.symm.trans hfields
  refine hadded.modify source.name fun _ _ _ ↦ ?_
  refine proper_of_follows hfinished hsource hancestors fun fields hfields ↦ ?_
  rw [hlayout fields hfields]
  exact hadded.modelLayout hancestors hsource.hints

theorem proper_declare (h : table.Proper) {sources : List ClassSource}
    (hsources : ∀ source ∈ sources, source.Proper) (e : table.declare sources = .ok table') :
    table'.Proper := by
  induction sources generalizing table with
  | nil => exact Except.ok.inj e ▸ h
  | cons source sources ih =>
    obtain ⟨hsource, hsources⟩ := List.forall_mem_cons.mp hsources
    obtain ⟨next, hnext, e⟩ := bind_eq_ok_iff.mp (List.foldlM_cons.symm.trans e)
    exact ih (proper_define h hsource hnext) hsources e

end ClassTable

end Schemata
