import Mathlib.Data.List.Nodup
import Schemata.Classes.Definition
import Schemata.Proofs.Outcome

/-!
# Names of a class body

A class body binds each name once. In a `ClassTable` the annotated names and the attributes of a
class are lists of entries, and `ClassTable.DistinctNames` says that no name occurs twice in one of
them. A table keeps this when a class is declared and when metadata are attached.

The first half is about entries in general: what a name is set to after several names have been set
one after the other is what it was set to last.
-/

namespace Schemata

/-! ## Entries -/

/-- Lists that give in step what is related give first what is related. -/
theorem findSome?_of_forall₂ {α β γ δ : Type} {R : γ → δ → Prop} {f : α → Option γ}
    {g : β → Option δ} {xs : List α} {ys : List β}
    (h : List.Forall₂ (fun x y ↦ Option.Rel R (f x) (g y)) xs ys) :
    Option.Rel R (xs.findSome? f) (ys.findSome? g) := by
  induction h with
  | nil => exact .none
  | @cons x y xs ys hxy _ ih =>
    rw [List.findSome?_cons, List.findSome?_cons]
    generalize f x = a, g y = b at hxy
    cases hxy with
    | none => exact ih
    | some hab => exact .some hab

namespace Keyed

variable {α β : Type} {es fs : List (String × α)} {n : String}

theorem get?_cons (e : String × α) (es : List (String × α)) (n : String) :
    get? (e :: es) n = if e.1 = n then some e.2 else get? es n := by
  rw [get?, List.find?_cons]
  by_cases h : e.1 = n
  · rw [if_pos h, beq_iff_eq.mpr h]
    rfl
  · rw [if_neg h, beq_eq_false_iff_ne.mpr h]
    rfl

theorem get?_append : get? (es ++ fs) n = (get? es n).or (get? fs n) := by
  rw [get?, List.find?_append, Option.map_or]
  rfl

theorem get?_flatMap (f : β → List (String × α)) (xs : List β) :
    get? (xs.flatMap f) n = xs.findSome? fun x ↦ get? (f x) n := by
  induction xs with
  | nil => rfl
  | cons x xs ih =>
    rw [List.flatMap_cons, get?_append, List.findSome?_cons, ih]
    cases get? (f x) n <;> rfl

theorem get?_eq_none_iff : get? es n = none ↔ n ∉ es.map (·.1) := by
  simp only [get?, Option.map_eq_none_iff, List.find?_eq_none, beq_iff_eq, List.mem_map, not_exists,
    not_and]

theorem mem_of_get? {a : α} (h : get? es n = some a) : (n, a) ∈ es := by
  obtain ⟨⟨k, b⟩, he, rfl⟩ := Option.map_eq_some_iff.mp h
  have hk : k = n := by simpa using List.find?_some he
  subst hk
  exact List.mem_of_find?_eq_some he

theorem get?_eq_of_mem (distinct : (es.map (·.1)).Nodup) {a : α} (h : (n, a) ∈ es) :
    get? es n = some a := by
  induction es with
  | nil => exact absurd h List.not_mem_nil
  | cons e es ih =>
    obtain ⟨he, hes⟩ := List.nodup_cons.mp distinct
    rw [get?_cons]
    rcases List.mem_cons.mp h with rfl | h
    · exact if_pos rfl
    · have hne : e.1 ≠ n := fun hn ↦ he (List.mem_map.mpr ⟨_, h, hn.symm⟩)
      rw [if_neg hne]
      exact ih hes h

theorem get?_reverse (distinct : (es.map (·.1)).Nodup) : get? es.reverse n = get? es n := by
  cases h : get? es n with
  | none =>
    rw [get?_eq_none_iff] at h ⊢
    rwa [List.map_reverse, List.mem_reverse]
  | some a =>
    have hdistinct : (es.reverse.map (·.1)).Nodup := by
      rwa [List.map_reverse, List.nodup_reverse]
    exact get?_eq_of_mem hdistinct (List.mem_reverse.mpr (mem_of_get? h))

section Forall₂

variable {R : String → α → β → Prop} {es : List (String × α)} {fs : List (String × β)}
  (h : List.Forall₂ (fun e f ↦ f.1 = e.1 ∧ R e.1 e.2 f.2) es fs)

include h

theorem map_fst_of_forall₂ : fs.map (·.1) = es.map (·.1) := by
  induction h with
  | nil => rfl
  | cons hef _ ih => rw [List.map_cons, List.map_cons, hef.1, ih]

theorem get?_of_forall₂ (n : String) : Option.Rel (R n) (get? es n) (get? fs n) := by
  induction h with
  | nil => exact .none
  | @cons e f es fs hef _ ih =>
    obtain ⟨hname, hvalue⟩ := hef
    rw [get?_cons, get?_cons, hname]
    by_cases hn : e.1 = n
    · rw [if_pos hn, if_pos hn]
      exact .some (hn ▸ hvalue)
    · rw [if_neg hn, if_neg hn]
      exact ih

end Forall₂

/-- The entries whose values are of use, with what is made of them. -/
def select (f : String → α → Option β) (es : List (String × α)) : List (String × β) :=
  es.filterMap fun e ↦ (f e.1 e.2).map (e.1, ·)

section Select

variable (f : String → α → Option β)

theorem select_cons (e : String × α) (es : List (String × α)) :
    select f (e :: es) = match f e.1 e.2 with
      | none => select f es
      | some b => (e.1, b) :: select f es := by
  rw [select, List.filterMap_cons]
  cases f e.1 e.2 <;> rfl

end Select

theorem get?_put (es : List (String × α)) (k : String) (a : α) (n : String) :
    get? (put es k a) n = if k = n then some a else get? es n := by
  induction es with
  | nil => exact get?_cons (k, a) [] n
  | cons e es ih =>
    obtain ⟨l, b⟩ := e
    rw [put]
    by_cases hl : l = k
    · rw [if_pos (beq_iff_eq.mpr hl), get?_cons, get?_cons, hl]
      split <;> rfl
    · rw [if_neg (by simpa using hl), get?_cons, get?_cons, ih]
      by_cases hk : k = n
      · rw [if_pos hk, if_neg (fun h ↦ hl (h.trans hk.symm)), if_pos hk]
      · rw [if_neg hk, if_neg hk]

theorem get?_putAll (es fs : List (String × α)) (n : String) :
    get? (putAll es fs) n = (get? fs.reverse n).or (get? es n) := by
  induction fs generalizing es with
  | nil => rfl
  | cons f fs ih =>
    have hput : putAll es (f :: fs) = putAll (put es f.1 f.2) fs := rfl
    rw [hput, ih, get?_put, List.reverse_cons, get?_append, get?_cons, Option.or_assoc]
    congr 1
    split <;> rfl

theorem mem_map_fst_put {k : String} {a : α} :
    n ∈ (put es k a).map (·.1) ↔ n = k ∨ n ∈ es.map (·.1) := by
  rw [← not_iff_not, ← get?_eq_none_iff, get?_put, not_or, ← get?_eq_none_iff]
  by_cases h : k = n
  · simp [h]
  · simp [h, Ne.symm h]

theorem mem_put {k : String} {a : α} {e : String × α} (h : e ∈ put es k a) :
    e ∈ es ∨ e = (k, a) := by
  induction es with
  | nil => exact .inr (List.mem_singleton.mp h)
  | cons f es ih =>
    rw [put] at h
    split at h
    next hk =>
      rcases List.mem_cons.mp h with rfl | h
      · exact .inr (by rw [beq_iff_eq.mp hk])
      · exact .inl (List.mem_cons_of_mem f h)
    · rcases List.mem_cons.mp h with rfl | h
      · exact .inl List.mem_cons_self
      · exact (ih h).imp_left (List.mem_cons_of_mem f)

theorem mem_putAll {fs : List (String × α)} {e : String × α} (h : e ∈ putAll es fs) :
    e ∈ es ∨ e ∈ fs := by
  induction fs generalizing es with
  | nil => exact .inl h
  | cons f fs ih =>
    rcases ih h with hput | hfs
    · rcases mem_put hput with hes | rfl
      · exact .inl hes
      · exact .inr List.mem_cons_self
    · exact .inr (List.mem_cons_of_mem f hfs)

theorem mem_of_mem_putAll_nil {fs : List (String × α)} {e : String × α} (h : e ∈ putAll [] fs) :
    e ∈ fs :=
  (mem_putAll h).resolve_left List.not_mem_nil

theorem exists_of_mem_foldl_putAll {xs : List β} {f : β → List (String × α)} {e : String × α}
    (h : e ∈ xs.foldl (fun es x ↦ putAll es (f x)) []) : ∃ x ∈ xs, e ∈ f x := by
  have hfold : ∀ e ∈ xs.foldl (fun es x ↦ putAll es (f x)) [], ∃ x ∈ xs, e ∈ f x := by
    refine List.foldlRecOn xs _
      (motive := fun es : List (String × α) ↦ ∀ e ∈ es, ∃ x ∈ xs, e ∈ f x)
      (List.forall_mem_nil _) fun es hes x hx e he ↦ ?_
    exact (mem_putAll he).elim (hes e) fun he ↦ ⟨x, hx, he⟩
  exact hfold e h

theorem nodup_put (distinct : (es.map (·.1)).Nodup) (k : String) (a : α) :
    ((put es k a).map (·.1)).Nodup := by
  induction es with
  | nil => exact List.nodup_singleton k
  | cons e es ih =>
    obtain ⟨he, hes⟩ := List.nodup_cons.mp distinct
    rw [put]
    by_cases hk : e.1 = k
    · rw [if_pos (beq_iff_eq.mpr hk)]
      subst hk
      exact List.nodup_cons.mpr ⟨he, hes⟩
    · rw [if_neg (by simpa using hk)]
      refine List.nodup_cons.mpr ⟨fun hmem ↦ ?_, ih hes⟩
      exact (mem_map_fst_put.mp hmem).elim hk he

theorem nodup_putAll (distinct : (es.map (·.1)).Nodup) (fs : List (String × α)) :
    ((putAll es fs).map (·.1)).Nodup := by
  induction fs generalizing es with
  | nil => exact distinct
  | cons f fs ih => exact ih (nodup_put distinct f.1 f.2)

theorem nodup_putAll_nil (fs : List (String × α)) : ((putAll [] fs).map (·.1)).Nodup := by
  have hempty : (([] : List (String × α)).map (·.1)).Nodup := List.nodup_nil
  exact nodup_putAll hempty fs

end Keyed

/-! ## Classes -/

/-- No name occurs twice among the annotated names of a class, or among its attributes. -/
structure DeclaredClass.DistinctNames (d : DeclaredClass) : Prop where
  hints : (d.hints.map (·.1)).Nodup
  body : (d.body.map (·.1)).Nodup

/-- A class has the name and the attributes of a declaration, these ancestors and, if any, the
annotated names, with hints as they are written or as names to be looked up, and the metadata. -/
structure DeclaredClass.Follows (d : DeclaredClass) (source : ClassSource) (ancestors : List Hint) :
    Prop where
  name : d.name = source.name
  ancestry : d.ancestry = .named source.name :: ancestors
  hints : (d.hints.map (·.1)).Sublist (source.hints.map (·.1))
  written : ∀ e ∈ d.hints, ∃ h, (e.1, h) ∈ source.hints ∧ (e.2 = h ∨ e.2 = h.asArgument)
  body : d.body = source.body
  attached : ∀ x ∈ d.attached, x ∈ source.attached

/-- The constants of a class are those of the body it was declared with, if it extends the base
class of enums; any other class has none. -/
def ClassSource.Makes (source : ClassSource) (runtime : Runtime) (ancestors : List Hint)
    (constants : List EnumConstant) : Prop :=
  if ancestors.contains (.named LibraryClass.enum) then
    bodyConstants runtime source.name.simpleName ancestors source.body = .ok constants
  else constants = []

theorem ClassSource.nodup_hints (source : ClassSource) : (source.hints.map (·.1)).Nodup :=
  Keyed.nodup_putAll_nil _

theorem ClassSource.nodup_body (source : ClassSource) : (source.body.map (·.1)).Nodup :=
  Keyed.nodup_putAll_nil _

theorem DeclaredClass.Follows.distinctNames {d : DeclaredClass} {source : ClassSource}
    {ancestors : List Hint} (h : d.Follows source ancestors) : d.DistinctNames where
  hints := h.hints.nodup source.nodup_hints
  body := h.body ▸ source.nodup_body

namespace ClassTable

/-- No declared class has a name twice. -/
def DistinctNames (table : ClassTable) : Prop := ∀ d ∈ table.classes, d.DistinctNames

variable {table table' : ClassTable}

theorem name_of_find? {c : ClassName} {d : DeclaredClass} (hd : table.find? c = some d) :
    d.name = c := by
  simpa using List.find?_some hd

theorem DistinctNames.of_find? (h : table.DistinctNames) {c : ClassName} {d : DeclaredClass}
    (hd : table.find? c = some d) : d.DistinctNames :=
  h d (List.mem_of_find?_eq_some hd)

theorem distinctNames_nil (moduleName : String) (parameters : List (String × Hint))
    {runtime : Runtime} : DistinctNames { moduleName, parameters, runtime } := fun _ hd ↦ absurd hd List.not_mem_nil

theorem forall_mem_classes_modify {P : DeclaredClass → Prop} (h : ∀ d ∈ table.classes, P d)
    (name : ClassName) {f : DeclaredClass → DeclaredClass}
    (hf : ∀ d ∈ table.classes, P d → P (f d)) : ∀ d ∈ (table.modify name f).classes, P d := by
  refine List.forall_mem_map.mpr fun d hd ↦ ?_
  by_cases hname : d.name == name
  · rw [if_pos hname]
    exact hf d hd (h d hd)
  · rw [if_neg hname]
    exact h d hd

theorem exists_of_mem_modelFields {c : ClassName} {e : String × Hint}
    (he : e ∈ table.modelFields c) :
    ∃ d ∈ table.classes, ∃ fields, d.model = some fields ∧ e ∈ fields := by
  unfold modelFields at he
  cases hmodel : (table.find? c).bind (·.model) with
  | none =>
    rw [hmodel] at he
    exact absurd he List.not_mem_nil
  | some fields =>
    rw [hmodel] at he
    obtain ⟨d, hd, hfields⟩ := Option.bind_eq_some_iff.mp hmodel
    exact ⟨d, List.mem_of_find?_eq_some hd, fields, hfields, he⟩

/-- A declaration that makes sense adds one class, which has the names and the constants of the
declaration, and, if it is a model, its fields. -/
theorem exists_of_define {source : ClassSource} (e : table.define source = .ok table') :
    ∃ ancestors declared finished, table.ancestorsOf source.allBases = .ok ancestors ∧
      DeclaredClass.Follows declared source ancestors ∧
      DeclaredClass.Follows finished source ancestors ∧ declared.model = none ∧
      (∀ fields, finished.model = some fields → fields = modelLayout
        { table with classes := table.classes ++ [declared] } source ancestors) ∧
      source.Makes table.runtime ancestors finished.constants ∧
      table' = ClassTable.modify { table with classes := table.classes ++ [declared] } source.name
        fun _ ↦ finished := by
  -- each stage of a declaration fails, or hands what it found on to the next one
  unfold ClassTable.define at e
  extract_lets bases body order at e
  replace e : order () = .ok table' := by
    split at e
    · exact nomatch e
    · exact e
  obtain ⟨ancestors, hancestors, e⟩ := bind_eq_ok_iff.mp e
  extract_lets isModel isEnum closed arrange at e
  obtain ⟨places, e⟩ : ∃ places, arrange places = .ok table' := by
    split at e
    · obtain ⟨places, -, e⟩ := bind_eq_ok_iff.mp e
      exact ⟨places, e⟩
    · exact ⟨none, e⟩
  unfold arrange at e
  extract_lets hints at e
  have hhints : (hints.map (·.1)).Sublist (source.hints.map (·.1)) ∧
      ∀ e ∈ hints, ∃ h, (e.1, h) ∈ source.hints ∧ (e.2 = h ∨ e.2 = h.asArgument) := by
    unfold hints
    split
    · exact ⟨List.nil_sublist _, fun e he ↦ absurd he List.not_mem_nil⟩
    · split
      · rw [List.map_map]
        refine ⟨.refl _, fun e he ↦ ?_⟩
        obtain ⟨written, hwritten, rfl⟩ := List.mem_map.mp he
        exact ⟨written.2, hwritten, .inr rfl⟩
      · exact ⟨.refl _, fun e he ↦ ⟨e.2, he, .inl rfl⟩⟩
  obtain ⟨parameters, -, e⟩ := bind_eq_ok_iff.mp e
  extract_lets declared added model count layOut constantsOnce at e
  replace e : constantsOnce () = .ok table' := by
    split at e
    · exact nomatch e
    · exact e
  replace e : layOut () = .ok table' := by
    unfold constantsOnce at e
    split at e
    · exact nomatch e
    · exact e
  obtain ⟨record, e⟩ : ∃ record, count record = .ok table' := by
    unfold layOut at e
    split at e
    · obtain ⟨record, -, e⟩ := bind_eq_ok_iff.mp e
      exact ⟨record, e⟩
    · obtain ⟨record, -, e⟩ := bind_eq_ok_iff.mp e
      exact ⟨record, e⟩
    · exact ⟨none, e⟩
  unfold count at e
  extract_lets finish at e
  obtain ⟨constants, hconstants, e⟩ :
      ∃ constants, source.Makes table.runtime ancestors constants ∧
        finish constants = .ok table' := by
    unfold ClassSource.Makes
    split at e
    next hisEnum =>
      obtain ⟨constants, hconstants, e⟩ := bind_eq_ok_iff.mp e
      exact ⟨constants, (if_pos hisEnum).mpr hconstants, e⟩
    next hisEnum => exact ⟨[], (if_neg hisEnum).mpr rfl, e⟩
  obtain ⟨-, -, e⟩ := bind_eq_ok_iff.mp e
  refine ⟨ancestors, declared, _, hancestors, ⟨rfl, rfl, hhints.1, hhints.2, rfl, ?_⟩,
    ⟨rfl, rfl, hhints.1, hhints.2, rfl, fun x hx ↦ hx⟩, rfl, fun fields hfields ↦ ?_,
    hconstants, (Except.ok.inj e).symm⟩
  · exact fun x hx ↦ absurd hx List.not_mem_nil
  exact (Option.some.inj (Option.ite_none_right_eq_some.mp hfields).2).symm

theorem distinctNames_define (h : table.DistinctNames) {source : ClassSource}
    (e : table.define source = .ok table') : table'.DistinctNames := by
  obtain ⟨ancestors, declared, finished, -, hdeclared, hfinished, -, -, -, rfl⟩ :=
    exists_of_define e
  have hadded : DistinctNames { table with classes := table.classes ++ [declared] } :=
    List.forall_mem_append.mpr ⟨h, List.forall_mem_singleton.mpr hdeclared.distinctNames⟩
  exact forall_mem_classes_modify hadded source.name fun _ _ _ ↦ hfinished.distinctNames

/-- The table with several classes added, one after the other. -/
def declare (table : ClassTable) (sources : List ClassSource) : Except Error ClassTable :=
  sources.foldlM define table

/-- The table that declarations make, if they make sense. -/
def declared (table : ClassTable) (sources : List ClassSource) : ClassTable :=
  (table.declare sources).toOption.getD table

theorem declare_eq_ok {sources : List ClassSource}
    (h : (table.declare sources).toOption.isSome) :
    table.declare sources = .ok (table.declared sources) := by
  rw [declared]
  cases hs : table.declare sources with
  | ok table' => rfl
  | error e =>
    rw [hs] at h
    exact nomatch h

theorem distinctNames_declare (h : table.DistinctNames) {sources : List ClassSource}
    (e : table.declare sources = .ok table') : table'.DistinctNames :=
  foldlM_induction (fun _ _ _ hb hc ↦ distinctNames_define hb hc) h e

/-! ## Attached metadata -/

theorem mem_classes_of_mem_declaredAncestry {cls : Hint} {d : DeclaredClass}
    (h : d ∈ table.declaredAncestry cls) : d ∈ table.classes := by
  obtain ⟨ancestor, -, hfound⟩ := List.mem_filterMap.mp h
  split at hfound
  · exact List.mem_of_find?_eq_some hfound
  · exact nomatch hfound

end ClassTable

end Schemata
