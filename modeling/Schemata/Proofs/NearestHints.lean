import Schemata.Classes.Members
import Schemata.Proofs.DistinctNames

/-!
# Hints of nearest classes

A name may be annotated in several classes of an ancestry; the hint that counts is the one in the
nearest class, `ClassTable.annotation?`. The names in all hints of an ancestry are looked up
together. If every one of them is found (`ClassTable.Resolves`), each name has the hint that counts,
looked up in the class that wrote it. If one is not found, only the hints of the class itself are
left, as they were written.
-/

namespace Schemata

namespace Keyed

variable {α : Type} {n : String}

theorem get?_foldl_putAll (layers : List (List (String × α))) (es : List (String × α)) :
    get? (layers.foldl putAll es) n =
      (layers.reverse.findSome? fun layer ↦ get? layer.reverse n).or (get? es n) := by
  induction layers generalizing es with
  | nil => rfl
  | cons layer layers ih =>
    rw [List.foldl_cons, ih, get?_putAll, List.reverse_cons, List.findSome?_append,
      Option.or_assoc]
    congr 1
    rw [List.findSome?_singleton]

end Keyed

namespace ClassTable

variable (table : ClassTable)

/-- The nearest class that annotates a name, and its hint. -/
def annotation? (cls : Hint) (n : String) : Option (DeclaredClass × Hint) :=
  (table.declaredAncestry cls).findSome? fun d ↦ (Keyed.get? d.hints n).map (d, ·)

/-- The names in all hints of a class and its ancestors are found. -/
def Resolves (cls : Hint) : Prop :=
  ∀ d ∈ table.declaredAncestry cls, ∀ e ∈ d.hints, ∃ h, table.resolve (some d.name) e.2 = .ok h

variable {table} {cls : Hint} {n : String}

theorem exists_resolvedHints_iff {d : DeclaredClass} :
    (∃ hints, table.resolvedHints d = .ok hints) ↔
      ∀ e ∈ d.hints, ∃ h, table.resolve (some d.name) e.2 = .ok h := by
  simp only [resolvedHints, mapM_eq_ok_iff, exists_forall₂_iff]
  refine forall₂_congr fun e _ ↦ ?_
  cases table.resolve (some d.name) e.2 <;> simp [bind, Except.bind, pure, Except.pure]

theorem forall₂_of_resolvedHints {d : DeclaredClass} {hints : List (String × Hint)}
    (e : table.resolvedHints d = .ok hints) :
    List.Forall₂ (fun e f ↦ f.1 = e.1 ∧ table.resolve (some d.name) e.2 = .ok f.2)
      d.hints hints := by
  refine (mapM_eq_ok_iff.mp e).imp fun e f hf ↦ ?_
  obtain ⟨h, hh, hf⟩ := bind_eq_ok_iff.mp hf
  obtain rfl := Except.ok.inj hf
  exact ⟨rfl, hh⟩

theorem exists_inheritedHints_iff :
    (∃ hints, table.inheritedHints cls = .ok hints) ↔ table.Resolves cls := by
  have hlayers : (∃ hints, table.inheritedHints cls = .ok hints) ↔
      ∃ layers, (table.declaredAncestry cls).reverse.mapM table.resolvedHints = .ok layers := by
    constructor
    · rintro ⟨hints, e⟩
      obtain ⟨layers, e, -⟩ := bind_eq_ok_iff.mp e
      exact ⟨layers, e⟩
    · rintro ⟨layers, e⟩
      exact ⟨_, bind_eq_ok_iff.mpr ⟨layers, e, rfl⟩⟩
  simp only [hlayers, mapM_eq_ok_iff, exists_forall₂_iff, List.mem_reverse,
    exists_resolvedHints_iff, Resolves]

theorem resolves_of_isSome (h : (table.inheritedHints cls).toOption.isSome) :
    table.Resolves cls := by
  refine exists_inheritedHints_iff.mp ?_
  cases hhints : table.inheritedHints cls with
  | ok hints => exact ⟨hints, rfl⟩
  | error e =>
    rw [hhints] at h
    exact nomatch h

theorem DistinctNames.of_mem_ancestry (distinct : table.DistinctNames) {d : DeclaredClass}
    (hd : d ∈ table.declaredAncestry cls) : d.DistinctNames := by
  obtain ⟨ancestor, -, hfound⟩ := List.mem_filterMap.mp hd
  split at hfound
  · exact distinct.of_find? hfound
  · exact nomatch hfound

/-- If all names are found, a name has the nearest hint, looked up where it was written. -/
theorem get?_of_inheritedHints (distinct : table.DistinctNames) {hints : List (String × Hint)}
    (e : table.inheritedHints cls = .ok hints) (n : String) :
    Option.Rel (fun found h ↦ table.resolve (some found.1.name) found.2 = .ok h)
      (table.annotation? cls n) (Keyed.get? hints n) := by
  obtain ⟨layers, hlayers, hhints⟩ := bind_eq_ok_iff.mp e
  obtain rfl := Except.ok.inj hhints
  have hnearest := List.forall₂_reverse_iff.mpr (mapM_eq_ok_iff.mp hlayers)
  rw [List.reverse_reverse] at hnearest
  rw [Keyed.get?_foldl_putAll, show Keyed.get? ([] : List (String × Hint)) n = none from rfl,
    Option.or_none]
  refine findSome?_of_forall₂ (forall₂_imp_of_mem hnearest fun d hd layer _ hlayer ↦ ?_)
  have hstep := forall₂_of_resolvedHints hlayer
  have hdistinct : (layer.map (·.1)).Nodup := by
    rw [Keyed.map_fst_of_forall₂ (R := fun _ h k ↦ table.resolve (some d.name) h = .ok k) hstep]
    exact (distinct.of_mem_ancestry hd).hints
  have hrel := Keyed.get?_of_forall₂ (R := fun _ h k ↦ table.resolve (some d.name) h = .ok k)
    hstep n
  rw [Keyed.get?_reverse hdistinct]
  generalize Keyed.get? d.hints n = written, Keyed.get? layer n = found at hrel
  cases hrel with
  | none => exact .none
  | some h => exact .some h

end ClassTable

end Schemata
