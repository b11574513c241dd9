import Schemata.Proofs.Closure

/-!
# Resolutions that return

If finitely many types can be reached, resolution ends. Here the order of things is reversed: a
resolution that returns has built every type it queued, so its queue was closed under references at
the end, whatever else can be said about the types. Finiteness and the same references for the same
types are not needed, because the run itself is the evidence.

The types that a returning run has built are `BuildOrder`: they are in the order of arrival, each of
them was built within the budget, and each was reached from the roots.
-/

namespace Schemata

variable {σ : Type}

open Traced TypeRef

namespace Components

/-- The types that a resolution has built by the time it returns, in order, with their nodes. -/
structure BuildOrder (g : Generator σ) (budget : Nat) (inline : Bool)
    (roots order : List (TypeRef σ)) (node : TypeRef σ → Node σ) : Prop where
  arrival : order = arrivals (fun t ↦ (node t).references) roots order.length
  built : ∀ t ∈ order, (g.build budget t inline).Returns (node t)
  reached : ∀ t ∈ order, g.Reached inline roots t

/-! ## Runs that return -/

section Run

variable {define : TypeRef σ → Traced (Node σ)} {node : TypeRef σ → Node σ}
  {built pending roots : List (TypeRef σ)} {entries : Entries}

theorem resolve_nil (rounds : Nat) :
    resolve define rounds (progress node built []) = pure (definitions node (leaders built)) := by
  rw [resolve, progress]

/-- A run of the queue that returns has built all that arrived. -/
theorem exists_rest_of_resolve (hnode : ∀ t n, (define t).Returns n → n = node t) (rounds : Nat)
    (hpending : built ++ pending = arrivals (fun t ↦ (node t).references) roots built.length)
    (h : (resolve define rounds (progress node built pending)).Returns entries) :
    ∃ rest, built ++ rest = arrivals (fun t ↦ (node t).references) roots (built ++ rest).length ∧
      (∀ t ∈ rest, (define t).Returns (node t)) ∧
      entries = definitions node (leaders (built ++ rest)) := by
  induction rounds generalizing built pending with
  | zero =>
    cases pending with
    | nil =>
      rw [resolve_nil, returns_pure] at h
      exact ⟨[], by simpa using hpending, by simp, by simpa using h.symm⟩
    | cons t pending => exact nomatch h
  | succ rounds ih =>
    cases pending with
    | nil =>
      rw [resolve_nil, returns_pure] at h
      exact ⟨[], by simpa using hpending, by simp, by simpa using h.symm⟩
    | cons t pending =>
      have hdistinct : Distinct (built ++ t :: pending) := by
        rw [hpending]
        exact distinct_arrivals _
      have hdefine : (define t).Returns (node t) := by
        obtain ⟨n, hn, -⟩ := returns_bind.mp h
        rwa [← hnode t n hn]
      have hrun : define t = ⟨.ok (node t), (define t).log⟩ := by
        rw [← show (define t).outcome = .ok (node t) from hdefine]
      -- the round leaves a run of the same sort, one type further
      obtain ⟨pending', henqueue, hpending'⟩ := exists_enqueue_of_arrivals hpending
      rw [resolve_succ hrun hdistinct henqueue] at h
      obtain ⟨rest, horder, hrest, hentries⟩ := ih hpending' h
      have hassoc : (built ++ [t]) ++ rest = built ++ t :: rest := by simp
      rw [hassoc] at horder hentries
      exact ⟨t :: rest, horder, List.forall_mem_cons.mpr ⟨hdefine, hrest⟩, hentries⟩

end Run

section Build

variable {g : Generator σ} {budget : Nat} {inline : Bool} {roots order : List (TypeRef σ)}
  {node : TypeRef σ → Node σ} {t u : TypeRef σ}

/-- **A resolution that returns has an order**, and what it returns are the definitions of the types
that lead it. -/
theorem exists_buildOrder {entries : Entries} (h : (build g budget inline roots).Returns entries) :
    ∃ order node, BuildOrder g budget inline roots order node ∧
      entries = definitions node (leaders order) := by
  -- a type that is not built has no references either
  let node : TypeRef σ → Node σ := fun t ↦
    ((g.build budget t inline).outcome.toOption).getD ⟨[], []⟩
  have hnode : ∀ t n, (g.build budget t inline).Returns n → n = node t := by
    intro t n hn
    rw [show node t = ((g.build budget t inline).outcome.toOption).getD ⟨[], []⟩ from rfl,
      show (g.build budget t inline).outcome = .ok n from hn]
    rfl
  have hbuilds : ∀ t, ∀ u ∈ (node t).references, g.Builds inline t (node t) := by
    intro t u hu
    cases hbuild : (g.build budget t inline).outcome with
    | ok n =>
      rw [← hnode t n hbuild]
      exact ⟨budget, hbuild⟩
    | error e =>
      have hnil : node t = ⟨[], []⟩ := by
        rw [show node t = ((g.build budget t inline).outcome.toOption).getD ⟨[], []⟩ from rfl,
          hbuild]
        rfl
      rw [hnil] at hu
      exact absurd hu List.not_mem_nil
  obtain ⟨pending, henqueue, hpending⟩ := @enqueue_progress _ node [] [] roots
  rw [build, show ({} : Progress σ) = progress node [] [] from rfl, henqueue] at h
  obtain ⟨order, harrival, hbuilt, hentries⟩ := exists_rest_of_resolve hnode budget hpending h
  rw [List.nil_append] at harrival hentries
  refine ⟨order, node, ⟨harrival, hbuilt, ?_⟩, hentries⟩
  rw [harrival]
  exact arrivals_induction (fun _ ht ↦ .root ht)
    (fun t ht u hu ↦ .step ht (hbuilds t u hu) hu) order.length

namespace BuildOrder

theorem builds (h : BuildOrder g budget inline roots order node) (ht : t ∈ order) :
    g.Builds inline t (node t) := ⟨budget, h.built t ht⟩

theorem distinct (h : BuildOrder g budget inline roots order node) : Distinct order := by
  rw [h.arrival]
  exact distinct_arrivals _

theorem contains_root (h : BuildOrder g budget inline roots order node) (ht : t ∈ roots) :
    order.contains t := by
  rw [h.arrival]
  exact contains_arrivals_of_root ht _

theorem contains_reference (h : BuildOrder g budget inline roots order node) (ht : t ∈ order)
    (hu : u ∈ (node t).references) : order.contains u := by
  have hstop : (arrivals (fun t ↦ (node t).references) roots order.length).length ≤
      order.length := Nat.le_of_eq (congrArg List.length h.arrival.symm)
  rw [h.arrival] at ht ⊢
  exact contains_of_arrivals hstop ht (contains_of_mem hu)

end BuildOrder

theorem named_leaders_of_contains (h : order.contains t) : Named (leaders order) t.schemaName := by
  obtain ⟨u, hu, htu⟩ := List.contains_iff_exists_mem_beq.mp h
  obtain ⟨v, hv, hname⟩ := exists_leader hu
  exact ⟨v, hv, hname.trans (schemaName_eq_of_beq htu).symm⟩

/-- Every reference in a built type names a definition. -/
theorem BuildOrder.named_of_emits (h : BuildOrder g budget inline roots order node)
    (hbuiltins : g.settings.BuiltinsOnly) (havoid : g.host.ExtensionsAvoid reservedKeys)
    (ht : t ∈ order) {s : String} (hs : Emits (node t).schema s) :
    ∃ name, Named (leaders order) name ∧ s = g.settings.refPrefix ++ name := by
  have hmatches := Generator.Renders.matches hbuiltins havoid (h.builds ht) trivial
  obtain ⟨name, ⟨u, hu, rfl⟩, rfl⟩ := (hmatches s).mp hs
  exact ⟨u.schemaName, named_leaders_of_contains (h.contains_reference ht hu), rfl⟩

/-! ## Types without references -/

theorem arrivals_of_references_nil {references : TypeRef σ → List (TypeRef σ)}
    (h : ∀ t, references t = []) (n : Nat) : arrivals references roots n = union [] roots := by
  induction n with
  | zero => rfl
  | succ n ih =>
    cases hget : (arrivals references roots n)[n]? with
    | none => exact (arrivals_succ_of_none hget).trans ih
    | some t =>
      rw [arrivals_succ_of_some hget, h t, List.filter_nil, sortByText, List.mergeSort_nil]
      exact ih

/-- Roots without references are built and nothing else. -/
theorem returns_build_of_references_nil
    (hbuild : ∀ t ∈ roots, (g.build budget t inline).Returns (node t))
    (hnode : ∀ t, (node t).references = []) (hle : (union [] roots).length ≤ budget) :
    (build g budget inline roots).Returns (definitions node (leaders (union [] roots))) := by
  obtain ⟨pending, henqueue, hpending⟩ := @enqueue_progress _ node [] [] roots
  have hrun : ∀ t ∈ union [] roots,
      g.build budget t inline = ⟨.ok (node t), (g.build budget t inline).log⟩ := by
    intro t ht
    have hroot : t ∈ roots := (mem_union ht).resolve_left List.not_mem_nil
    rw [← show (g.build budget t inline).outcome = .ok (node t) from hbuild t hroot]
  have horder : [] ++ union [] roots =
      arrivals (fun t ↦ (node t).references) roots (union [] roots).length :=
    (arrivals_of_references_nil hnode _).symm
  have hresolve := resolve_progress hrun horder hpending hle
  rw [build, show ({} : Progress σ) = progress node [] [] from rfl, henqueue]
  exact congrArg Traced.outcome hresolve

end Build

end Components

end Schemata
