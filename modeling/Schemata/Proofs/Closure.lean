import Schemata.Components
import Schemata.Proofs.References

/-!
# Resolution reaches everything once

Resolution keeps a queue of types. Types are queued at the end and taken from the front, so the
types queued so far are, in the same order, the types taken so far followed by the queue; one list,
`Components.arrivals`, describes both. It only ever grows at its end and never repeats a type, and a
finite reach bounds its length. That is why resolution ends, and the list it ends with is the order
in which the types are built.

What is filed is decided by that order alone: the first type of a name keeps it
(`Components.leaders`), and every other type leaves a warning. A type that loses its name is built
all the same, and the types it references are queued.
-/

namespace Schemata

variable {σ : Type}

open Traced TypeRef

/-! ## What is reached -/

namespace Generator

variable (g : Generator σ) (inline : Bool)

/-- The type by itself is rendered as the node, given enough budget. -/
def Builds (t : TypeRef σ) (node : Node σ) : Prop :=
  ∃ budget, (g.build budget t inline).Returns node

/-- The type is among the roots or referenced by a type that is reached. -/
inductive Reached (roots : List (TypeRef σ)) : TypeRef σ → Prop where
  | root {t : TypeRef σ} (h : t ∈ roots) : Reached roots t
  | step {t u : TypeRef σ} {node : Node σ} (h : Reached roots t) (hnode : g.Builds inline t node)
      (hu : u ∈ node.references) : Reached roots u

end Generator

namespace Components

/-! ## The order of arrival -/

/-- The types queued by the time that so many have been built. -/
def arrivals (references : TypeRef σ → List (TypeRef σ)) (roots : List (TypeRef σ)) :
    Nat → List (TypeRef σ)
  | 0 => union [] roots
  | n + 1 =>
    let queued := arrivals references roots n
    match queued[n]? with
    | none => queued
    | some t => union queued (sortByText ((references t).filter (!queued.contains ·)))

section Arrivals

variable {references : TypeRef σ → List (TypeRef σ)} {roots : List (TypeRef σ)}

theorem arrivals_succ_of_none {n : Nat} (h : (arrivals references roots n)[n]? = none) :
    arrivals references roots (n + 1) = arrivals references roots n := by
  rw [arrivals, h]

theorem arrivals_succ_of_some {n : Nat} {t : TypeRef σ}
    (h : (arrivals references roots n)[n]? = some t) :
    arrivals references roots (n + 1) = union (arrivals references roots n)
      (sortByText ((references t).filter (!(arrivals references roots n).contains ·))) := by
  rw [arrivals, h]

theorem prefix_arrivals_succ (n : Nat) :
    arrivals references roots n <+: arrivals references roots (n + 1) := by
  cases h : (arrivals references roots n)[n]? with
  | none =>
    have hstop := arrivals_succ_of_none h
    exact hstop.symm ▸ List.prefix_refl _
  | some t =>
    rw [arrivals_succ_of_some h]
    exact prefix_union _ _

theorem prefix_arrivals_of_le {n m : Nat} (h : n ≤ m) :
    arrivals references roots n <+: arrivals references roots m := by
  induction h with
  | refl => exact List.prefix_refl _
  | step _ ih => exact ih.trans (prefix_arrivals_succ _)

theorem distinct_arrivals (n : Nat) : Distinct (arrivals references roots n) := by
  induction n with
  | zero => exact Distinct.union List.Pairwise.nil roots
  | succ n ih =>
    cases h : (arrivals references roots n)[n]? with
    | none =>
      rw [arrivals_succ_of_none h]
      exact ih
    | some t =>
      rw [arrivals_succ_of_some h]
      exact ih.union _

/-- When every queued type has been built, nothing is queued any more. -/
theorem arrivals_of_length_le {n m : Nat} (h : (arrivals references roots n).length ≤ n)
    (hm : n ≤ m) : arrivals references roots m = arrivals references roots n := by
  induction hm with
  | refl => rfl
  | step hm ih =>
    rw [← ih]
    refine arrivals_succ_of_none (List.getElem?_eq_none ?_)
    rw [ih]
    exact Nat.le_trans h hm

theorem mem_sortByText {s : List (TypeRef σ)} {t : TypeRef σ} : t ∈ sortByText s ↔ t ∈ s :=
  List.mem_mergeSort

/-- Everything queued is a root or referenced by something built. -/
theorem arrivals_induction {motive : TypeRef σ → Prop} (hroots : ∀ t ∈ roots, motive t)
    (hstep : ∀ t, motive t → ∀ u ∈ references t, motive u) (n : Nat) :
    ∀ t ∈ arrivals references roots n, motive t := by
  induction n with
  | zero =>
    intro t ht
    rcases mem_union ht with ht | ht
    · exact absurd ht List.not_mem_nil
    · exact hroots t ht
  | succ n ih =>
    cases h : (arrivals references roots n)[n]? with
    | none =>
      rw [arrivals_succ_of_none h]
      exact ih
    | some u =>
      rw [arrivals_succ_of_some h]
      intro t ht
      rcases mem_union ht with ht | ht
      · exact ih t ht
      · exact hstep u (ih u (List.mem_of_getElem? h)) t (List.mem_filter.mp (mem_sortByText.mp ht)).1

theorem contains_of_prefix {s r : List (TypeRef σ)} {t : TypeRef σ} (h : s <+: r)
    (ht : s.contains t) : r.contains t := by
  obtain ⟨u, hu, htu⟩ := List.contains_iff_exists_mem_beq.mp ht
  exact List.contains_iff_exists_mem_beq.mpr ⟨u, h.subset hu, htu⟩

theorem contains_arrivals_of_root {t : TypeRef σ} (h : t ∈ roots) (n : Nat) :
    (arrivals references roots n).contains t := by
  have hzero : (arrivals references roots 0).contains t := by
    rw [arrivals, contains_union, contains_of_mem h, Bool.or_true]
  exact contains_of_prefix (prefix_arrivals_of_le (Nat.zero_le n)) hzero

theorem contains_arrivals_of_reference {n : Nat} {t u : TypeRef σ}
    (h : (arrivals references roots n)[n]? = some t) (hu : (references t).contains u) :
    (arrivals references roots (n + 1)).contains u := by
  rw [arrivals_succ_of_some h, contains_union]
  cases hqueued : (arrivals references roots n).contains u with
  | true => rw [Bool.true_or]
  | false =>
    rw [Bool.false_or]
    obtain ⟨v, hv, huv⟩ := List.contains_iff_exists_mem_beq.mp hu
    refine List.contains_iff_exists_mem_beq.mpr ⟨v, mem_sortByText.mpr ?_, huv⟩
    refine List.mem_filter.mpr ⟨hv, ?_⟩
    rw [← List.contains_congr huv, hqueued]
    rfl

/-- Once everything queued has been built, everything referenced is queued. -/
theorem contains_of_arrivals {m : Nat} (hstop : (arrivals references roots m).length ≤ m)
    {t u : TypeRef σ} (ht : t ∈ arrivals references roots m) (hu : (references t).contains u) :
    (arrivals references roots m).contains u := by
  obtain ⟨n, hn, rfl⟩ := List.getElem_of_mem ht
  have hnm : n < m := Nat.lt_of_lt_of_le hn hstop
  have hlong : n < (arrivals references roots n).length := by
    refine Nat.lt_of_not_le fun hle ↦ ?_
    rw [arrivals_of_length_le hle (Nat.le_of_lt hnm)] at hn
    exact Nat.not_lt_of_le hle hn
  have hget : (arrivals references roots n)[n]? = some (arrivals references roots m)[n] := by
    rw [List.getElem?_eq_getElem hlong]
    exact congrArg some ((prefix_arrivals_of_le (Nat.le_of_lt hnm)).getElem hlong)
  exact contains_of_prefix (prefix_arrivals_of_le hnm) (contains_arrivals_of_reference hget hu)

end Arrivals

/-! ## Filing -/

/-- Adds a type to the owners of schema names unless its name is taken. -/
def claim (owners : List (TypeRef σ)) (t : TypeRef σ) : List (TypeRef σ) :=
  if owners.any (·.schemaName == t.schemaName) then owners else owners ++ [t]

/-- The types that keep their schema names: the first one of each name. -/
def leaders (order : List (TypeRef σ)) : List (TypeRef σ) := order.foldl claim []

/-- The record that filing a type leaves, given the owners of names. -/
def filingRecord (owners : List (TypeRef σ)) (t : TypeRef σ) : LogRecord :=
  match owners.find? (·.schemaName == t.schemaName) with
  | none => ⟨.debug, "Resolved " ++ t.text ++ " as '" ++ t.schemaName ++ "'"⟩
  | some owner => ⟨.warning, "Schema name '" ++ t.schemaName ++ "' is used by both " ++
      owner.text ++ " and " ++ t.text ++ "; keeping the first definition"⟩

/-- The records that filing several types leaves, given the owners of names. -/
def filingRecords : List (TypeRef σ) → List (TypeRef σ) → List LogRecord
  | _, [] => []
  | owners, t :: rest => filingRecord owners t :: filingRecords (claim owners t) rest

/-- The definitions of types, each under its schema name. -/
def definitions (node : TypeRef σ → Node σ) (types : List (TypeRef σ)) : Entries :=
  types.map fun t ↦ (.str t.schemaName, .map (node t).schema)

/-- The log of building types in order: what each build writes, then the record of its filing. -/
def buildLog (log : TypeRef σ → List LogRecord) (order : List (TypeRef σ))
    (records : List LogRecord) : List LogRecord :=
  (order.zip records).flatMap fun (t, r) ↦ log t ++ [r]

section Filing

variable {owners order : List (TypeRef σ)} {t : TypeRef σ}

theorem buildLog_cons (log : TypeRef σ → List LogRecord) (t : TypeRef σ) (r : LogRecord)
    (records : List LogRecord) :
    buildLog log (t :: order) (r :: records) = log t ++ r :: buildLog log order records := by
  rw [buildLog, List.zip_cons_cons, List.flatMap_cons, List.append_assoc]
  rfl

theorem claim_of_find?_none (h : owners.find? (·.schemaName == t.schemaName) = none) :
    claim owners t = owners ++ [t] := by
  rw [claim, if_neg]
  rw [List.any_eq_true]
  rintro ⟨u, hu, hname⟩
  exact List.find?_eq_none.mp h u hu hname

theorem claim_of_find?_some {owner : TypeRef σ}
    (h : owners.find? (·.schemaName == t.schemaName) = some owner) : claim owners t = owners := by
  have hname := List.find?_some (p := fun u : TypeRef σ ↦ u.schemaName == t.schemaName) h
  rw [claim, if_pos]
  exact List.any_eq_true.mpr ⟨owner, List.mem_of_find?_eq_some h, hname⟩

theorem count_warnings (owners order : List (TypeRef σ)) :
    (filingRecords owners order).countP (·.level == .warning) + (order.foldl claim owners).length =
      owners.length + order.length := by
  induction order generalizing owners with
  | nil => exact Nat.zero_add _
  | cons t order ih =>
    rw [filingRecords, List.countP_cons, List.foldl_cons, List.length_cons]
    have hrest := ih (claim owners t)
    cases h : owners.find? (·.schemaName == t.schemaName) with
    | none =>
      have hlevel : (filingRecord owners t).level = .debug := by rw [filingRecord, h]
      rw [claim_of_find?_none h, List.length_append, List.length_singleton] at hrest
      rw [claim_of_find?_none h, hlevel, if_neg (by decide)]
      omega
    | some owner =>
      have hlevel : (filingRecord owners t).level = .warning := by rw [filingRecord, h]
      rw [claim_of_find?_some h] at hrest
      rw [claim_of_find?_some h, hlevel, if_pos (by decide)]
      omega

theorem prefix_foldl_claim (owners order : List (TypeRef σ)) :
    owners <+: order.foldl claim owners :=
  prefix_foldl_unless (fun (owners : List (TypeRef σ)) t ↦
    owners.any (·.schemaName == t.schemaName)) owners order

theorem mem_of_mem_foldl_claim (h : t ∈ order.foldl claim owners) : t ∈ owners ∨ t ∈ order :=
  mem_of_mem_foldl_unless h

theorem mem_of_mem_leaders (h : t ∈ leaders order) : t ∈ order :=
  (mem_of_mem_foldl_claim h).resolve_left List.not_mem_nil

theorem exists_owner (owners : List (TypeRef σ)) (t : TypeRef σ) :
    ∃ u ∈ claim owners t, u.schemaName = t.schemaName := by
  cases h : owners.find? (·.schemaName == t.schemaName) with
  | none =>
    rw [claim_of_find?_none h]
    exact ⟨t, List.mem_append_right owners List.mem_cons_self, rfl⟩
  | some owner =>
    rw [claim_of_find?_some h]
    have hname := List.find?_some (p := fun u : TypeRef σ ↦ u.schemaName == t.schemaName) h
    exact ⟨owner, List.mem_of_find?_eq_some h, beq_iff_eq.mp hname⟩

theorem exists_leader (h : t ∈ order) : ∃ u ∈ leaders order, u.schemaName = t.schemaName := by
  obtain ⟨before, after, rfl⟩ := List.append_of_mem h
  obtain ⟨u, hu, hname⟩ := exists_owner (leaders before) t
  refine ⟨u, ?_, hname⟩
  rw [leaders, List.foldl_append]
  exact (prefix_foldl_claim _ after).subset hu

theorem nodup_leaders (order : List (TypeRef σ)) : ((leaders order).map (·.schemaName)).Nodup := by
  have hclaim : ∀ owners : List (TypeRef σ), (owners.map (·.schemaName)).Nodup →
      ((order.foldl claim owners).map (·.schemaName)).Nodup := by
    induction order with
    | nil => exact fun _ h ↦ h
    | cons t order ih =>
      intro owners h
      refine ih (claim owners t) ?_
      rw [claim]
      by_cases ht : owners.any (·.schemaName == t.schemaName)
      · rw [if_pos ht]
        exact h
      · rw [if_neg ht, List.map_append]
        refine List.nodup_append.mpr ⟨h, List.pairwise_singleton _ _, ?_⟩
        rintro name hname name' hname' rfl
        obtain ⟨u, hu, rfl⟩ := List.mem_map.mp hname
        refine ht (List.any_eq_true.mpr ⟨u, hu, beq_iff_eq.mpr ?_⟩)
        exact List.mem_singleton.mp hname'
  exact hclaim [] List.nodup_nil

end Filing

/-! ## A run of the queue -/

/-- The state of resolution when some types have been built and others are queued. -/
def progress (node : TypeRef σ → Node σ) (built pending : List (TypeRef σ)) : Progress σ where
  schemas := definitions node (leaders built)
  owners := (leaders built).map fun u ↦ (u.schemaName, u)
  seen := built ++ pending
  pending := pending

section Run

variable {node : TypeRef σ → Node σ} {built pending roots order : List (TypeRef σ)} {t : TypeRef σ}

theorem enqueue_progress (types : List (TypeRef σ)) :
    ∃ pending', (progress node built pending).enqueue types = progress node built pending' ∧
      built ++ pending' = union (built ++ pending) types := by
  rw [Progress.enqueue, union]
  induction types generalizing pending with
  | nil => exact ⟨pending, rfl, rfl⟩
  | cons t types ih =>
    rw [List.foldl_cons, List.foldl_cons, insertNew]
    by_cases ht : (built ++ pending).contains t
    · rw [if_pos ht, if_pos (show (progress node built pending).seen.contains t from ht)]
      exact ih
    · obtain ⟨pending', henqueue, hunion⟩ := @ih (pending ++ [t])
      rw [if_neg ht, if_neg (show ¬ (progress node built pending).seen.contains t from ht),
        List.append_assoc]
      refine ⟨pending', ?_, hunion⟩
      rw [← henqueue, progress, progress, List.append_assoc]

theorem leaders_concat : leaders (built ++ [t]) = claim (leaders built) t := by
  rw [leaders, List.foldl_append]
  rfl

theorem file_progress (h : Distinct (built ++ t :: pending)) :
    Progress.file { progress node built (t :: pending) with pending := pending } t
        (node t).schema =
      ⟨.ok (progress node (built ++ [t]) pending), [filingRecord (leaders built) t]⟩ := by
  have hfind : (progress node built (t :: pending)).owners.find? (·.1 == t.schemaName) =
      ((leaders built).find? (·.schemaName == t.schemaName)).map fun u ↦ (u.schemaName, u) := by
    rw [progress, List.find?_map]
    rfl
  have hseen : built ++ t :: pending = (built ++ [t]) ++ pending := by simp
  -- the type is filed under its name unless a type that came before it has the name
  rw [Progress.file]
  dsimp only
  rw [hfind, filingRecord]
  cases hclaim : (leaders built).find? (·.schemaName == t.schemaName) with
  | none =>
    rw [progress, progress, leaders_concat, claim_of_find?_none hclaim, ← hseen, definitions,
      definitions, List.map_append, List.map_append]
    rfl
  | some owner =>
    have howner : owner ∈ built :=
      mem_of_mem_leaders (List.mem_of_find?_eq_some hclaim)
    have hne : owner != t := by
      rw [bne, (List.pairwise_append.mp h).2.2 owner howner t List.mem_cons_self]
      rfl
    rw [progress, progress, leaders_concat, claim_of_find?_some hclaim, ← hseen]
    dsimp only [Option.map]
    rw [if_pos hne]
    rfl

/-- What is queued comes next in the order of arrival. -/
theorem prefix_of_arrivals {references : TypeRef σ → List (TypeRef σ)} {rest : List (TypeRef σ)}
    (horder : built ++ rest = arrivals references roots (built ++ rest).length)
    (hpending : built ++ pending = arrivals references roots built.length) :
    pending <+: rest := by
  refine (List.prefix_append_right_inj built).mp ?_
  rw [hpending, horder]
  refine prefix_arrivals_of_le ?_
  rw [List.length_append]
  exact Nat.le_add_right _ _

theorem ne_nil_of_arrivals {references : TypeRef σ → List (TypeRef σ)} {rest : List (TypeRef σ)}
    (horder : built ++ t :: rest = arrivals references roots (built ++ t :: rest).length)
    (hpending : built ++ pending = arrivals references roots built.length) : pending ≠ [] := by
  rintro rfl
  rw [List.append_nil] at hpending
  -- with nothing queued nothing arrives any more
  have hstop : arrivals references roots (built ++ t :: rest).length = built := by
    rw [@arrivals_of_length_le _ references roots built.length _ (by simp [← hpending]) (by simp),
      ← hpending]
  rw [← horder] at hstop
  exact absurd (congrArg List.length hstop) (by simp)

/-- One round: the type that comes next is built and filed, and what it references is queued. -/
theorem resolve_succ {define : TypeRef σ → Traced (Node σ)} {log : List LogRecord} {rounds : Nat}
    {next : Progress σ} (hdefine : define t = ⟨.ok (node t), log⟩)
    (hdistinct : Distinct (built ++ t :: pending))
    (hnext : (progress node (built ++ [t]) pending).enqueue (sortByText ((node t).references.filter
      (!(progress node (built ++ [t]) pending).seen.contains ·))) = next) :
    resolve define (rounds + 1) (progress node built (t :: pending)) =
      ⟨(resolve define rounds next).outcome,
        log ++ (filingRecord (leaders built) t :: (resolve define rounds next).log)⟩ := by
  rw [← hnext]
  change (define t >>= fun n ↦
    Progress.file { progress node built (t :: pending) with pending := pending } t n.schema >>=
      fun p ↦ resolve define rounds (p.enqueue
        (sortByText (n.references.filter (!p.seen.contains ·))))) = _
  rw [hdefine, ok_bind, file_progress hdistinct, ok_bind]
  rfl

/-- Queueing what a built type references takes the order of arrival one step further. -/
theorem exists_enqueue_of_arrivals
    (hpending : built ++ t :: pending =
      arrivals (fun t ↦ (node t).references) roots built.length) :
    ∃ pending', (progress node (built ++ [t]) pending).enqueue
        (sortByText ((node t).references.filter
          (!(progress node (built ++ [t]) pending).seen.contains ·))) =
        progress node (built ++ [t]) pending' ∧
      (built ++ [t]) ++ pending' =
        arrivals (fun t ↦ (node t).references) roots (built ++ [t]).length := by
  have htaken : (arrivals (fun t ↦ (node t).references) roots built.length)[built.length]? =
      some t := by
    rw [← hpending, List.getElem?_append_right (Nat.le_refl _), Nat.sub_self]
    rfl
  have hseen : (built ++ [t]) ++ pending =
      arrivals (fun t ↦ (node t).references) roots built.length := by
    rw [← hpending, List.append_assoc, List.singleton_append]
  obtain ⟨pending', henqueue, hunion⟩ := @enqueue_progress _ node (built ++ [t]) pending
    (sortByText ((node t).references.filter
      (!(progress node (built ++ [t]) pending).seen.contains ·)))
  refine ⟨pending', henqueue, ?_⟩
  rw [hunion, List.length_append, List.length_singleton, arrivals_succ_of_some htaken, ← hseen]
  rfl

/-- **A run of the queue.** What is left of the order of arrival is built, and nothing else. -/
theorem resolve_progress {define : TypeRef σ → Traced (Node σ)} {log : TypeRef σ → List LogRecord}
    {rest : List (TypeRef σ)} {rounds : Nat}
    (hdefine : ∀ t ∈ rest, define t = ⟨.ok (node t), log t⟩)
    (horder : built ++ rest =
      arrivals (fun t ↦ (node t).references) roots (built ++ rest).length)
    (hpending : built ++ pending = arrivals (fun t ↦ (node t).references) roots built.length)
    (hrounds : rest.length ≤ rounds) :
    resolve define rounds (progress node built pending) =
      ⟨.ok (definitions node (leaders (built ++ rest))),
        buildLog log rest (filingRecords (leaders built) rest)⟩ := by
  have hprefix := prefix_of_arrivals horder hpending
  induction rest generalizing built pending rounds with
  | nil =>
    obtain rfl := List.prefix_nil.mp hprefix
    rw [List.append_nil, resolve, progress]
    rfl
  | cons t rest ih =>
    -- the queue is not empty while an arrival is left, and its front is the next one
    obtain ⟨u, pending, rfl⟩ := List.exists_cons_of_ne_nil (ne_nil_of_arrivals horder hpending)
    obtain rfl : u = t := (List.cons_prefix_cons.mp hprefix).1
    obtain ⟨rounds, rfl⟩ : ∃ r, rounds = r + 1 := by
      cases rounds with
      | zero => simp at hrounds
      | succ r => exact ⟨r, rfl⟩
    have hdistinct : Distinct (built ++ u :: pending) := by
      rw [hpending]
      exact distinct_arrivals _
    have hassoc : ∀ l, built ++ u :: l = (built ++ [u]) ++ l := by simp
    obtain ⟨pending', henqueue, hpending'⟩ := exists_enqueue_of_arrivals hpending
    rw [hassoc] at horder
    have hrest := ih (fun t ht ↦ hdefine t (List.mem_cons_of_mem u ht)) horder hpending'
      (Nat.le_of_succ_le_succ hrounds) (prefix_of_arrivals horder hpending')
    rw [resolve_succ (hdefine u List.mem_cons_self) hdistinct henqueue, hrest, hassoc rest,
      leaders_concat, filingRecords, buildLog_cons]

end Run

/-! ## Closure -/

/-- The types reached from the roots, each once and in the order of arrival, with their nodes. -/
structure ArrivalOrder (g : Generator σ) (inline : Bool) (roots order : List (TypeRef σ))
    (node : TypeRef σ → Node σ) : Prop where
  arrival : order = arrivals (fun t ↦ (node t).references) roots order.length
  once : Distinct order
  reached : ∀ t ∈ order, g.Reached inline roots t
  builds : ∀ t ∈ order, g.Builds inline t (node t)
  complete : ∀ t, g.Reached inline roots t → order.contains t

section Closure

variable {g : Generator σ} {inline : Bool} {roots order : List (TypeRef σ)}
  {node : TypeRef σ → Node σ}

theorem builds_unique {t : TypeRef σ} {a b : Node σ} (ha : g.Builds inline t a)
    (hb : g.Builds inline t b) : a = b :=
  Generator.Renders.unique ha hb

theorem reached_of_mem_arrivals
    (hnode : ∀ t, g.Reached inline roots t → g.Builds inline t (node t)) (n : Nat) :
    ∀ t ∈ arrivals (fun t ↦ (node t).references) roots n, g.Reached inline roots t :=
  arrivals_induction (fun _ ht ↦ .root ht) (fun t ht _ hu ↦ .step ht (hnode t ht) hu) n

theorem exists_arrivalOrder
    (hfinite : ∃ bound : List (TypeRef σ), ∀ t, g.Reached inline roots t → bound.contains t)
    (hnode : ∀ t, g.Reached inline roots t → g.Builds inline t (node t))
    (hsame : ∀ t u, g.Reached inline roots t → g.Reached inline roots u → t == u →
      ∀ v, (node t).references.contains v = (node u).references.contains v) :
    ∃ order, ArrivalOrder g inline roots order node := by
  obtain ⟨bound, hbound⟩ := hfinite
  let references := fun t ↦ (node t).references
  -- the arrivals are different and can be reached, so their number is bounded
  have hlength : ∀ n, (arrivals references roots n).length ≤ bound.length := fun n ↦
    (distinct_arrivals n).length_le fun t ht ↦ hbound t (reached_of_mem_arrivals hnode n t ht)
  let order := arrivals references roots bound.length
  have harrival : order = arrivals references roots order.length := by
    refine arrivals_of_length_le ?_ (hlength _)
    exact (prefix_arrivals_of_le (hlength _)).length_le
  refine ⟨order, harrival, distinct_arrivals _, reached_of_mem_arrivals hnode _,
    fun t ht ↦ hnode t (reached_of_mem_arrivals hnode _ t ht), fun t ht ↦ ?_⟩
  induction ht with
  | root h => exact contains_arrivals_of_root h _
  | @step t u nodeT ht hbuilds hu ih =>
    -- it may be another reference to the same type that arrived and was built
    obtain ⟨t', ht', htt'⟩ := List.contains_iff_exists_mem_beq.mp ih
    have hreached := reached_of_mem_arrivals hnode _ t' ht'
    obtain rfl := builds_unique (hnode t ht) hbuilds
    refine contains_of_arrivals (hlength _) ht' ?_
    rw [← hsame t t' ht hreached htt']
    exact contains_of_mem hu

theorem exists_budget_of_builds (h : ∀ t ∈ order, g.Builds inline t (node t)) :
    ∃ enough, ∀ budget, enough ≤ budget → ∀ t ∈ order,
      (g.build budget t inline).Returns (node t) := by
  induction order with
  | nil => exact ⟨0, fun _ _ t ht ↦ absurd ht List.not_mem_nil⟩
  | cons u order ih =>
    obtain ⟨⟨b, hb⟩, horder⟩ := List.forall_mem_cons.mp h
    obtain ⟨b', hb'⟩ := ih horder
    refine ⟨max b b', fun budget hle ↦ List.forall_mem_cons.mpr ⟨?_, fun t ht ↦ ?_⟩⟩
    · exact Generator.returns_render_of_le (Nat.le_trans (Nat.le_max_left b b') hle) hb
    · exact hb' budget (Nat.le_trans (Nat.le_max_right b b') hle) t ht

/-- Resolution builds the types in the order of arrival and files them under their names. -/
theorem build_eq_of_arrivalOrder (horder : ArrivalOrder g inline roots order node) {budget : Nat}
    (hbudget : order.length ≤ budget)
    (hbuild : ∀ t ∈ order, (g.build budget t inline).Returns (node t)) :
    build g budget inline roots =
      ⟨.ok (definitions node (leaders order)),
        buildLog (fun t ↦ (g.build budget t inline).log) order (filingRecords [] order)⟩ := by
  obtain ⟨pending, henqueue, hpending⟩ := @enqueue_progress _ node [] [] roots
  have hdefine : ∀ t ∈ order, g.build budget t inline =
      ⟨.ok (node t), (g.build budget t inline).log⟩ := by
    intro t ht
    rw [← show (g.build budget t inline).outcome = .ok (node t) from hbuild t ht]
  rw [build, show ({} : Progress σ) = progress node [] [] from rfl, henqueue]
  exact resolve_progress hdefine horder.arrival hpending hbudget

theorem named_leaders_iff (horder : ArrivalOrder g inline roots order node) {name : String} :
    Named (leaders order) name ↔ ∃ t, g.Reached inline roots t ∧ t.schemaName = name := by
  constructor
  · rintro ⟨u, hu, hname⟩
    exact ⟨u, horder.reached u (mem_of_mem_leaders hu), hname⟩
  · rintro ⟨t, ht, rfl⟩
    obtain ⟨u, hu, htu⟩ := List.contains_iff_exists_mem_beq.mp (horder.complete t ht)
    obtain ⟨v, hv, hname⟩ := exists_leader hu
    exact ⟨v, hv, hname.trans (schemaName_eq_of_beq htu).symm⟩

/-- Every reference in a definition names a definition. -/
theorem named_leaders_of_emits (horder : ArrivalOrder g inline roots order node)
    (hbuiltins : g.settings.BuiltinsOnly) (havoid : g.host.ExtensionsAvoid reservedKeys)
    {u : TypeRef σ} (hu : u ∈ leaders order) {s : String} (hs : Emits (node u).schema s) :
    ∃ name, Named (leaders order) name ∧ s = g.settings.refPrefix ++ name := by
  have hbuilds := horder.builds u (mem_of_mem_leaders hu)
  have hmatches := Generator.Renders.matches hbuiltins havoid hbuilds trivial
  obtain ⟨name, ⟨t, ht, rfl⟩, rfl⟩ := (hmatches s).mp hs
  refine ⟨t.schemaName, (named_leaders_iff horder).mpr ⟨t, ?_, rfl⟩, rfl⟩
  exact .step (horder.reached u (mem_of_mem_leaders hu)) hbuilds ht

/-- **Resolution is closed.** When the reach of the roots is finite, every reached type can be built
and types that are the same reference the same types, resolution builds every reached type once, in
the order of arrival, and files it under its name unless the name is taken; each type that loses its
name leaves a warning, and no reference leads out of the definitions. -/
theorem build_closed (g : Generator σ) (inline : Bool) (roots : List (TypeRef σ))
    (hfinite : ∃ bound : List (TypeRef σ), ∀ t, g.Reached inline roots t → bound.contains t)
    (hbuilds : ∀ t, g.Reached inline roots t → ∃ node, g.Builds inline t node)
    (hsame : ∀ t u a b, g.Reached inline roots t → g.Reached inline roots u → t == u →
      g.Builds inline t a → g.Builds inline u b →
      ∀ v, a.references.contains v = b.references.contains v) :
    ∃ (order : List (TypeRef σ)) (node : TypeRef σ → Node σ),
      ArrivalOrder g inline roots order node ∧
      (∃ enough, ∀ budget, enough ≤ budget → build g budget inline roots =
        ⟨.ok (definitions node (leaders order)),
          buildLog (fun t ↦ (g.build budget t inline).log) order (filingRecords [] order)⟩) ∧
      (filingRecords [] order).countP (·.level == .warning) =
        order.length - (leaders order).length ∧
      ((leaders order).map (·.schemaName)).Nodup ∧
      (∀ name, Named (leaders order) name ↔
        ∃ t, g.Reached inline roots t ∧ t.schemaName = name) ∧
      (g.settings.BuiltinsOnly → g.host.ExtensionsAvoid reservedKeys →
        ∀ u ∈ leaders order, ∀ s, Emits (node u).schema s →
          ∃ name, Named (leaders order) name ∧ s = g.settings.refPrefix ++ name) := by
  choose! node hnode using hbuilds
  obtain ⟨order, horder⟩ := exists_arrivalOrder hfinite hnode fun t u ht hu htu ↦
    hsame t u (node t) (node u) ht hu htu (hnode t ht) (hnode u hu)
  obtain ⟨enough, henough⟩ := exists_budget_of_builds horder.builds
  refine ⟨order, node, horder, ⟨max order.length enough, fun budget hle ↦ ?_⟩, ?_,
    nodup_leaders order, fun name ↦ named_leaders_iff horder,
    fun hbuiltins havoid u hu s hs ↦ named_leaders_of_emits horder hbuiltins havoid hu hs⟩
  · exact build_eq_of_arrivalOrder horder (Nat.le_trans (Nat.le_max_left _ _) hle)
      (henough budget (Nat.le_trans (Nat.le_max_right _ _) hle))
  · have hcount := count_warnings [] order
    rw [List.length_nil, Nat.zero_add] at hcount
    exact Nat.eq_sub_of_add_eq hcount

theorem references_of_builds {t : TypeRef σ} {a : Node σ} {s : List (TypeRef σ)}
    (h : ∃ b, g.Builds inline t b ∧ b.references = s) (ha : g.Builds inline t a) :
    a.references = s := by
  obtain ⟨b, hb, hs⟩ := h
  rw [builds_unique ha hb, hs]

theorem builds_shelf : ∃ node, Shelves.generator.Builds false Shelves.shelf node ∧
    node.references = [Shelves.book] := ⟨_, ⟨9, rfl⟩, rfl⟩

theorem builds_book : ∃ node, Shelves.generator.Builds false Shelves.book node ∧
    node.references = [Shelves.shelf] := ⟨_, ⟨9, rfl⟩, rfl⟩

theorem reached_shelves {t : TypeRef Unit}
    (h : Shelves.generator.Reached false [Shelves.shelf] t) :
    t = Shelves.shelf ∨ t = Shelves.book := by
  induction h with
  | root h => exact .inl (List.mem_singleton.mp h)
  | step _ hnode hu ih =>
    rcases ih with rfl | rfl
    · rw [references_of_builds builds_shelf hnode] at hu
      exact .inr (List.mem_singleton.mp hu)
    · rw [references_of_builds builds_book hnode] at hu
      exact .inl (List.mem_singleton.mp hu)

/-- A shelf and its books enclose each other, and are both defined. -/
theorem build_closed_shelves :
    (∀ t, Shelves.generator.Reached false [Shelves.shelf] t →
      [Shelves.shelf, Shelves.book].contains t) ∧
    ∃ (order : List (TypeRef Unit)) (node : TypeRef Unit → Node Unit),
      ArrivalOrder Shelves.generator false [Shelves.shelf] order node ∧
      Named (leaders order) "Shelf" ∧ Named (leaders order) "Book" := by
  have hfinite : ∀ t, Shelves.generator.Reached false [Shelves.shelf] t →
      [Shelves.shelf, Shelves.book].contains t := by
    intro t ht
    rcases reached_shelves ht with rfl | rfl <;> rfl
  have hbuilds : ∀ t, Shelves.generator.Reached false [Shelves.shelf] t →
      ∃ node, Shelves.generator.Builds false t node := by
    intro t ht
    rcases reached_shelves ht with rfl | rfl
    · exact ⟨_, 9, rfl⟩
    · exact ⟨_, 9, rfl⟩
  have hshelf : Shelves.generator.Reached false [Shelves.shelf] Shelves.shelf :=
    .root List.mem_cons_self
  obtain ⟨shelf, hshelfNode, hshelfReferences⟩ := builds_shelf
  have hbook : Shelves.generator.Reached false [Shelves.shelf] Shelves.book :=
    .step hshelf hshelfNode (by rw [hshelfReferences]; exact List.mem_cons_self)
  obtain ⟨order, node, horder, -, -, -, hnamed, -⟩ := build_closed Shelves.generator false
    [Shelves.shelf] ⟨_, hfinite⟩ hbuilds fun t u a b ht hu htu ha hb v ↦ by
      have heq : t = u := by
        rcases reached_shelves ht with rfl | rfl <;> rcases reached_shelves hu with rfl | rfl
        · rfl
        · exact absurd htu (by decide)
        · exact absurd htu (by decide)
        · rfl
      subst heq
      rw [builds_unique ha hb]
  exact ⟨hfinite, order, node, horder, (hnamed "Shelf").mpr ⟨_, hshelf, rfl⟩,
    (hnamed "Book").mpr ⟨_, hbook, rfl⟩⟩

end Closure

end Components

/-! ## Types that are the same and reference different types -/

namespace Handles

/-- A type known by one name and two handles. -/
def box (handle : Bool) : TypeRef Bool :=
  { fullName := "app.Box", simpleName := "Box", source := some handle }

/-- What only one of the handles leads to. -/
def content : TypeRef Bool := { fullName := "app.Content", simpleName := "Content" }

/-- A host that answers by handle. -/
def host : Host Bool where
  members _ := pure []
  tags _ := pure []
  customProperties t := pure (if t.source = some true then [⟨"content", content⟩] else [])
  isAssignable _ _ := pure false
  isRecord _ := pure false
  isBaseMember _ := false

/-- The generator with the usual settings. -/
def generator : Generator Bool := { host }

theorem builds_box_false : ∃ node, generator.Builds false (box false) node ∧
    node.references = [] := ⟨_, ⟨9, rfl⟩, rfl⟩

theorem builds_box_true : ∃ node, generator.Builds false (box true) node ∧
    node.references = [content] := ⟨_, ⟨9, rfl⟩, rfl⟩

theorem builds_content : ∃ node, generator.Builds false content node ∧
    node.references = [] := ⟨_, ⟨9, rfl⟩, rfl⟩

theorem reached_cases {t : TypeRef Bool}
    (h : generator.Reached false [box false, box true] t) :
    t = box false ∨ t = box true ∨ t = content := by
  induction h with
  | root h =>
    rcases List.mem_cons.mp h with rfl | h
    · exact .inl rfl
    · exact .inr (.inl (List.mem_singleton.mp h))
  | step _ hnode hu ih =>
    rcases ih with rfl | rfl | rfl
    · rw [Components.references_of_builds builds_box_false hnode] at hu
      exact absurd hu List.not_mem_nil
    · rw [Components.references_of_builds builds_box_true hnode] at hu
      exact .inr (.inr (List.mem_singleton.mp hu))
    · rw [Components.references_of_builds builds_content hnode] at hu
      exact absurd hu List.not_mem_nil

theorem returns_build (budget : Nat) : ∃ entries,
    (Components.build generator (budget + 1) false [box false, box true]).Returns entries ∧
      entries.map (·.1.text) = ["Box"] := by
  have hbox : ∃ node, (generator.build (budget + 1) (box false) false).Returns node ∧
      node.references = [] := ⟨_, rfl, rfl⟩
  obtain ⟨node, hnode, hreferences⟩ := hbox
  have harrivals : Components.arrivals (fun _ ↦ node.references) [box false, box true] 1 =
      [box false] := by
    have hzero : (Components.arrivals (fun _ ↦ node.references)
        [box false, box true] 0)[0]? = some (box false) := rfl
    rw [Components.arrivals_succ_of_some hzero, hreferences, List.filter_nil, sortByText,
      List.mergeSort_nil]
    rfl
  have hrun := @Components.resolve_progress _ (fun _ ↦ node) [] [box false]
    [box false, box true] (fun t ↦ generator.build (budget + 1) t false)
    (fun t ↦ (generator.build (budget + 1) t false).log) [box false] (budget + 1)
    (fun t ht ↦ by
      rw [List.mem_singleton.mp ht,
        ← show (generator.build (budget + 1) (box false) false).outcome = .ok node from hnode])
    harrivals.symm rfl (Nat.le_add_left 1 budget)
  exact ⟨_, congrArg Traced.outcome hrun, rfl⟩

/-- It is not enough that types that are the same are of one kind. Here everything else that closure
needs holds, and the second root, being the same type as the first one, is never built: what it
references is reached and not defined. -/
theorem not_closed_of_equal_kinds :
    generator.settings.BuiltinsOnly ∧
    (∀ t, generator.Reached false [box false, box true] t → [box true, content].contains t) ∧
    (∀ t, generator.Reached false [box false, box true] t →
      ∃ node, generator.Builds false t node) ∧
    (∀ t u, generator.Reached false [box false, box true] t →
      generator.Reached false [box false, box true] u → t == u → t.kind = u.kind) ∧
    generator.Reached false [box false, box true] content ∧
    ∀ budget entries,
      (Components.build generator budget false [box false, box true]).Returns entries →
      entries.map (·.1.text) = ["Box"] := by
  refine ⟨?_, fun t ht ↦ ?_, fun t ht ↦ ?_, fun t u ht hu _ ↦ ?_, ?_, fun budget entries h ↦ ?_⟩
  · exact Settings.builtinsOnly_of_nil rfl
  · rcases reached_cases ht with rfl | rfl | rfl <;> rfl
  · rcases reached_cases ht with rfl | rfl | rfl
    · exact ⟨_, 9, rfl⟩
    · exact ⟨_, 9, rfl⟩
    · exact ⟨_, 9, rfl⟩
  · rcases reached_cases ht with rfl | rfl | rfl <;>
      rcases reached_cases hu with rfl | rfl | rfl <;> rfl
  · obtain ⟨node, hnode, hreferences⟩ := builds_box_true
    refine .step (.root (List.mem_cons_of_mem _ List.mem_cons_self)) hnode ?_
    rw [hreferences]
    exact List.mem_cons_self
  · cases budget with
    | zero => exact nomatch h
    | succ budget =>
      obtain ⟨built, hbuilt, hkeys⟩ := returns_build budget
      rw [h.unique hbuilt, hkeys]

end Handles

end Schemata
