import Mathlib.Data.List.TakeWhile
import Schemata.Proofs.Sources

/-!
# What filling placeholders comes to

`Placeholder.fill` cuts texts into pieces and fills the pieces. Here the result is described without
pieces. In a text, the leftmost placeholder is the first place at which a dollar sign, an opening
brace, a name and the first closing brace after it stand; what is before it stays, it is replaced,
and the text after it is filled in the same way, so that no value is looked at again
(`Placeholder.Filled`). In a tree, texts are filled where they stand, and the lists, the keys and
everything else stay (`Placeholder.Substituted`).

Filling a second time can change something, because a value can bring a placeholder with it or
complete one with the text around it. It cannot if no value is empty, has a dollar sign or begins
with a brace: what stands before a placeholder never has an opening that is still to be closed,
since the closing brace of the placeholder would close it (`Free.of_begins`).
-/

namespace Schemata

open Traced

namespace Placeholder

variable {env : Environment} {name after before cs ds out : List Char} {c : Char} {s t : String}
  {v w : Value}

/-! ## Where a placeholder begins -/

/-- A placeholder with this name begins the text, and this comes after it. The name is not empty and
ends at the first closing brace. -/
def Begins (name after cs : List Char) : Prop :=
  name ≠ [] ∧ '\x7d' ∉ name ∧ cs = '$' :: '\x7b' :: (name ++ '\x7d' :: after)

/-- No placeholder begins inside the first text when the second one follows it. -/
def Free (before cs : List Char) : Prop :=
  ∀ ds, ds <:+ before → ds ≠ [] → ∀ name after, ¬Begins name after (ds ++ cs)

theorem name?_eq_some_iff : name? cs = some (name, after) ↔
    name ≠ [] ∧ '\x7d' ∉ name ∧ cs = name ++ '\x7d' :: after := by
  constructor
  · intro h
    unfold name? at h
    split at h
    · next d first e rest htake hdrop =>
      obtain ⟨rfl, rfl⟩ := Prod.mk.inj (Option.some.inj h)
      refine ⟨List.cons_ne_nil _ _, fun hmem ↦ ?_, ?_⟩
      · rw [← htake] at hmem
        simpa using List.mem_takeWhile_imp hmem
      · have he := List.head?_dropWhile_not (· ≠ '\x7d') cs
        rw [hdrop] at he
        obtain rfl : e = '\x7d' := by simpa using he
        rw [← htake, ← hdrop, List.takeWhile_append_dropWhile]
    · exact nomatch h
  · rintro ⟨hne, hname, rfl⟩
    have hall : ∀ d ∈ name, decide (d ≠ '\x7d') = true := by
      intro d hd
      exact decide_eq_true fun h ↦ hname (h ▸ hd)
    have htake : (name ++ '\x7d' :: after).takeWhile (· ≠ '\x7d') = name := by
      rw [List.takeWhile_append_of_pos hall]
      simp
    have hdrop : (name ++ '\x7d' :: after).dropWhile (· ≠ '\x7d') = '\x7d' :: after := by
      rw [List.dropWhile_append_of_pos hall]
      simp
    obtain ⟨d, first, rfl⟩ := List.exists_cons_of_ne_nil hne
    rw [name?, htake, hdrop]

theorem begins_written (hne : name ≠ []) (hname : '\x7d' ∉ name) (after : List Char) :
    Begins name after ((written name).toList ++ after) :=
  ⟨hne, hname, by simp [written]⟩

/-- The name ends at the first closing brace, whatever else follows. -/
theorem Begins.of_append (h : Begins name after ('$' :: '\x7b' :: (ds ++ cs)))
    (hds : '\x7d' ∈ ds) : ∃ rest, Begins name rest ('$' :: '\x7b' :: ds) := by
  obtain ⟨hne, hname, h⟩ := h
  obtain ⟨first, rest, rfl, hfirst⟩ := List.eq_append_cons_of_mem hds
  rw [List.append_assoc, List.cons_append] at h
  have hcut : first ++ '\x7d' :: (rest ++ cs) = name ++ '\x7d' :: after :=
    (List.cons.inj (List.cons.inj h).2).2
  have hfirstne : first ≠ [] := by
    rintro rfl
    obtain ⟨d, name, rfl⟩ := List.exists_cons_of_ne_nil hne
    exact hname ((List.cons.inj hcut).1 ▸ List.mem_cons_self)
  have hname? : name? (name ++ '\x7d' :: after) = some (first, rest ++ cs) :=
    name?_eq_some_iff.mpr ⟨hfirstne, hfirst, hcut.symm⟩
  rw [name?_eq_some_iff.mpr ⟨hne, hname, rfl⟩] at hname?
  obtain ⟨rfl, -⟩ := Prod.mk.inj (Option.some.inj hname?)
  exact ⟨rest, hne, hname, rfl⟩

theorem Begins.append (h : Begins name after cs) (ds : List Char) :
    Begins name (after ++ ds) (cs ++ ds) := by
  obtain ⟨hne, hname, rfl⟩ := h
  exact ⟨hne, hname, by simp⟩

theorem free_nil (cs : List Char) : Free [] cs :=
  fun _ hds hne ↦ absurd (List.suffix_nil.mp hds) hne

theorem free_cons_iff :
    Free (c :: before) cs ↔ (∀ name after, ¬Begins name after (c :: (before ++ cs))) ∧
      Free before cs := by
  constructor
  · intro h
    exact ⟨h _ (List.suffix_refl _) (List.cons_ne_nil c before),
      fun ds hds ↦ h ds (hds.trans (List.suffix_cons c before))⟩
  · rintro ⟨hfirst, hrest⟩ ds hds hne
    rcases List.suffix_cons_iff.mp hds with rfl | hds
    · exact hfirst
    · exact hrest ds hds hne

theorem Free.append (hbefore : Free before (ds ++ cs)) (hds : Free ds cs) :
    Free (before ++ ds) cs := by
  induction before with
  | nil => exact hds
  | cons c before ih =>
    obtain ⟨hfirst, hbefore⟩ := free_cons_iff.mp hbefore
    rw [List.cons_append, free_cons_iff, List.append_assoc]
    exact ⟨hfirst, ih hbefore⟩

theorem free_of_not_mem (h : '$' ∉ before) (cs : List Char) : Free before cs := by
  intro ds hds hne name after hbegins
  obtain ⟨d, ds, rfl⟩ := List.exists_cons_of_ne_nil hne
  have hd : d = '$' := (List.cons.inj hbegins.2.2).1
  exact h (hd ▸ hds.subset List.mem_cons_self)

theorem Free.of_begins (h : Free before cs) (hbegins : Begins name after cs)
    (hds : ds.head? ≠ some '\x7b') : Free before ds := by
  intro suffix hsuffix hne name' after' hbegins'
  obtain ⟨-, -, heq⟩ := id hbegins'
  match suffix, hne with
  | [d], _ =>
    -- the brace of the opening would have to come from the other text
    have hhead : ds = '\x7b' :: (name' ++ '\x7d' :: after') := (List.cons.inj heq).2
    exact hds (by rw [hhead]; rfl)
  | d :: d' :: inner, _ =>
    obtain rfl : d = '$' := (List.cons.inj heq).1
    obtain rfl : d' = '\x7b' := (List.cons.inj (List.cons.inj heq).2).1
    by_cases hclosed : '\x7d' ∈ inner
    · obtain ⟨rest, hrest⟩ := hbegins'.of_append hclosed
      exact h _ hsuffix (List.cons_ne_nil _ _) _ _ (hrest.append cs)
    · -- an opening without its brace is closed by the placeholder that follows
      obtain ⟨-, hname, rfl⟩ := hbegins
      refine h _ hsuffix (List.cons_ne_nil _ _) (inner ++ '$' :: '\x7b' :: name) after ⟨?_, ?_, ?_⟩
      · exact List.append_ne_nil_of_right_ne_nil _ (List.cons_ne_nil _ _)
      · simp [hclosed, hname]
      · simp

/-! ## Filled texts -/

/-- What a placeholder stands for: the value of the variable, or the placeholder itself if the
variable is not set. -/
def standsFor (env : Environment) (name : List Char) : String :=
  (env.get? (String.ofList name)).getD (written name)

/-- The second text is the first with its placeholders replaced, from left to right. -/
inductive Filled (env : Environment) : List Char → List Char → Prop
  | free {cs : List Char} (h : Free cs []) : Filled env cs cs
  | replace {before cs name after out : List Char} (hbefore : Free before cs)
      (hbegins : Begins name after cs) (hafter : Filled env after out) :
      Filled env (before ++ cs) (before ++ ((standsFor env name).toList ++ out))

theorem Filled.append (hbefore : Free before cs) (h : Filled env cs out) :
    Filled env (before ++ cs) (before ++ out) := by
  cases h with
  | free h => exact .free (Free.append (by rwa [List.append_nil]) h)
  | replace hmiddle hbegins hafter =>
    rw [← List.append_assoc, ← List.append_assoc]
    exact .replace (hbefore.append hmiddle) hbegins hafter

/-! ### The pieces of a text -/

@[simp] theorem pieces_nil : pieces [] = [] := by
  rw [pieces]

theorem pieces_of_begins (h : Begins name after cs) :
    pieces cs = .placeholder name :: pieces after := by
  obtain ⟨hne, hname, rfl⟩ := h
  have hname? : name? (name ++ '\x7d' :: after) = some (name, after) :=
    name?_eq_some_iff.mpr ⟨hne, hname, rfl⟩
  rw [pieces]
  split
  · next hsome =>
    rw [hname?] at hsome
    obtain ⟨rfl, rfl⟩ := Prod.mk.inj (Option.some.inj hsome)
    rfl
  · next hnone => exact absurd (hname?.symm.trans hnone) (Option.some_ne_none _)

theorem pieces_cons (h : ∀ name after, ¬Begins name after (c :: cs)) :
    pieces (c :: cs) = .char c :: pieces cs := by
  rw [pieces.eq_def]
  split
  · next heq => exact absurd heq (List.cons_ne_nil c cs)
  · next ds heq =>
    obtain ⟨rfl, rfl⟩ := List.cons.inj heq
    split
    · next name after hsome =>
      obtain ⟨hne, hname, rfl⟩ := name?_eq_some_iff.mp hsome
      exact absurd ⟨hne, hname, rfl⟩ (h name after)
    · rfl
  · next heq =>
    obtain ⟨rfl, rfl⟩ := List.cons.inj heq
    rfl

theorem pieces_append (h : Free before cs) :
    pieces (before ++ cs) = before.map .char ++ pieces cs := by
  induction before with
  | nil => rfl
  | cons c before ih =>
    obtain ⟨hfirst, hbefore⟩ := free_cons_iff.mp h
    rw [List.cons_append, pieces_cons hfirst, ih hbefore]
    rfl

/-- What a piece stands for. -/
def spelledPiece (env : Environment) : Piece → String
  | .char c => String.singleton c
  | .placeholder name => standsFor env name

/-- What several pieces stand for together. -/
def spelled (env : Environment) (ps : List Piece) : List Char :=
  ps.flatMap fun p ↦ (spelledPiece env p).toList

@[simp] theorem spelled_nil : spelled env [] = [] := rfl

@[simp] theorem spelled_cons (p : Piece) (ps : List Piece) :
    spelled env (p :: ps) = (spelledPiece env p).toList ++ spelled env ps :=
  List.flatMap_cons

theorem spelled_append_chars (before : List Char) (ps : List Piece) :
    spelled env (before.map .char ++ ps) = before ++ spelled env ps := by
  induction before with
  | nil => rfl
  | cons c before ih =>
    rw [List.map_cons, List.cons_append, spelled_cons, ih, spelledPiece, String.toList_singleton]
    rfl

theorem returns_fillPiece (p : Piece) : (fillPiece env p).Returns (spelledPiece env p) := by
  cases p with
  | char c => rfl
  | placeholder name =>
    rw [fillPiece, spelledPiece, standsFor]
    cases env.get? (String.ofList name) <;> rfl

theorem returns_fillPieces (ps : List Piece) :
    (fillPieces env ps).Returns (String.ofList (spelled env ps)) := by
  induction ps with
  | nil => rfl
  | cons p ps ih =>
    refine returns_bind.mpr ⟨_, returns_fillPiece p, returns_bind.mpr ⟨_, ih, ?_⟩⟩
    rw [returns_pure, spelled_cons, String.ofList_append, String.ofList_toList]

theorem filled_spelled (env : Environment) (cs : List Char) :
    Filled env cs (spelled env (pieces cs)) := by
  induction hlength : cs.length using Nat.strong_induction_on generalizing cs with
  | _ n ih =>
    by_cases hbegins : ∃ name after, Begins name after cs
    · obtain ⟨name, after, hbegins⟩ := hbegins
      have hshort : after.length < n := by
        obtain ⟨-, -, rfl⟩ := hbegins
        simp only [← hlength, List.length_cons, List.length_append]
        omega
      rw [pieces_of_begins hbegins]
      exact .replace (free_nil cs) hbegins (ih _ hshort after rfl)
    · cases cs with
      | nil =>
        rw [pieces_nil]
        exact .free (free_nil [])
      | cons c cs =>
        have hnot : ∀ name after, ¬Begins name after (c :: cs) :=
          fun name after h ↦ hbegins ⟨name, after, h⟩
        have hshort : cs.length < n := by
          rw [← hlength]
          exact Nat.lt_succ_self _
        rw [pieces_cons hnot, spelled_cons, spelledPiece, String.toList_singleton]
        exact (ih _ hshort cs rfl).append (free_cons_iff.mpr ⟨hnot, free_nil cs⟩)

/-- There is one way only to replace the placeholders of a text. -/
theorem Filled.eq_spelled (h : Filled env cs out) : out = spelled env (pieces cs) := by
  induction h with
  | @free cs h =>
    have hpieces := pieces_append h
    rw [List.append_nil] at hpieces
    rw [hpieces, spelled_append_chars, pieces_nil, spelled_nil, List.append_nil]
  | replace hbefore hbegins _ ih =>
    rw [pieces_append hbefore, spelled_append_chars, pieces_of_begins hbegins, spelled_cons, ih,
      spelledPiece]

theorem returns_fillText_iff :
    (fillText env s).Returns t ↔ Filled env s.toList t.toList := by
  constructor
  · intro h
    rw [← Returns.unique (returns_fillPieces (pieces s.toList)) h, String.toList_ofList]
    exact filled_spelled env s.toList
  · intro h
    rw [← String.ofList_toList (s := t), h.eq_spelled]
    exact returns_fillPieces _

theorem returns_fillText_written (hne : name ≠ []) (hname : '\x7d' ∉ name) :
    (fillText env (written name)).Returns (standsFor env name) := by
  have hpieces := pieces_of_begins (begins_written hne hname [])
  rw [List.append_nil, pieces_nil] at hpieces
  have hreturns : (fillText env (written name)).Returns
      (String.ofList (spelled env (pieces (written name).toList))) := returns_fillPieces _
  rwa [hpieces, spelled_cons, spelled_nil, List.append_nil, String.ofList_toList] at hreturns

/-! ### Filling a second time -/

/-- The value cannot be part of a placeholder. -/
structure Inert (value : String) : Prop where
  ne_empty : value ≠ ""
  not_mem : ∀ c ∈ value.toList, c ≠ '$' ∧ c ≠ '\x7b' ∧ c ≠ '\x7d'

/-- Every variable has a value that cannot be part of a placeholder. -/
def AllInert (env : Environment) : Prop := ∀ name value, env.get? name = some value → Inert value

/-- **A filled text stays as it is.** -/
theorem Filled.again (henv : AllInert env) (h : Filled env cs out) : Filled env out out := by
  induction h with
  | free h => exact .free h
  | @replace before cs name after out hbefore hbegins _ ih =>
    cases hvalue : env.get? (String.ofList name) with
    | none =>
      have hstands : standsFor env name = written name := by rw [standsFor, hvalue]; rfl
      have hwritten := begins_written hbegins.1 hbegins.2.1 out
      have hfilled := Filled.replace (hbefore.of_begins hbegins (by simp [written])) hwritten ih
      rwa [hstands] at hfilled ⊢
    | some value =>
      have hstands : standsFor env name = value := by rw [standsFor, hvalue]; rfl
      obtain ⟨hne, hmem⟩ := henv _ value hvalue
      have hfree : Free value.toList out := free_of_not_mem (fun h ↦ (hmem '$' h).1 rfl) out
      obtain ⟨d, ds, hvalue⟩ := List.exists_cons_of_ne_nil (mt String.toList_eq_nil_iff.mp hne)
      have hhead : (value.toList ++ out).head? ≠ some '\x7b' := by
        rw [hvalue] at hmem ⊢
        intro h
        exact (hmem d List.mem_cons_self).2.1 (Option.some.inj h)
      rw [hstands]
      exact (ih.append hfree).append (hbefore.of_begins hbegins hhead)

/-! ## Filled trees -/

/-- The value is neither a text nor a list nor a mapping. -/
def Stays : Value → Prop
  | .str _ | .list _ | .map _ => False
  | _ => True

/-- The second tree is the first with its texts filled. A list has as many items as before, and a
mapping has the same keys in the same order. -/
inductive Substituted (env : Environment) : Value → Value → Prop
  | str {s t : String} (h : Filled env s.toList t.toList) : Substituted env (.str s) (.str t)
  | list {vs ws : List Value} (h : List.Forall₂ (Substituted env) vs ws) :
      Substituted env (.list vs) (.list ws)
  | map {es fs : List (Value × Value)} (hkeys : fs.map (·.1) = es.map (·.1))
      (hvalues : List.Forall₂ (Substituted env) (es.map (·.2)) (fs.map (·.2))) :
      Substituted env (.map es) (.map fs)
  | other {v : Value} (h : Stays v) : Substituted env v v

theorem substituted_str_iff :
    Substituted env (.str s) w ↔ ∃ t, Filled env s.toList t.toList ∧ .str t = w := by
  constructor
  · rintro (h | - | - | h)
    · exact ⟨_, h, rfl⟩
    · exact h.elim
  · rintro ⟨t, h, rfl⟩
    exact .str h

theorem substituted_list_iff {vs : List Value} :
    Substituted env (.list vs) w ↔ ∃ ws, List.Forall₂ (Substituted env) vs ws ∧ .list ws = w := by
  constructor
  · rintro (- | h | - | h)
    · exact ⟨_, h, rfl⟩
    · exact h.elim
  · rintro ⟨ws, h, rfl⟩
    exact .list h

theorem substituted_map_iff {es : List (Value × Value)} :
    Substituted env (.map es) w ↔ ∃ fs, (fs.map (·.1) = es.map (·.1) ∧
      List.Forall₂ (Substituted env) (es.map (·.2)) (fs.map (·.2))) ∧ .map fs = w := by
  constructor
  · rintro (- | - | ⟨hkeys, hvalues⟩ | h)
    · exact ⟨_, ⟨hkeys, hvalues⟩, rfl⟩
    · exact h.elim
  · rintro ⟨fs, ⟨hkeys, hvalues⟩, rfl⟩
    exact .map hkeys hvalues

mutual

theorem returns_fill_iff (v : Value) {w : Value} :
    (fill env v).Returns w ↔ Substituted env v w := by
  cases v with
  | str s =>
    rw [substituted_str_iff, fill, returns_bind]
    simp only [returns_pure, returns_fillText_iff]
  | list vs =>
    rw [substituted_list_iff, fill, returns_bind]
    simp only [returns_pure, returns_fillAll_iff vs]
  | map es =>
    rw [substituted_map_iff, fill, returns_bind]
    simp only [returns_pure, returns_fillEntries_iff es]
  | _ =>
    constructor
    · intro h
      obtain rfl := returns_pure.mp h
      exact .other trivial
    · rintro (- | - | - | -)
      exact returns_pure.mpr rfl

theorem returns_fillAll_iff (vs : List Value) {ws : List Value} :
    (fillAll env vs).Returns ws ↔ List.Forall₂ (Substituted env) vs ws := by
  cases vs with
  | nil => rw [fillAll, returns_pure, List.forall₂_nil_left_iff, eq_comm]
  | cons v vs =>
    simp only [fillAll, returns_bind, returns_pure, returns_fill_iff v, returns_fillAll_iff vs]
    rw [List.forall₂_cons_left_iff]
    grind

theorem returns_fillEntries_iff (es : List (Value × Value)) {fs : List (Value × Value)} :
    (fillEntries env es).Returns fs ↔ fs.map (·.1) = es.map (·.1) ∧
      List.Forall₂ (Substituted env) (es.map (·.2)) (fs.map (·.2)) := by
  cases es with
  | nil =>
    rw [fillEntries, returns_pure, List.map_nil, List.map_nil, List.map_eq_nil_iff]
    constructor
    · rintro rfl
      exact ⟨rfl, .nil⟩
    · exact fun h ↦ h.1.symm
  | cons e es =>
    simp only [fillEntries, returns_bind, returns_pure, returns_fill_iff e.2,
      returns_fillEntries_iff es]
    constructor
    · rintro ⟨w, hw, rest, ⟨hkeys, hvalues⟩, rfl⟩
      exact ⟨congrArg (e.1 :: ·) hkeys, .cons hw hvalues⟩
    · rintro ⟨hkeys, hvalues⟩
      cases fs with
      | nil => exact nomatch hkeys
      | cons f fs =>
        obtain ⟨hkey, hkeys⟩ := List.cons.inj hkeys
        obtain ⟨hvalue, hvalues⟩ := List.forall₂_cons.mp hvalues
        exact ⟨f.2, hvalue, fs, ⟨hkeys, hvalues⟩, congrArg (· :: fs) (Prod.ext hkey.symm rfl)⟩

end

mutual

theorem returns_fill_again (henv : AllInert env) (v : Value) {w : Value}
    (h : (fill env v).Returns w) : (fill env w).Returns w := by
  cases v with
  | str s =>
    obtain ⟨t, ht, h⟩ := returns_bind.mp h
    obtain rfl := returns_pure.mp h
    have hfilled := (returns_fillText_iff.mp ht).again henv
    exact returns_bind.mpr ⟨t, returns_fillText_iff.mpr hfilled, returns_pure.mpr rfl⟩
  | list vs =>
    obtain ⟨ws, hws, h⟩ := returns_bind.mp h
    obtain rfl := returns_pure.mp h
    exact returns_bind.mpr ⟨ws, returns_fillAll_again henv vs hws, returns_pure.mpr rfl⟩
  | map es =>
    obtain ⟨fs, hfs, h⟩ := returns_bind.mp h
    obtain rfl := returns_pure.mp h
    exact returns_bind.mpr ⟨fs, returns_fillEntries_again henv es hfs, returns_pure.mpr rfl⟩
  | _ =>
    obtain rfl := returns_pure.mp h
    exact h

theorem returns_fillAll_again (henv : AllInert env) (vs : List Value) {ws : List Value}
    (h : (fillAll env vs).Returns ws) : (fillAll env ws).Returns ws := by
  cases vs with
  | nil =>
    obtain rfl := returns_pure.mp h
    exact h
  | cons v vs =>
    obtain ⟨w, hw, h⟩ := returns_bind.mp h
    obtain ⟨ws, hws, h⟩ := returns_bind.mp h
    obtain rfl := returns_pure.mp h
    exact returns_bind.mpr ⟨w, returns_fill_again henv v hw,
      returns_bind.mpr ⟨ws, returns_fillAll_again henv vs hws, returns_pure.mpr rfl⟩⟩

theorem returns_fillEntries_again (henv : AllInert env) (es : List (Value × Value))
    {fs : List (Value × Value)} (h : (fillEntries env es).Returns fs) :
    (fillEntries env fs).Returns fs := by
  cases es with
  | nil =>
    obtain rfl := returns_pure.mp h
    exact h
  | cons e es =>
    obtain ⟨w, hw, h⟩ := returns_bind.mp h
    obtain ⟨fs, hfs, h⟩ := returns_bind.mp h
    obtain rfl := returns_pure.mp h
    exact returns_bind.mpr ⟨w, returns_fill_again henv e.2 hw,
      returns_bind.mpr ⟨fs, returns_fillEntries_again henv es hfs, returns_pure.mpr rfl⟩⟩

end

/-! ## Substitution -/

/-- **Filling a tree replaces the placeholders in its texts, once and from left to right**, and
keeps the rest of the tree. If no value can be part of a placeholder, filling it a second time
changes nothing. -/
theorem fill_substitutes (env : Environment) (v : Value) :
    (∃ w, (fill env v).Returns w) ∧ (∀ w, (fill env v).Returns w ↔ Substituted env v w) ∧
      (AllInert env → (fill env v >>= fill env).outcome = (fill env v).outcome) := by
  obtain ⟨w, hw⟩ := exists_returns_fill env v
  refine ⟨⟨w, hw⟩, fun w ↦ returns_fill_iff v, fun henv ↦ ?_⟩
  rw [outcome_bind, show (fill env v).outcome = .ok w from hw]
  exact returns_fill_again henv v hw

/-- A key with a placeholder, a variable that is set and one that is not, and two openings. -/
theorem fill_substitutes_names :
    let names : Environment := [("NAME", "ann")]
    let v : Value := .map
      [(.str "$\x7bNAME\x7d", .str "$\x7bNAME\x7d $\x7bNONE\x7d $\x7b\x7d$\x7b")]
    AllInert names ∧ (fill names v >>= fill names).outcome = (fill names v).outcome := by
  intro names v
  have henv : AllInert names := by
    intro name value h
    obtain ⟨entry, hentry, rfl⟩ := Option.map_eq_some_iff.mp h
    obtain rfl := List.mem_singleton.mp (List.mem_of_find?_eq_some hentry)
    exact ⟨by simp, by simp⟩
  exact ⟨henv, (fill_substitutes names v).2.2 henv⟩

end Placeholder

end Schemata
