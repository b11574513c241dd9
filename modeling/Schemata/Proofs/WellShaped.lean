import Schemata.Proofs.Naming
import Schemata.Proofs.ProperTables

/-!
# Well-shaped types

The engine reads a type by its kind and its arguments: an array is rendered by its element, a
dictionary by its second argument, an optional type by its only argument and a union by all of them.
`TypeRef.WellShaped` says that these arguments are there, and `TypeRef.Proper` that a type and
everything that occurs in it is well-shaped and comes from a proper hint.

`ClassTable.proper_reference` proves this for the type that a proper hint refers to. The shape is
decided where a class or a union is referenced, whatever the arguments are, so the induction on the
hint only has to keep the arguments proper.
-/

namespace Schemata

namespace TypeRef

section Occurring

variable {σ : Type} {t u : TypeRef σ}

theorem occurringAll_eq_flatMap (ts : List (TypeRef σ)) :
    occurringAll ts = ts.flatMap occurring := by
  induction ts with
  | nil => rfl
  | cons t ts ih => rw [occurringAll, ih, List.flatMap_cons]

theorem mem_occurring_iff : u ∈ t.occurring ↔ u = t ∨ ∃ g ∈ t.generics, u ∈ g.occurring := by
  obtain ⟨f, s, k, gs, h⟩ := t
  rw [occurring, occurringAll_eq_flatMap, List.mem_cons, List.mem_flatMap]

theorem mem_occurring_self (t : TypeRef σ) : t ∈ t.occurring := mem_occurring_iff.mpr (.inl rfl)

/-- The type has as many arguments as its kind or its name asks for. -/
structure WellShaped (t : TypeRef σ) : Prop where
  array : t.kind = .array → t.generics.length = 1
  dictionary : t.kind = .dictionary → t.generics.length = 2
  primitive : t.kind = .primitive → t.generics = []
  optional : t.fullName = "typing.Optional" → t.generics.length = 1
  union : t.fullName = "typing.Union" → 2 ≤ t.generics.length

end Occurring

/-- Every type that occurs in the type is well-shaped and comes from a proper hint, if from any. -/
def Proper (t : TypeRef Hint) : Prop :=
  ∀ u ∈ t.occurring, u.WellShaped ∧ ∀ h ∈ u.source, h.Proper

variable {t u : TypeRef Hint} {ts : List (TypeRef Hint)}

theorem proper_iff : t.Proper ↔
    t.WellShaped ∧ (∀ h ∈ t.source, h.Proper) ∧ ∀ g ∈ t.generics, g.Proper := by
  constructor
  · intro ht
    obtain ⟨hshape, hsource⟩ := ht t (mem_occurring_self t)
    exact ⟨hshape, hsource, fun g hg u hu ↦ ht u (mem_occurring_iff.mpr (.inr ⟨g, hg, hu⟩))⟩
  · rintro ⟨hshape, hsource, hgenerics⟩ u hu
    rcases mem_occurring_iff.mp hu with rfl | ⟨g, hg, hu⟩
    · exact ⟨hshape, hsource⟩
    · exact hgenerics g hg u hu

theorem Proper.wellShaped (ht : t.Proper) : t.WellShaped := (proper_iff.mp ht).1

theorem Proper.source (ht : t.Proper) : ∀ h ∈ t.source, h.Proper := (proper_iff.mp ht).2.1

theorem Proper.generics (ht : t.Proper) : ∀ g ∈ t.generics, g.Proper := (proper_iff.mp ht).2.2

end TypeRef

namespace ClassTable

variable {table : ClassTable} {h : Hint} {c : ClassName} {args : List Hint} {t : TypeRef Hint}
  {ts : List (TypeRef Hint)}

/-! ## Types without arguments, and unions -/

theorem proper_anyType : anyType.Proper :=
  TypeRef.proper_iff.mpr ⟨⟨nofun, nofun, nofun, by decide, by decide⟩,
    fun _ hh ↦ Option.some.inj hh ▸ .named ClassName.noUnion_any, fun _ hg ↦ nomatch hg⟩

theorem proper_nullType : nullType.Proper :=
  TypeRef.proper_iff.mpr ⟨⟨nofun, nofun, nofun, by decide, by decide⟩,
    fun _ hh ↦ Option.some.inj hh ▸ .named (ClassName.noUnion_core _), fun _ hg ↦ nomatch hg⟩

theorem proper_byteType : byteType.Proper :=
  TypeRef.proper_iff.mpr ⟨⟨nofun, nofun, fun _ ↦ rfl, by decide, by decide⟩, nofun,
    fun _ hg ↦ nomatch hg⟩

theorem proper_unionType {source : Option Hint} (several : 2 ≤ ts.length)
    (hts : ∀ u ∈ ts, u.Proper) (hsource : ∀ k ∈ source, k.Proper) : (unionType ts source).Proper :=
  TypeRef.proper_iff.mpr ⟨⟨nofun, nofun, nofun, by simp [unionType], fun _ ↦ several⟩, hsource, hts⟩

theorem proper_optionalType {source : Option Hint} (ht : t.Proper)
    (hsource : ∀ k ∈ source, k.Proper) : (optionalType t source).Proper :=
  TypeRef.proper_iff.mpr ⟨⟨nofun, nofun, nofun, fun _ ↦ rfl, by simp [optionalType]⟩, hsource,
    List.forall_mem_singleton.mpr ht⟩

/-! ## Classes -/

/-- The type of a class is proper if its kind has the arguments it asks for. -/
theorem proper_ofClass {kind : TypeKind} (hh : h.Proper) (hc : c.NoUnion)
    (hts : ∀ u ∈ ts, u.Proper) (array : kind = .array → ts.length = 1)
    (dictionary : kind = .dictionary → ts.length = 2) (primitive : kind = .primitive → ts = []) :
    TypeRef.Proper
      { fullName := c.fullName, simpleName := c.simpleName, kind, generics := ts,
        source := some h } :=
  TypeRef.proper_iff.mpr ⟨⟨array, dictionary, primitive, fun hname ↦ absurd hname hc.2,
    fun hname ↦ absurd hname hc.1⟩, fun _ hk ↦ Option.some.inj hk ▸ hh, hts⟩

theorem shape_ne_primitive (takes : c.TakesArguments) : table.shape c ≠ .primitive := by
  unfold shape
  split
  · split <;> exact nofun
  · intro hprimitive
    unfold ClassName.TakesArguments at takes
    cases hl : LibraryClass.get? c with
    | none =>
      rw [hl] at hprimitive
      exact nomatch hprimitive
    | some l =>
      rw [hl] at hprimitive takes
      exact takes (congrArg some hprimitive)

theorem proper_elementOf (hts : ∀ u ∈ ts, u.Proper) : (elementOf ts).Proper := by
  match ts with
  | [] => exact proper_anyType
  | [t] => exact hts t List.mem_cons_self
  | t :: u :: rest => exact proper_unionType (by simp) hts nofun

theorem proper_of_forall₂ {hs : List Hint}
    (hproper : ∀ k ∈ hs, ∀ u, (table.reference k).Returns u → u.Proper)
    (hts : List.Forall₂ (fun k u ↦ (table.reference k).Returns u) hs ts) : ∀ u ∈ ts, u.Proper := by
  intro u hu
  obtain ⟨k, hk, hku⟩ := exists_of_mem_right hts hu
  exact hproper k hk u hku

/-- A class refers to a proper type if the arguments that count do. -/
theorem proper_shapedReference (hh : h.Proper) (hc : c.NoUnion)
    (takes : args ≠ [] → c.TakesArguments)
    (hargs : ∀ a ∈ table.countedArguments c args, ∀ u, (table.reference a).Returns u → u.Proper)
    (e : (table.shapedReference h c (table.argumentReferences args)).Returns t) : t.Proper := by
  unfold shapedReference at e
  unfold countedArguments at hargs
  dsimp only at e
  rw [map_snd_argumentReferences] at e
  cases hshape : table.shape c with
  | binary =>
    rw [hshape] at e
    obtain rfl := Traced.returns_pure.mp e
    exact proper_ofClass hh hc (List.forall_mem_singleton.mpr proper_byteType) (fun _ ↦ rfl) nofun
      nofun
  | dictionary =>
    rw [hshape] at e hargs
    have hany : ∀ u ∈ [anyType, anyType], u.Proper :=
      List.forall_mem_cons.mpr ⟨proper_anyType, List.forall_mem_singleton.mpr proper_anyType⟩
    match args with
    | [a, b] =>
      obtain ⟨key, hkey, e⟩ := Traced.returns_bind.mp e
      obtain ⟨value, hvalue, e⟩ := Traced.returns_bind.mp e
      obtain rfl := Traced.returns_pure.mp e
      exact proper_ofClass hh hc (proper_of_forall₂ hargs (.cons hkey (.cons hvalue .nil))) nofun
        (fun _ ↦ rfl) nofun
    | [] | [_] | _ :: _ :: _ :: _ =>
      obtain rfl := Traced.returns_pure.mp e
      exact proper_ofClass hh hc hany nofun (fun _ ↦ rfl) nofun
  | array =>
    rw [hshape] at e hargs
    obtain ⟨element, helement, e⟩ := Traced.returns_bind.mp e
    obtain rfl := Traced.returns_pure.mp e
    obtain ⟨-, ts, hts, rfl⟩ := returns_elementType_iff.mp helement
    exact proper_ofClass hh hc
      (List.forall_mem_singleton.mpr (proper_elementOf (proper_of_forall₂ hargs hts)))
      (fun _ ↦ rfl) nofun nofun
  | primitive =>
    rw [hshape] at e
    obtain rfl : args = [] := by
      by_contra hne
      exact shape_ne_primitive (takes hne) hshape
    obtain rfl := Traced.returns_pure.mp e
    exact proper_ofClass hh hc (fun _ hu ↦ nomatch hu) nofun nofun fun _ ↦ rfl
  | enumeration | plain =>
    rw [hshape] at e hargs
    obtain ⟨ts, hts, e⟩ := Traced.returns_bind.mp e
    obtain rfl := Traced.returns_pure.mp e
    rw [Traced.returns_inOrder, List.forall₂_map_left_iff] at hts
    exact proper_ofClass hh hc (proper_of_forall₂ hargs hts) nofun nofun nofun

theorem proper_shapedReference_nil (hh : h.Proper) (hc : c.NoUnion)
    (e : (table.shapedReference h c []).Returns t) : t.Proper := by
  have e : (table.shapedReference h c (table.argumentReferences [])).Returns t := e
  refine proper_shapedReference hh hc (fun hne ↦ absurd rfl hne) (fun a ha ↦ ?_) e
  exact absurd (mem_args_of_mem_countedArguments ha) List.not_mem_nil

theorem proper_classReference (hc : c.NoUnion) (e : (table.classReference c).Returns t) :
    t.Proper := by
  unfold classReference at e
  split at e
  · exact Traced.returns_pure.mp e ▸ proper_nullType
  · split at e
    · exact Traced.returns_pure.mp e ▸ proper_anyType
    · exact proper_shapedReference_nil (.named hc) hc e

theorem proper_unionReference {bar : Bool} {members : List Hint}
    (hh : (Hint.union bar members).Proper)
    (hmembers : ∀ m ∈ members, ∀ u, (table.reference m).Returns u → u.Proper)
    (e : (unionReference h (table.argumentReferences members)).Returns t)
    (hsource : h = .union bar members) : t.Proper := by
  have hsource : ∀ k ∈ some h, k.Proper := fun k hk ↦ Option.some.inj hk ▸ hsource ▸ hh
  rcases table.unionReference_cases h members with ⟨m, -, hpresent, heq⟩ | ⟨-, heq⟩
  · rw [heq] at e
    obtain ⟨present, hpresent', e⟩ := Traced.returns_bind.mp e
    obtain rfl := Traced.returns_pure.mp e
    have hm : m ∈ members.filter (· != .named .null) := hpresent ▸ List.mem_singleton_self m
    exact proper_optionalType (hmembers m (List.mem_filter.mp hm).1 present hpresent') hsource
  · rw [heq] at e
    obtain ⟨ts, hts, e⟩ := Traced.returns_bind.mp e
    obtain rfl := Traced.returns_pure.mp e
    rw [Traced.returns_inOrder, List.forall₂_map_left_iff] at hts
    cases hh with
    | union several _ =>
      exact proper_unionType (hts.length_eq ▸ several) (proper_of_forall₂ hmembers hts) hsource

theorem noUnion_cls {d : Datum} (hd : d.Proper) : (d.cls table).NoUnion := by
  cases hd with
  | constant hc => exact hc
  | made hc _ => exact hc
  | _ => exact ClassName.noUnion_core _

/-! ## Hints -/

theorem proper_parts (hh : h.Proper) : ∀ part ∈ table.parts h, part.Proper := by
  cases hh with
  | bounded hbound => exact List.forall_mem_singleton.mpr hbound
  | annotated hh _ => exact List.forall_mem_singleton.mpr hh
  | union _ hmembers => exact hmembers
  | applied _ _ hargs => exact fun a ha ↦ hargs a (mem_args_of_mem_countedArguments ha)
  | model _ _ hargs => exact fun a ha ↦ hargs a (mem_args_of_mem_countedArguments ha)
  | _ => exact List.forall_mem_nil _

/-- What has no known kind is referenced as anything, with a remark in the log. -/
theorem proper_of_debug {message : String}
    (e : (do Traced.debug message; return anyType : Traced (TypeRef Hint)).Returns t) :
    t.Proper := by
  have ht : anyType = t := Traced.returns_pure.mp e
  exact ht ▸ proper_anyType

/-- **A proper hint refers to a proper type.** -/
theorem proper_reference (hh : h.Proper) (e : (table.reference h).Returns t) : t.Proper := by
  -- the parts of a hint are smaller than the hint
  induction hn : sizeOf h using Nat.strongRecOn generalizing h t with
  | ind n ih =>
    have hparts : ∀ part ∈ table.parts h, ∀ u, (table.reference part).Returns u → u.Proper :=
      fun part hpart u hu ↦ ih _ (hn ▸ sizeOf_lt_of_mem_parts hpart) (proper_parts hh part hpart)
        hu rfl
    have hproper := hh
    cases hh with
    | null => exact Traced.returns_pure.mp e ▸ proper_nullType
    | named hc => exact proper_classReference hc (by rwa [reference] at e)
    | bare hc takes =>
      rw [reference] at e
      exact proper_shapedReference_nil hproper hc e
    | applied hc takes hargs =>
      rw [reference] at e
      exact proper_shapedReference hproper hc (fun _ ↦ takes) hparts e
    | model hc takes hargs =>
      rw [reference] at e
      exact proper_shapedReference hproper hc (fun _ ↦ takes) hparts e
    | union several hmembers =>
      rw [reference] at e
      exact proper_unionReference hproper hparts e rfl
    | bounded hbound =>
      rw [reference] at e
      exact hparts _ List.mem_cons_self t e
    | annotated hh hmetadata =>
      rw [reference] at e
      exact hparts _ List.mem_cons_self t e
    | @literal values hvalues =>
      cases values with
      | nil =>
        rw [reference] at e
        exact Traced.returns_pure.mp e ▸ proper_anyType
      | cons d rest =>
        rw [reference] at e
        exact proper_classReference (noUnion_cls (hvalues d List.mem_cons_self)) e
    | text s =>
      rw [reference] at e
      exact proper_of_debug e
    | parameter n =>
      rw [reference] at e
      exact Traced.returns_pure.mp e ▸ proper_anyType
    | ellipsis | forward | classVar | anyClassVar | initVar | special =>
      unfold reference at e
      exact proper_of_debug e

end ClassTable

end Schemata
