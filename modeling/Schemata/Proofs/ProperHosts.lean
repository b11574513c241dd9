import Schemata.Proofs.Closure
import Schemata.Proofs.Cuts
import Schemata.Proofs.WellShaped

/-!
# Proper hosts

The types that the engine renders are not only those that a hint refers to: members have types of
their own, tags compose types or put one in the place of another. In a proper table all of them are
proper again (`ClassTable.proper_of_leads`), so by induction every type that a build comes to is
well-shaped.

Two things follow for the engine. It never renders an array without an element or a dictionary
without a value, since there is always an argument to render; and it never references an optional
type or a union, since the built-in processors take both as soon as the arguments are there.
-/

namespace Schemata

open Traced

/-! ## Types in tags -/

section Tags

variable {σ : Type}

mutual

/-- The types anywhere in an attribute. -/
def TagValue.types : TagValue σ → List (TypeRef σ)
  | .type t => [t]
  | .array items => TagValue.typesAll items
  | .tag a => a.types
  | .boolean _ | .number _ | .string _ | .enumConstant _ | .unknown _ => []

/-- The types anywhere in several attributes. -/
def TagValue.typesAll : List (TagValue σ) → List (TypeRef σ)
  | [] => []
  | v :: vs => v.types ++ TagValue.typesAll vs

/-- The types anywhere in a tag. -/
def Tag.types : Tag σ → List (TypeRef σ)
  | .mk _ entries _ => Tag.entryTypes entries

/-- The types anywhere in named attributes. -/
def Tag.entryTypes : List (String × TagValue σ) → List (TypeRef σ)
  | [] => []
  | (_, v) :: es => v.types ++ Tag.entryTypes es

end

variable {t u : TypeRef σ} {tags : List (Tag σ)} {a : Tag σ}

theorem TagValue.mem_typesAll_iff {vs : List (TagValue σ)} :
    t ∈ typesAll vs ↔ ∃ v ∈ vs, t ∈ v.types := by
  induction vs with
  | nil => simp [typesAll]
  | cons v vs ih => rw [typesAll, List.mem_append, ih, List.exists_mem_cons_iff]

theorem Tag.mem_entryTypes_iff {es : List (String × TagValue σ)} :
    t ∈ entryTypes es ↔ ∃ e ∈ es, t ∈ e.2.types := by
  induction es with
  | nil => simp [entryTypes]
  | cons e es ih => rw [entryTypes, List.mem_append, ih, List.exists_mem_cons_iff]

theorem Tag.mem_types_iff : t ∈ a.types ↔ ∃ e ∈ a.entries, t ∈ e.2.types := by
  obtain ⟨name, es, custom⟩ := a
  rw [types]
  exact mem_entryTypes_iff

theorem Tag.mem_types_of_get? {key : String} {v : TagValue σ} (hv : a.get? key = some v)
    (ht : t ∈ v.types) : t ∈ a.types := by
  obtain ⟨e, he, rfl⟩ := Option.map_eq_some_iff.mp hv
  exact mem_types_iff.mpr ⟨e, List.mem_of_find?_eq_some he, ht⟩

theorem Tag.setEntry_eq_put (es : List (String × TagValue σ)) (key : String) (v : TagValue σ) :
    setEntry es key v = Keyed.put es key v := by
  induction es with
  | nil => rfl
  | cons e es ih => rw [setEntry, Keyed.put, ih]

theorem Tag.mem_entryTypes_of_ofEntries {name : String} {es : List (String × TagValue σ)}
    {custom : Bool} (ht : t ∈ (ofEntries name es custom).types) : t ∈ entryTypes es := by
  have hput : (ofEntries name es custom).entries = Keyed.putAll [] es := by
    change es.foldl (fun acc e ↦ setEntry acc e.1 e.2) [] = _
    simp only [setEntry_eq_put]
    rfl
  obtain ⟨e, he, ht⟩ := mem_types_iff.mp ht
  rw [hput] at he
  exact mem_entryTypes_iff.mpr ⟨e, Keyed.mem_of_mem_putAll_nil he, ht⟩

theorem TypePlace.mem_types_of_ofTagValue? {v : TagValue σ} (h : ofTagValue? v = some (.type t)) :
    t ∈ v.types := by
  rcases ofTagValue?_eq_some_iff.mp h with ⟨u, rfl, hu⟩ | ⟨-, -, hother⟩
  · obtain rfl := TypePlace.type.inj hu
    rw [TagValue.types]
    exact List.mem_singleton_self t
  · exact nomatch hother

theorem mem_types_of_definedBy (h : definedBy tags = .ok (some u)) : ∃ a ∈ tags, u ∈ a.types := by
  unfold definedBy at h
  split at h
  · exact nomatch h
  next place hplace =>
    obtain rfl : place = .type u := by
      cases place with
      | type t => exact congrArg _ (Option.some.inj (Except.ok.inj h))
      | other v => exact nomatch h
    obtain ⟨v, hv, hplace⟩ := Option.bind_eq_some_iff.mp hplace
    obtain ⟨a, ha, hv⟩ := Option.bind_eq_some_iff.mp hv
    exact ⟨a, List.mem_of_find?_eq_some ha, Tag.mem_types_of_get? hv
      (TypePlace.mem_types_of_ofTagValue? hplace)⟩

theorem Composition.mem_typesAll_of_typesOf {field : String} {vs : List (TagValue σ)}
    {ts : List (TypeRef σ)} (h : typesOf field vs = .ok ts) (hu : u ∈ ts) :
    u ∈ TagValue.typesAll vs := by
  induction vs generalizing ts with
  | nil =>
    rw [← Except.ok.inj h] at hu
    exact absurd hu List.not_mem_nil
  | cons v vs ih =>
    cases v with
    | type t =>
      rw [typesOf] at h
      cases hrest : typesOf field vs with
      | error e =>
        rw [hrest] at h
        exact nomatch h
      | ok rest =>
        rw [hrest] at h
        obtain rfl := Except.ok.inj h
        rw [TagValue.typesAll, TagValue.types]
        exact List.mem_append.mpr
          ((List.mem_cons.mp hu).imp List.mem_singleton.mpr (ih hrest))
    | _ => exact nomatch h

theorem mem_types_of_find? {c : Composition σ} (h : Composition.find? tags = .ok (some c))
    (hu : u ∈ c.members) : ∃ a ∈ tags, u ∈ a.types := by
  induction tags with
  | nil => cases h
  | cons a tags ih =>
    rw [Composition.find?] at h
    split at h
    · obtain ⟨b, hb, hub⟩ := ih h
      exact ⟨b, List.mem_cons_of_mem a hb, hub⟩
    next kind _ =>
      refine ⟨a, List.mem_cons_self, ?_⟩
      unfold Composition.ofTag at h
      dsimp only at h
      split at h
      · obtain rfl := Option.some.inj (Except.ok.inj h)
        exact absurd hu List.not_mem_nil
      next items hitems =>
        cases hmembers : Composition.typesOf (a.name ++ ".value") items with
        | error e =>
          rw [hmembers] at h
          cases h
        | ok members =>
          rw [hmembers] at h
          obtain rfl := Option.some.inj (Except.ok.inj h)
          refine Tag.mem_types_of_get? hitems ?_
          rw [TagValue.types]
          exact Composition.mem_typesAll_of_typesOf hmembers hu
      · cases h

end Tags

namespace ClassTable

variable {table : ClassTable}

/-! ## Tags of proper data -/

/-- A field is absent, or it becomes an attribute. -/
theorem cases_of_toEntries {name : String} {d : Datum} {fs : List (String × Datum)}
    {es : List (String × TagValue Hint)}
    (e : (Datum.toEntries table ((name, d) :: fs)).Returns es) :
    (Datum.toEntries table fs).Returns es ∨
      ∃ v rest, (d.toTagValue table).Returns v ∧ (Datum.toEntries table fs).Returns rest ∧
        es = (name, v) :: rest := by
  rcases em (d = .plain .null) with rfl | hnull
  · rw [Datum.toEntries] at e
    exact .inl e
  · rw [Datum.toEntries] at e
    · obtain ⟨v, hv, e⟩ := returns_bind.mp e
      obtain ⟨rest, hrest, e⟩ := returns_bind.mp e
      exact .inr ⟨v, rest, hv, hrest, (returns_pure.mp e).symm⟩
    · exact hnull

mutual

theorem proper_toTagValue : ∀ {d : Datum} {v : TagValue Hint}, d.Proper →
    (d.toTagValue table).Returns v → ∀ t ∈ v.types, t.Proper
  | .plain w, v, _, e => by
    rw [Datum.toTagValue] at e
    obtain rfl := returns_pure.mp e
    unfold Datum.ofScalar
    split <;> exact fun t ht ↦ absurd ht (by simp [TagValue.types])
  | .constant c name value, v, _, e => by
    rw [Datum.toTagValue] at e
    obtain rfl := returns_pure.mp e
    exact fun t ht ↦ absurd ht (by simp [TagValue.types])
  | .hint h, v, hd, e => by
    rw [Datum.toTagValue] at e
    split at e
    · obtain ⟨t, ht, e⟩ := returns_bind.mp e
      obtain rfl := returns_pure.mp e
      rw [TagValue.types]
      cases hd with
      | hint hh => exact List.forall_mem_singleton.mpr (proper_reference hh ht)
    · obtain rfl := returns_pure.mp e
      exact fun t ht ↦ absurd ht (by simp [TagValue.types])
  | .list items, v, hd, e => by
    rw [Datum.toTagValue] at e
    obtain ⟨vs, hvs, e⟩ := returns_bind.mp e
    obtain rfl := returns_pure.mp e
    rw [TagValue.types]
    cases hd with
    | list hitems => exact proper_toTagValues hitems hvs
  | .tuple items, v, hd, e => by
    rw [Datum.toTagValue] at e
    obtain ⟨vs, hvs, e⟩ := returns_bind.mp e
    obtain rfl := returns_pure.mp e
    rw [TagValue.types]
    cases hd with
    | tuple hitems => exact proper_toTagValues hitems hvs
  | .made c .tuple fields, v, hd, e => by
    rw [Datum.toTagValue] at e
    obtain ⟨vs, hvs, e⟩ := returns_bind.mp e
    obtain rfl := returns_pure.mp e
    rw [TagValue.types]
    cases hd with
    | made _ hfields => exact proper_fieldValues hfields hvs
  | .made c .marker fields, v, hd, e | .made c .metadata fields, v, hd, e => by
    rw [Datum.toTagValue] at e
    obtain ⟨es, hes, e⟩ := returns_bind.mp e
    obtain rfl := returns_pure.mp e
    rw [TagValue.types]
    cases hd with
    | made _ hfields =>
      exact fun t ht ↦ proper_toEntries hfields hes t (Tag.mem_entryTypes_of_ofEntries ht)
  | .made c .other fields, v, _, e => by
    rw [Datum.toTagValue] at e
    obtain rfl := returns_pure.mp e
    exact fun t ht ↦ absurd ht (by simp [TagValue.types])

theorem proper_toTagValues : ∀ {ds : List Datum} {vs : List (TagValue Hint)},
    (∀ d ∈ ds, d.Proper) → (Datum.toTagValues table ds).Returns vs →
    ∀ t ∈ TagValue.typesAll vs, t.Proper
  | [], vs, _, e => by
    rw [Datum.toTagValues] at e
    rw [← returns_pure.mp e]
    exact List.forall_mem_nil _
  | d :: ds, vs, hds, e => by
    obtain ⟨hd, hds⟩ := List.forall_mem_cons.mp hds
    rw [Datum.toTagValues] at e
    obtain ⟨v, hv, e⟩ := returns_bind.mp e
    obtain ⟨vs, hvs, e⟩ := returns_bind.mp e
    obtain rfl := returns_pure.mp e
    rw [TagValue.typesAll]
    exact List.forall_mem_append.mpr ⟨proper_toTagValue hd hv, proper_toTagValues hds hvs⟩

theorem proper_fieldValues : ∀ {fs : List (String × Datum)} {vs : List (TagValue Hint)},
    (∀ f ∈ fs, f.2.Proper) → (Datum.fieldValues table fs).Returns vs →
    ∀ t ∈ TagValue.typesAll vs, t.Proper
  | [], vs, _, e => by
    rw [Datum.fieldValues] at e
    rw [← returns_pure.mp e]
    exact List.forall_mem_nil _
  | (name, d) :: fs, vs, hfs, e => by
    obtain ⟨hd, hfs⟩ := List.forall_mem_cons.mp hfs
    rw [Datum.fieldValues] at e
    obtain ⟨v, hv, e⟩ := returns_bind.mp e
    obtain ⟨vs, hvs, e⟩ := returns_bind.mp e
    obtain rfl := returns_pure.mp e
    rw [TagValue.typesAll]
    exact List.forall_mem_append.mpr ⟨proper_toTagValue hd hv, proper_fieldValues hfs hvs⟩

theorem proper_toEntries : ∀ {fs : List (String × Datum)} {es : List (String × TagValue Hint)},
    (∀ f ∈ fs, f.2.Proper) → (Datum.toEntries table fs).Returns es →
    ∀ t ∈ Tag.entryTypes es, t.Proper
  | [], es, _, e => by
    rw [Datum.toEntries] at e
    rw [← returns_pure.mp e]
    exact List.forall_mem_nil _
  | (name, d) :: fs, es, hfs, e => by
    obtain ⟨hd, hfs⟩ := List.forall_mem_cons.mp hfs
    rcases cases_of_toEntries e with e | ⟨v, rest, hv, hrest, rfl⟩
    · exact proper_toEntries hfs e
    · rw [Tag.entryTypes]
      exact List.forall_mem_append.mpr ⟨proper_toTagValue hd hv, proper_toEntries hfs hrest⟩

end

/-- The types in tags are proper. -/
def ProperTags (tags : List (Tag Hint)) : Prop := ∀ a ∈ tags, ∀ t ∈ a.types, t.Proper

theorem properTags_toTags {ds : List Datum} {tags : List (Tag Hint)} (hds : ∀ d ∈ ds, d.Proper)
    (e : (Datum.toTags table ds).Returns tags) : ProperTags tags := by
  induction ds generalizing tags with
  | nil =>
    rw [Datum.toTags] at e
    rw [← returns_pure.mp e]
    exact List.forall_mem_nil _
  | cons d ds ih =>
    obtain ⟨hd, hds⟩ := List.forall_mem_cons.mp hds
    rw [Datum.toTags] at e
    split at e
    · obtain ⟨v, hv, e⟩ := returns_bind.mp e
      split at e
      next a =>
        obtain ⟨rest, hrest, e⟩ := returns_bind.mp e
        obtain rfl := returns_pure.mp e
        have ha := proper_toTagValue hd hv
        rw [TagValue.types] at ha
        exact List.forall_mem_cons.mpr ⟨ha, ih hds hrest⟩
      · exact ih hds e
    · exact ih hds e

end ClassTable

/-! ## Members -/

/-- The types of a member and of its tags are proper. -/
structure Member.Proper (m : Member Hint) : Prop where
  type : ∀ t, m.declaredType = some t → t.Proper
  tags : ClassTable.ProperTags m.tags

theorem Hint.Proper.ofMember {h : Hint} (hh : h.Proper) : h.ofMember.Proper := by
  unfold Hint.ofMember
  split
  · exact hh.base.withoutClassVar
  · exact hh

namespace ClassTable

variable {table : ClassTable}

section Members

variable {b : Hint.Bindings} {hint : Option Hint} {m : Member Hint} {cls : Hint}
  {ms : List (Member Hint)} {t : TypeRef Hint}

theorem proper_member {name : String} {kind : MemberKind} {isStatic : Bool} {attached : List Datum}
    (hhint : ∀ k ∈ hint, k.Proper) (hb : b.Proper) (hattached : ∀ d ∈ attached, d.Proper)
    (e : (table.member name kind hint b isStatic attached).Returns m) : m.Proper := by
  by_cases huntyped : ∀ k, hint = some k → k = .null
  · rw [member_of_untyped huntyped] at e
    obtain ⟨tags, htags, e⟩ := returns_bind.mp e
    obtain rfl := returns_pure.mp e
    exact ⟨nofun, properTags_toTags hattached htags⟩
  · obtain ⟨k, rfl, hk⟩ : ∃ k, hint = some k ∧ k ≠ .null := by simpa using huntyped
    have hproper : (k.substitute b).Proper := (hhint k rfl).substitute hb
    rw [member_of_typed hk] at e
    obtain ⟨t, ht, e⟩ := returns_bind.mp e
    obtain ⟨tags, htags, e⟩ := returns_bind.mp e
    obtain rfl := returns_pure.mp e
    exact ⟨fun u hu ↦ Option.some.inj hu ▸ proper_reference hproper ht,
      properTags_toTags (List.forall_mem_append.mpr ⟨hproper.metadata, hattached⟩) htags⟩

theorem proper_get? {hints : List (String × Hint)} (hhints : ∀ e ∈ hints, e.2.Proper) (n : String) :
    ∀ k ∈ Keyed.get? hints n, k.Proper :=
  fun _ hk ↦ hhints _ (Keyed.mem_of_get? hk)

theorem mem_body_of_mem_declaredAccessors {d : DeclaredClass} {n : String} {a : Accessor}
    (h : (n, a) ∈ declaredAccessors d) : (n, .accessor a) ∈ d.body := by
  obtain ⟨⟨k, stored⟩, hmem, h⟩ := List.mem_filterMap.mp h
  split at h
  next heq =>
    obtain ⟨rfl, rfl⟩ := Prod.mk.inj heq
    obtain ⟨rfl, rfl⟩ := Prod.mk.inj (Option.some.inj h)
    exact hmem
  · exact nomatch h

theorem exists_of_mem_accessorSources {s : String × MemberSource} {owner c : ClassName}
    {a : Accessor} {accessors : List (String × Accessor)}
    (hs : s ∈ accessorSources c accessors) (ha : s.2 = .accessor owner a) :
    ∃ n, (n, a) ∈ accessors := by
  obtain ⟨⟨n, k⟩, hmem, hs⟩ := List.mem_filterMap.mp hs
  obtain ⟨source, hsource, rfl⟩ := Option.map_eq_some_iff.mp hs
  dsimp only at hsource ha
  split at hsource
  · exact nomatch hsource
  · rw [ha] at hsource
    obtain ⟨-, rfl⟩ := MemberSource.accessor.inj (Option.some.inj hsource)
    exact ⟨n, hmem⟩

theorem Proper.accessor (h : table.Proper) {s : String × MemberSource}
    (hs : s ∈ table.sources cls) {owner : ClassName} {a : Accessor} (ha : s.2 = .accessor owner a) :
    (Attribute.accessor a).Proper := by
  obtain ⟨ancestor, -, hs⟩ := List.mem_flatMap.mp hs
  unfold sourcesIn at hs
  split at hs
  · split at hs
    next d hd =>
      rcases List.mem_append.mp hs with hs | hs
      · obtain ⟨n, -, rfl⟩ := List.mem_map.mp hs
        exact nomatch ha
      · obtain ⟨n, hn⟩ := exists_of_mem_accessorSources hs ha
        exact (h.of_find? hd).body _ (mem_body_of_mem_declaredAccessors hn)
    · split at hs
      · -- an accessor of a library class says nothing about its result and has no metadata
        obtain ⟨n, hn⟩ := exists_of_mem_accessorSources hs ha
        obtain ⟨⟨kind, names⟩, -, hn⟩ := List.mem_flatMap.mp hn
        obtain ⟨k, -, hn⟩ := List.mem_map.mp hn
        obtain ⟨-, rfl⟩ := Prod.mk.inj hn
        exact ⟨nofun, List.forall_mem_nil _⟩
      · exact absurd hs List.not_mem_nil
  · exact absurd hs List.not_mem_nil

theorem Proper.plainMembers (h : table.Proper) (hb : b.Proper)
    (e : (table.plainMembers cls b).Returns ms) : ∀ m ∈ ms, m.Proper := by
  obtain ⟨hints, found, hhints, hfound, rfl⟩ := returns_plainMembers.mp e
  have hhints := h.hintsOf hhints
  obtain ⟨read, hread, rfl⟩ := returns_collect.mp hfound
  refine List.forall_mem_map.mpr fun m hm ↦ ?_
  obtain ⟨s, hs, -, hm⟩ := exists_of_mem_right hread (Keyed.mem_of_mem_putAll_nil hm)
  unfold readSource at hm
  split at hm
  · rw [annotatedMember_eq] at hm
    refine proper_member ?_ hb (List.forall_mem_nil _) hm
    intro k hk
    obtain ⟨written, hwritten, rfl⟩ := Option.map_eq_some_iff.mp hk
    exact (proper_get? hhints _ written hwritten).ofMember
  next owner a hsource =>
    obtain ⟨hresult, hattached⟩ := h.accessor hs hsource
    obtain ⟨result, hresult', hm⟩ := returns_bind.mp hm
    exact proper_member (fun k hk ↦ h.resultOf hresult (hk ▸ hresult')) hb hattached hm

theorem Proper.recordMembers (h : table.Proper) (hcls : cls.ProperModel) (hb : b.Proper)
    (e : (table.recordMembers cls b).Returns ms) : ∀ m ∈ ms, m.Proper := by
  have hnone : ∀ d ∈ ([] : List Datum), d.Proper := List.forall_mem_nil _
  intro m hm
  unfold ClassTable.recordMembers at e
  split at e
  · rw [returns_inOrder, List.forall₂_map_left_iff] at e
    obtain ⟨f, hf, hm⟩ := exists_of_mem_right e hm
    exact proper_member (fun k hk ↦ Option.some.inj hk ▸ h.modelHints hcls f hf) hb hnone hm
  · obtain ⟨hints, hhints, e⟩ := returns_bind.mp e
    rw [returns_inOrder, List.forall₂_map_left_iff] at e
    obtain ⟨n, -, hm⟩ := exists_of_mem_right e hm
    exact proper_member (proper_get? (h.hintsOf hhints) n) hb hnone hm

theorem properModel_of_classOf (ht : t.Proper) (e : table.classOf t = some cls) :
    cls.ProperModel := by
  unfold classOf at e
  split at e
  next source hsource => exact (ht.source source hsource).classBehind e
  · split at e
    · unfold importClass at e
      dsimp only at e
      split at e
      · exact Option.some.inj e ▸ Hint.properModel_named _
      · exact nomatch e
    · exact nomatch e

theorem proper_bindings (ht : t.Proper) : (table.bindings t).Proper := by
  unfold bindings
  split
  next hsource =>
    cases ht.source _ hsource with
    | applied _ _ hargs => exact Hint.proper_bindingsOf hargs
  · exact List.forall_mem_nil _

theorem Proper.members (h : table.Proper) (ht : t.Proper) (e : (table.members t).Returns ms) :
    ∀ m ∈ ms, m.Proper := by
  unfold ClassTable.members at e
  split at e
  · rw [← returns_pure.mp e]
    exact List.forall_mem_nil _
  next cls hcls =>
    split at e
    · -- the constants of an enum are of the type itself
      rw [← returns_pure.mp e]
      refine List.forall_mem_map.mpr fun c _ ↦ ⟨fun u hu ↦ Option.some.inj hu ▸ ht, ?_⟩
      exact List.forall_mem_nil _
    · split at e
      · exact nomatch e
      · split at e
        · exact h.recordMembers (properModel_of_classOf ht hcls) (proper_bindings ht) e
        · exact h.plainMembers (proper_bindings ht) e

theorem properTags_anyOf {ts : List (TypeRef Hint)} (hts : ∀ u ∈ ts, u.Proper) :
    ProperTags [anyOf ts] := by
  refine List.forall_mem_singleton.mpr fun u hu ↦ ?_
  obtain ⟨e, he, hu⟩ := Tag.mem_entryTypes_iff.mp (Tag.mem_entryTypes_of_ofEntries hu)
  obtain rfl := List.mem_singleton.mp he
  rw [TagValue.types, TagValue.mem_typesAll_iff] at hu
  obtain ⟨v, hv, hu⟩ := hu
  obtain ⟨w, hw, rfl⟩ := List.mem_map.mp hv
  rw [TagValue.types] at hu
  exact List.mem_singleton.mp hu ▸ hts w hw

theorem Proper.attachedTo (h : table.Proper) (cls : Hint) :
    ∀ d ∈ table.attachedTo cls, d.Proper := by
  unfold ClassTable.attachedTo
  cases hd : table.declaredBehind? cls with
  | none => exact List.forall_mem_nil _
  | some d =>
    unfold declaredBehind? at hd
    split at hd
    · exact (h.of_find? hd).attached
    · exact (h.of_find? hd).attached
    · exact nomatch hd

theorem Proper.tags (h : table.Proper) (ht : t.Proper) {tags : List (Tag Hint)}
    (e : (table.tags t).Returns tags) : ProperTags tags := by
  unfold ClassTable.tags at e
  split at e
  · exact returns_pure.mp e ▸ properTags_anyOf ht.generics
  · split at e
    · exact returns_pure.mp e ▸ properTags_anyOf (List.forall_mem_append.mpr
        ⟨ht.generics, List.forall_mem_singleton.mpr proper_nullType⟩)
    · split at e
      · exact properTags_toTags (h.attachedTo _) e
      · rw [← returns_pure.mp e]
        exact List.forall_mem_nil _

end Members

/-! ## What proper types lead to -/

section Reach

variable {custom : List (String × List (CustomProperty Hint))} {t u : TypeRef Hint}

/-- The types of injected properties are what proper hints refer to. -/
def ProperProperties (table : ClassTable) (custom : List (String × List (CustomProperty Hint))) :
    Prop :=
  ∀ e ∈ custom, ∀ p ∈ e.2, ∃ k : Hint, k.Proper ∧ (table.reference k).Returns p.type

/-- **A proper type leads to proper types only.** -/
theorem Proper.leads (h : table.Proper) (hcustom : table.ProperProperties custom) (ht : t.Proper)
    (hu : (table.host custom).Leads t u) : u.Proper := by
  cases hu with
  | argument hu => exact ht.generics u hu
  | override htags hu =>
    obtain ⟨a, ha, hu⟩ := mem_types_of_definedBy hu
    exact h.tags ht htags a ha u hu
  | part htags hc hu =>
    obtain ⟨a, ha, hu⟩ := mem_types_of_find? hc hu
    exact h.tags ht htags a ha u hu
  | member hms hm hu => exact (h.members ht hms _ hm).type u hu
  | memberOverride hms hm hu =>
    obtain ⟨a, ha, hu⟩ := mem_types_of_definedBy hu
    exact (h.members ht hms _ hm).tags a ha u hu
  | memberPart hms hm hc hu =>
    obtain ⟨a, ha, hu⟩ := mem_types_of_find? hc hu
    exact (h.members ht hms _ hm).tags a ha u hu
  | custom hcs hc =>
    obtain rfl := returns_pure.mp hcs
    cases hfound : Keyed.get? custom t.fullName with
    | none =>
      rw [hfound] at hc
      exact absurd hc List.not_mem_nil
    | some properties =>
      rw [hfound] at hc
      obtain ⟨k, hk, hreference⟩ := hcustom _ (Keyed.mem_of_get? hfound) _ hc
      exact proper_reference hk hreference

theorem Proper.reachable (h : table.Proper) (hcustom : table.ProperProperties custom)
    (ht : t.Proper) (hu : (table.host custom).Reachable t u) : u.Proper := by
  induction hu with
  | refl => exact ht
  | tail _ hleads ih => exact h.leads hcustom ih hleads

end Reach

end ClassTable

/-! ## Fallbacks of the engine -/

namespace Generator

section Fallbacks

variable {σ : Type} {t : TypeRef σ} {mode : Mode σ}

/-- The engine renders an array without an element or a dictionary without a value: nothing is said
about what is inside. -/
def FallsBack (t : TypeRef σ) (mode : Mode σ) : Prop :=
  t.kind = .array ∧ containerPlan t mode = .finished ⟨[(.str "type", .str "array")], []⟩ ∨
    t.kind = .dictionary ∧ containerPlan t mode = .finished ⟨[(.str "type", .str "object")], []⟩

/-- The engine falls back exactly where an argument is missing. -/
theorem fallsBack_iff : FallsBack t mode ↔
    t.kind = .array ∧ t.generics = [] ∨ t.kind = .dictionary ∧ t.generics.length < 2 := by
  refine or_congr (and_congr_right fun hkind ↦ ?_) (and_congr_right fun hkind ↦ ?_)
  · unfold containerPlan
    rw [hkind]
    cases t.generics with
    | nil => simp
    | cons element rest =>
      dsimp only
      split <;> simp
  · unfold containerPlan
    rw [hkind]
    rcases t.generics with _ | ⟨key, _ | ⟨value, rest⟩⟩
    · simp
    · simp
    · simp

theorem not_fallsBack (ht : t.WellShaped) : ¬FallsBack t mode := by
  rw [fallsBack_iff]
  rintro (⟨hkind, hnone⟩ | ⟨hkind, hfew⟩)
  · have hone := ht.array hkind
    rw [hnone] at hone
    exact nomatch hone
  · exact absurd (ht.dictionary hkind) (by omega)

/-- A well-shaped type that has no other form than a reference is neither optional nor a union. -/
theorem Referable.not_wrapper {g : Generator σ} (hr : g.Referable t)
    (hincluded : g.settings.includeBuiltins = true) (ht : t.WellShaped) :
    t.fullName ≠ "typing.Optional" ∧ t.fullName ≠ "typing.Union" := by
  constructor
  · exact fun hname ↦ hr.optional hincluded ⟨hname, ht.optional hname⟩
  · intro hname
    refine hr.union hincluded ⟨hname, fun hnone ↦ ?_⟩
    have hmany := ht.union hname
    rw [hnone] at hmany
    exact nomatch hmany

end Fallbacks

end Generator

namespace ClassTable

variable {table : ClassTable} {custom : List (String × List (CustomProperty Hint))}
  {g : Generator Hint} {t r : TypeRef Hint} {mode : Mode Hint} {os cs : List (TypeRef Hint)}
  {job : Job Hint} {node : Node Hint}

theorem Proper.met (h : table.Proper) (hcustom : table.ProperProperties custom)
    (hhost : g.host = table.host custom) (ht : t.Proper)
    (hmet : g.Meets (.definition t mode) os cs job) : ∀ u ∈ job.types, u.Proper := by
  intro u hu
  obtain ⟨start, hstart, hreachable⟩ := hmet.reachable hu
  obtain rfl := List.mem_singleton.mp hstart
  exact h.reachable hcustom ht (hhost ▸ hreachable)

/-- What a build of a proper type references is proper and has no other form than a reference. -/
theorem Proper.references (h : table.Proper) (hcustom : table.ProperProperties custom)
    (hhost : g.host = table.host custom) (hprocessors : g.settings.processors = []) (ht : t.Proper)
    (hmet : g.Meets (.definition t mode) os cs job) (hnode : g.Renders job node)
    (hr : r ∈ node.references) : r.Proper ∧ g.Referable r := by
  obtain ⟨_, _, _, _, hmet, hmentions, -⟩ :=
    hnode.exists_cut (Settings.builtinsOnly_of_nil hprocessors) hr hmet
  exact ⟨h.met hcustom hhost ht hmet r List.mem_cons_self, hmentions.referable⟩

/-- **Types are well-shaped, and the engine never lacks an argument.** Whatever occurs in the type
of a proper hint is well-shaped. Building the types of proper hints and whatever they reference,
without further processors, the engine comes to no array without an element and to no dictionary
without a value, and no schema references an optional type or a union. -/
theorem Proper.well_shaped (h : table.Proper) (hcustom : table.ProperProperties custom)
    (hhost : g.host = table.host custom) (hprocessors : g.settings.processors = [])
    (hincluded : g.settings.includeBuiltins = true) :
    (∀ k t, Hint.Proper k → (table.reference k).Returns t → ∀ u ∈ t.occurring, u.WellShaped) ∧
      ∀ roots, (∀ t ∈ roots, ∃ k : Hint, k.Proper ∧ (table.reference k).Returns t) →
        ∀ inline t, g.Reached inline roots t →
          ∀ mode os cs job, g.Meets (.definition t mode) os cs job →
            (∀ u ∈ job.types, ¬Generator.FallsBack u job.mode) ∧
              ∀ node, g.Renders job node → ∀ r ∈ node.references,
                r.fullName ≠ "typing.Optional" ∧ r.fullName ≠ "typing.Union" := by
  refine ⟨fun k t hk ht u hu ↦ (proper_reference hk ht u hu).1, ?_⟩
  intro roots hroots inline t hreached
  have ht : t.Proper := by
    induction hreached with
    | root ht =>
      obtain ⟨k, hk, hreference⟩ := hroots _ ht
      exact proper_reference hk hreference
    | step _ hnode hu ih =>
      obtain ⟨budget, hnode⟩ := hnode
      exact (h.references hcustom hhost hprocessors ih .root ⟨budget, hnode⟩ hu).1
  intro mode os cs job hmet
  constructor
  · exact fun u hu ↦ Generator.not_fallsBack (h.met hcustom hhost ht hmet u hu).wellShaped
  · intro node hnode r hr
    obtain ⟨hproper, hreferable⟩ :=
      h.references hcustom hhost hprocessors ht hmet hnode hr
    exact hreferable.not_wrapper hincluded hproper.wellShaped

end ClassTable

namespace Libraries

open ClassTable

/-- A book. -/
def book : ClassName := ⟨"app", "Book"⟩

/-- A shelf of books. -/
def shelf : ClassName := ⟨"app", "Shelf"⟩

/-- Books in a row. -/
def row : Hint := .applied .native ⟨"builtins", "list"⟩ [.named book]

/-- A name or nothing. -/
def possibleName : Hint := .union true [.named .text, .named .null]

/-- A book, or its number, for every title. -/
def register : Hint :=
  .applied .native ⟨"builtins", "dict"⟩
    [.named .text, .union true [.named book, .named ⟨"builtins", "int"⟩]]

/-- Two records. -/
def declarations : List ClassSource := [
  { name := book, kind := .record, fields := [{ name := "title", hint := .named .text }] },
  { name := shelf, kind := .record,
    fields := [{ name := "books", hint := row }, { name := "owner", hint := possibleName },
      { name := "register", hint := register }] }]

/-- The module before anything is declared. -/
def empty : ClassTable where
  moduleName := "app"

/-- The table of the two records. -/
def table : ClassTable := empty.declared declarations

/-- The default engine for the records. -/
def generator : Generator Hint where
  host := table.host []

theorem proper_class {c : ClassName}
    (hc : c ∈ [book, shelf, .text, .null, ⟨"builtins", "int"⟩]) : (Hint.named c).Proper := by
  have hall : ∀ c ∈ [book, shelf, .text, .null, ⟨"builtins", "int"⟩], c.NoUnion := by decide
  exact .named (hall c hc)

theorem proper_row : row.Proper :=
  .applied (by decide) (by decide) (List.forall_mem_singleton.mpr (proper_class (by simp)))

theorem proper_possibleName : possibleName.Proper :=
  .union le_rfl (List.forall_mem_cons.mpr
    ⟨proper_class (by simp), List.forall_mem_singleton.mpr (proper_class (by simp))⟩)

theorem proper_register : register.Proper := by
  have hvalue : (Hint.union true [.named book, .named ⟨"builtins", "int"⟩]).Proper :=
    .union le_rfl (List.forall_mem_cons.mpr
      ⟨proper_class (by simp), List.forall_mem_singleton.mpr (proper_class (by simp))⟩)
  exact .applied (by decide) (by decide) (List.forall_mem_cons.mpr
    ⟨proper_class (by simp), List.forall_mem_singleton.mpr hvalue⟩)

theorem proper_record {name : ClassName} (fields : List (String × Hint))
    (hname : name.NoUnion ∧ name.TakesArguments) (hfields : ∀ f ∈ fields, f.2.Proper) :
    ClassSource.Proper
      { name, kind := .record, fields := fields.map fun f ↦ { name := f.1, hint := f.2 } } where
  noUnion := hname.1
  takes := hname.2
  bases := nofun
  fields := List.forall_mem_map.mpr fun f hf ↦ ⟨hfields f hf, nofun⟩
  values := nofun
  methods := nofun
  nested := nofun
  attached := nofun

theorem declare_libraries : empty.declare declarations = .ok table :=
  declare_eq_ok (by decide +kernel)

theorem proper : table.Proper := by
  have hempty : empty.Proper := proper_nil "app" (List.forall_mem_nil _) Runtime.proper_default
  refine proper_declare hempty ?_ declare_libraries
  refine List.forall_mem_cons.mpr ⟨?_, List.forall_mem_singleton.mpr ?_⟩
  · exact proper_record [("title", .named .text)] (by decide)
      (List.forall_mem_singleton.mpr (proper_class (by simp)))
  · exact proper_record [("books", row), ("owner", possibleName), ("register", register)]
      (by decide) (List.forall_mem_cons.mpr ⟨proper_row, List.forall_mem_cons.mpr
        ⟨proper_possibleName, List.forall_mem_singleton.mpr proper_register⟩⟩)

/-- A shelf is rendered with a reference to books, and to nothing else. -/
theorem well_shaped_shelf : ∃ t node, (table.reference (.named shelf)).Returns t ∧
    (generator.build 9 t).Returns node ∧ node.references.map (·.fullName) = ["app.Book"] ∧
      (∀ u ∈ t.occurring, u.WellShaped) ∧ (∀ mode, ¬Generator.FallsBack t mode) ∧
        ∀ r ∈ node.references, r.fullName ≠ "typing.Optional" ∧ r.fullName ≠ "typing.Union" := by
  obtain ⟨⟨t, node⟩, hboth, hreferences⟩ :
      ∃ p : TypeRef Hint × Node Hint, (do
          let t ← table.reference (.named shelf)
          return (t, ← generator.build 9 t)).Returns p ∧
        p.2.references.map (·.fullName) = ["app.Book"] :=
    exists_returns_of_map (by decide +kernel)
  obtain ⟨t, ht, hboth⟩ := returns_bind.mp hboth
  obtain ⟨node, hnode, hboth⟩ := returns_bind.mp hboth
  obtain ⟨rfl, rfl⟩ := Prod.mk.inj (returns_pure.mp hboth)
  have hshelf : (Hint.named shelf).Proper := proper_class (by simp)
  have hcustom : table.ProperProperties [] := nofun
  obtain ⟨hshapes, hbuild⟩ := proper.well_shaped (g := generator) hcustom rfl rfl rfl
  have hbuild := hbuild [t] (List.forall_mem_singleton.mpr ⟨_, hshelf, ht⟩) false t
    (.root List.mem_cons_self)
  exact ⟨t, node, ht, hnode, hreferences, hshapes _ t hshelf ht,
    fun mode ↦ (hbuild mode [] [] _ .root).1 t List.mem_cons_self,
    (hbuild _ [] [] _ .root).2 node ⟨9, hnode⟩⟩

end Libraries

end Schemata
