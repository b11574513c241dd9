import Schemata.TypeGraph
import Schemata.Proofs.Extraction

/-!
# Extraction is memberwise

A member becomes a property if the filters let it pass and if it has a name and a type; then the
property is made of what the member says, of how names are read, and of the flag for required
properties. `Property.TakesPart` is the first half of that sentence and `Property.Makes` the second.
A member that takes part may still be tagged with something that cannot be read, which is a
`Property.Fault`; nothing is read of a member that takes no part.

So the properties of a type are those of the members that take part, in their order, with the
injected ones behind them. An extraction fails as the first member that takes part and cannot be
read, and members that take no part may come and go.
-/

namespace Schemata

variable {σ : Type}

open Traced

/-! ## What a member says -/

/-- The value of an attribute of the first tag with a simple name. -/
def Member.attribute (m : Member σ) (tag key : String) : Option (TagValue σ) :=
  (Tag.find? m.tags tag).bind (·.get? key)

namespace Property

variable {host : Host σ} {settings : Settings σ} {s : Scope σ} {m : Member σ} {p : Property σ}

/-- The name under which a member is a property. -/
inductive Named (verbatim : Bool) (m : Member σ) : String → Prop
  | given {v} (hgiven : m.attribute "OpenApiName" "value" = some v) :
      Named verbatim m v.payload.text
  | kept (hnone : m.attribute "OpenApiName" "value" = none)
      (hkept : verbatim = true ∨ m.kind = .property) : Named verbatim m m.name
  | derived {name} (hnone : m.attribute "OpenApiName" "value" = none) (hverbatim : verbatim = false)
      (hkind : m.kind ≠ .property) (hname : accessorProperty m.name = some name) :
      Named verbatim m name

/-- What stands in the place of the type of a member: what a tag puts there if it puts anything
there, and the declared type otherwise. -/
inductive Typed (m : Member σ) : TypePlace σ → Prop
  | given {t} (hgiven : m.attribute "OpenApiPropertyType" "defined_by" = some (.type t)) :
      Typed m (.type t)
  | misplaced {v} (hgiven : m.attribute "OpenApiPropertyType" "defined_by" = some v)
      (htype : ∀ t, v ≠ .type t) (hpayload : v.payload ≠ .null) : Typed m (.other v.payload)
  | declared {t} (hnone : m.attribute "OpenApiPropertyType" "defined_by" = none)
      (hdeclared : m.declaredType = some t) : Typed m (.type t)

theorem nameOf_of_given {verbatim : Bool} {v : TagValue σ}
    (h : m.attribute "OpenApiName" "value" = some v) :
    nameOf verbatim m = some v.payload.text := by
  rw [nameOf, show (Tag.find? m.tags "OpenApiName").bind (·.get? "value") = some v from h]

theorem nameOf_of_not_given {verbatim : Bool} (h : m.attribute "OpenApiName" "value" = none) :
    nameOf verbatim m =
      if verbatim || m.kind = .property then some m.name else accessorProperty m.name := by
  rw [nameOf, show (Tag.find? m.tags "OpenApiName").bind (·.get? "value") = none from h]

theorem named_iff {verbatim : Bool} {name : String} :
    Named verbatim m name ↔ nameOf verbatim m = some name := by
  constructor
  · rintro (⟨hgiven⟩ | ⟨hnone, hkept⟩ | ⟨hnone, hverbatim, hkind, hderived⟩)
    · exact nameOf_of_given hgiven
    · rw [nameOf_of_not_given hnone, if_pos (by simpa using hkept)]
    · rw [nameOf_of_not_given hnone, if_neg (by simp [hverbatim, hkind]), hderived]
  · intro h
    cases hattribute : m.attribute "OpenApiName" "value" with
    | some v =>
      rw [nameOf_of_given hattribute] at h
      obtain rfl := Option.some.inj h
      exact .given hattribute
    | none =>
      rw [nameOf_of_not_given hattribute] at h
      split at h
      · next hkept =>
        obtain rfl := Option.some.inj h
        exact .kept hattribute (by simpa using hkept)
      · next hkept =>
        obtain ⟨hverbatim, hkind⟩ : verbatim = false ∧ m.kind ≠ .property := by simpa using hkept
        exact .derived hattribute hverbatim hkind h

theorem typeOf_of_given {v : TagValue σ}
    (h : m.attribute "OpenApiPropertyType" "defined_by" = some v) :
    typeOf m = TypePlace.ofTagValue? v := by
  rw [typeOf,
    show (Tag.find? m.tags "OpenApiPropertyType").bind (·.get? "defined_by") = some v from h]

theorem typeOf_of_not_given (h : m.attribute "OpenApiPropertyType" "defined_by" = none) :
    typeOf m = m.declaredType.map .type := by
  rw [typeOf,
    show (Tag.find? m.tags "OpenApiPropertyType").bind (·.get? "defined_by") = none from h]

theorem typed_iff {place : TypePlace σ} : Typed m place ↔ typeOf m = some place := by
  constructor
  · rintro (⟨hgiven⟩ | ⟨hgiven, htype, hpayload⟩ | ⟨hnone, hdeclared⟩)
    · rw [typeOf_of_given hgiven]
      rfl
    · rw [typeOf_of_given hgiven]
      exact TypePlace.ofTagValue?_eq_some_iff.mpr (.inr ⟨htype, hpayload, rfl⟩)
    · rw [typeOf_of_not_given hnone, hdeclared]
      rfl
  · intro h
    cases hattribute : m.attribute "OpenApiPropertyType" "defined_by" with
    | none =>
      rw [typeOf_of_not_given hattribute] at h
      obtain ⟨t, ht, rfl⟩ := Option.map_eq_some_iff.mp h
      exact .declared hattribute ht
    | some v =>
      rw [typeOf_of_given hattribute] at h
      rcases TypePlace.ofTagValue?_eq_some_iff.mp h with ⟨t, rfl, rfl⟩ | ⟨htype, hpayload, rfl⟩
      · exact .given hattribute
      · exact .misplaced hattribute htype hpayload

/-! ## Taking part -/

/-- The filters let the member pass. -/
structure Passes (host : Host σ) (settings : Settings σ) (s : Scope σ) (m : Member σ) : Prop where
  included : ∀ f, settings.filter = some f → f.keeps s.owner m = true
  ofValue : m.isStatic = false
  accessor : s.floor = none → m.kind = .method ∨ m.kind = .property
  visible : ∀ floor, s.floor = some floor → floor.rank ≤ m.visibility.rank
  notIgnored : Tag.find? m.tags "OpenApiIgnore" = none
  notBase : host.isBaseMember m = false

/-- The member becomes a property, or cannot be read. -/
structure TakesPart (host : Host σ) (settings : Settings σ) (s : Scope σ) (m : Member σ) : Prop
    extends Passes host settings s m where
  named : ∃ name, Named s.verbatim m name
  typed : ∃ place, Typed m place

/-- Whether a member is an accessor or visible enough. -/
def reaches (floor : Option Visibility) (m : Member σ) : Bool :=
  match floor with
  | none => m.kind ≠ .field
  | some floor => floor.rank ≤ m.visibility.rank

/-- Whether the filters let a member pass. -/
def passes (host : Host σ) (settings : Settings σ) (s : Scope σ) (m : Member σ) : Bool :=
  settings.filter.all (·.keeps s.owner m) && !m.isStatic && reaches s.floor m &&
    (Tag.find? m.tags "OpenApiIgnore").isNone && !host.isBaseMember m

theorem passes_iff : Passes host settings s m ↔ passes host settings s m = true := by
  have hincluded : settings.filter.all (·.keeps s.owner m) = true ↔
      ∀ f, settings.filter = some f → f.keeps s.owner m = true := by
    cases settings.filter <;> simp
  have hreaches : reaches s.floor m = true ↔
      (s.floor = none → m.kind = .method ∨ m.kind = .property) ∧
        ∀ floor, s.floor = some floor → floor.rank ≤ m.visibility.rank := by
    have hkind : m.kind ≠ .field ↔ m.kind = .method ∨ m.kind = .property := by
      cases m.kind <;> simp
    cases s.floor <;> simp [reaches, hkind]
  simp only [passes, Bool.and_eq_true, hincluded, hreaches, Bool.not_eq_true',
    Option.isNone_iff_eq_none]
  exact ⟨fun ⟨hincluded, hvalue, haccessor, hvisible, hignored, hbase⟩ ↦
      ⟨⟨⟨⟨hincluded, hvalue⟩, haccessor, hvisible⟩, hignored⟩, hbase⟩,
    fun ⟨⟨⟨⟨hincluded, hvalue⟩, haccessor, hvisible⟩, hignored⟩, hbase⟩ ↦
      ⟨hincluded, hvalue, haccessor, hvisible, hignored, hbase⟩⟩

instance : Decidable (Passes host settings s m) := decidable_of_iff' _ passes_iff

theorem takesPart_iff : TakesPart host settings s m ↔
    Passes host settings s m ∧ (nameOf s.verbatim m).isSome ∧ (typeOf m).isSome := by
  simp only [Option.isSome_iff_exists, ← named_iff, ← typed_iff]
  exact ⟨fun h ↦ ⟨h.toPasses, h.named, h.typed⟩, fun ⟨hpasses, hnamed, htyped⟩ ↦
    ⟨hpasses, hnamed, htyped⟩⟩

instance : Decidable (TakesPart host settings s m) := decidable_of_iff' _ takesPart_iff

theorem outcome_accepts :
    (accepts host settings s m).outcome = .ok (passes host settings s m) := by
  have hany : settings.filter.any (!·.keeps s.owner m) =
      !settings.filter.all (·.keeps s.owner m) := by
    cases settings.filter <;> rfl
  unfold accepts passes
  rw [hany]
  cases settings.filter.all (·.keeps s.owner m) with
  | false => rfl
  | true =>
    cases m.isStatic with
    | true => rfl
    | false =>
      unfold reaches
      cases s.floor with
      | none =>
        cases hkind : m.kind <;> cases hignore : Tag.find? m.tags "OpenApiIgnore" <;> rfl
      | some floor =>
        dsimp only
        by_cases hvisible : floor.rank ≤ m.visibility.rank
        · rw [if_neg (Nat.not_lt.mpr hvisible), decide_eq_true hvisible]
          cases hignore : Tag.find? m.tags "OpenApiIgnore" <;> rfl
        · rw [if_pos (Nat.not_le.mp hvisible), decide_eq_false hvisible]
          rfl

/-! ## Properties and faults of members -/

end Property

theorem Extension.returns_collect_congr {tags : List (Tag σ)} {element : String} {extra : Entries}
    (element' : String) (h : (collect tags element).Returns extra) :
    (collect tags element').Returns extra := by
  have hattribute : ∀ (a : Tag σ) (es : Entries) (entry : String × TagValue σ) (es' : Entries),
      (addAttribute element a.name es entry).Returns es' ↔
        (addAttribute element' a.name es entry).Returns es' := by
    intro a es entry es'
    unfold addAttribute
    split
    · exact Iff.rfl
    · exact Iff.intro (fun h ↦ nomatch h) fun h ↦ nomatch h
    · exact Iff.rfl
  have hcustom : ∀ (es : Entries) (a : Tag σ) (es' : Entries),
      (addCustom element es a).Returns es' ↔ (addCustom element' es a).Returns es' := by
    intro es a es'
    unfold addCustom
    split
    · rw [returns_bind, returns_bind]
      exact exists_congr fun _ ↦ and_congr Iff.rfl (returns_foldlM_congr (hattribute a))
    · exact Iff.rfl
  obtain ⟨named, hnamed, h⟩ := returns_bind.mp h
  exact returns_bind.mpr ⟨named, hnamed, (returns_foldlM_congr hcustom).mp h⟩

namespace Property

/-- The property is the one that a member makes. Only where properties can be required its type is
asked whether it is primitive, and then it has to be a type. -/
structure Makes (verbatim require : Bool) (m : Member σ) (p : Property σ) : Prop where
  named : Named verbatim m p.name
  typed : Typed m p.type
  composition : Composition.find? m.tags = .ok p.composition
  required : require = true → ∃ t, p.type = .type t ∧
    p.required = (t.isPrimitive || (Tag.find? m.tags "NotNull").isSome)
  notRequired : require = false → p.required = false
  extra : ∀ element, (Extension.collect m.tags element).Returns p.extra

/-- Why a member of a type that takes part cannot be read: its composition, then what stands in the
place of its type where properties can be required, then its metadata. -/
inductive Fault (require : Bool) (owner : TypeRef σ) (m : Member σ) : Error → Prop
  | composition {e} (h : Composition.find? m.tags = .error e) : Fault require owner m e
  | type {composition v} (hcomposition : Composition.find? m.tags = .ok composition)
      (hrequire : require = true) (h : Typed m (.other v)) : Fault require owner m .noAttribute
  | extra {composition e} (hcomposition : Composition.find? m.tags = .ok composition)
      (htyped : require = true → ∃ t, Typed m (.type t))
      (h : (Extension.collect m.tags (owner.text ++ "." ++ m.name)).outcome = .error (.error e)) :
      Fault require owner m e

theorem isRequired_eq_ok_iff {require required : Bool} {place : TypePlace σ} :
    isRequired require m place = .ok required ↔
      (require = true → ∃ t, place = .type t ∧
        required = (t.isPrimitive || (Tag.find? m.tags "NotNull").isSome)) ∧
      (require = false → required = false) := by
  cases require with
  | false => simp [isRequired, eq_comm]
  | true => cases place <;> simp [isRequired, TypePlace.asType, Functor.map, Except.map, eq_comm]

theorem isRequired_eq_error_iff {require : Bool} {place : TypePlace σ} {e : Error} :
    isRequired require m place = .error e ↔
      require = true ∧ (∃ v, place = .other v) ∧ e = .noAttribute := by
  cases require with
  | false => simp [isRequired]
  | true => cases place <;> simp [isRequired, TypePlace.asType, Functor.map, Except.map, eq_comm]

theorem Makes.unique {verbatim require : Bool} {p' : Property σ} (h : Makes verbatim require m p)
    (h' : Makes verbatim require m p') : p = p' := by
  have hname : p.name = p'.name :=
    Option.some.inj ((named_iff.mp h.named).symm.trans (named_iff.mp h'.named))
  have htype : p.type = p'.type :=
    Option.some.inj ((typed_iff.mp h.typed).symm.trans (typed_iff.mp h'.typed))
  have hcomposition : p.composition = p'.composition :=
    Except.ok.inj (h.composition.symm.trans h'.composition)
  have hrequired : p.required = p'.required := by
    have hp := isRequired_eq_ok_iff.mpr ⟨h.required, h.notRequired⟩
    rw [htype] at hp
    exact Except.ok.inj (hp.symm.trans (isRequired_eq_ok_iff.mpr ⟨h'.required, h'.notRequired⟩))
  have hextra : p.extra = p'.extra := (h.extra "").unique (h'.extra "")
  cases p
  cases p'
  simp_all

/-! ## Contributions -/

theorem contribution_of_not_takesPart (h : ¬TakesPart host settings s m) :
    (contribution host settings s m).Returns none := by
  refine returns_bind.mpr ⟨_, outcome_accepts, ?_⟩
  cases hpasses : passes host settings s m with
  | false => exact returns_pure.mpr rfl
  | true =>
    rw [if_pos rfl]
    unfold ofMember
    cases hname : nameOf s.verbatim m with
    | none => exact returns_bind.mpr ⟨(), rfl, returns_pure.mpr rfl⟩
    | some name =>
      -- with a name and past the filters, only the type can be what is missing
      have htype : typeOf m = none := by
        rw [Option.eq_none_iff_forall_ne_some]
        intro place hplace
        exact h ⟨passes_iff.mpr hpasses, ⟨name, named_iff.mpr hname⟩, place, typed_iff.mpr hplace⟩
      rw [htype]
      exact returns_bind.mpr ⟨(), rfl, returns_pure.mpr rfl⟩

/-- What a member that takes part comes to is read off its composition, what stands in the place of
its type and its metadata, in this order. -/
theorem outcome_contribution (h : TakesPart host settings s m) {name : String}
    {place : TypePlace σ} (hname : Named s.verbatim m name) (htyped : Typed m place) :
    (contribution host settings s m).outcome = do
      let composition ← (Traced.ofExcept (Composition.find? m.tags)).outcome
      let required ← (Traced.ofExcept (isRequired s.require m place)).outcome
      let extra ← (Extension.collect m.tags (s.owner.text ++ "." ++ m.name)).outcome
      return some { name, type := place, composition, required, extra } := by
  unfold contribution
  rw [outcome_bind, outcome_accepts, passes_iff.mp h.toPasses]
  change (ofMember s m).outcome = _
  unfold ofMember
  rw [named_iff.mp hname, typed_iff.mp htyped]
  simp only [outcome_bind, outcome_pure]
  rfl

theorem contribution_returns_some_iff :
    (contribution host settings s m).Returns (some p) ↔
      TakesPart host settings s m ∧ Makes s.verbatim s.require m p := by
  constructor
  · intro h
    by_cases hpart : TakesPart host settings s m
    · obtain ⟨name, hname⟩ := hpart.named
      obtain ⟨place, htyped⟩ := hpart.typed
      rw [Returns, outcome_contribution hpart hname htyped] at h
      obtain ⟨composition, hcomposition, h⟩ := bind_eq_ok_iff.mp h
      obtain ⟨required, hrequired, h⟩ := bind_eq_ok_iff.mp h
      obtain ⟨extra, hextra, h⟩ := bind_eq_ok_iff.mp h
      obtain rfl := Option.some.inj (Except.ok.inj h)
      obtain ⟨hrequired, hoptional⟩ := isRequired_eq_ok_iff.mp (returns_ofExcept.mp hrequired)
      exact ⟨hpart, hname, htyped, returns_ofExcept.mp hcomposition, hrequired, hoptional,
        fun element ↦ Extension.returns_collect_congr element hextra⟩
    · cases (contribution_of_not_takesPart hpart).unique h
  · rintro ⟨hpart, hp⟩
    rw [Returns, outcome_contribution hpart hp.named hp.typed]
    refine bind_eq_ok_iff.mpr ⟨p.composition, returns_ofExcept.mpr hp.composition, ?_⟩
    refine bind_eq_ok_iff.mpr ⟨p.required, returns_ofExcept.mpr ?_, ?_⟩
    · exact isRequired_eq_ok_iff.mpr ⟨hp.required, hp.notRequired⟩
    · exact bind_eq_ok_iff.mpr ⟨p.extra, hp.extra _, rfl⟩

theorem contribution_eq_error_iff {f : Failure} :
    (contribution host settings s m).outcome = .error f ↔
      TakesPart host settings s m ∧ ∃ e, f = .error e ∧ Fault s.require s.owner m e := by
  constructor
  · intro h
    by_cases hpart : TakesPart host settings s m
    · refine ⟨hpart, ?_⟩
      obtain ⟨name, hname⟩ := hpart.named
      obtain ⟨place, htyped⟩ := hpart.typed
      rw [outcome_contribution hpart hname htyped] at h
      rcases bind_eq_error_iff.mp h with h | ⟨composition, hcomposition, h⟩
      · obtain ⟨e, hcomposition, rfl⟩ := outcome_ofExcept_eq_error_iff.mp h
        exact ⟨e, rfl, .composition hcomposition⟩
      have hcomposition := returns_ofExcept.mp hcomposition
      rcases bind_eq_error_iff.mp h with h | ⟨required, hrequired, h⟩
      · obtain ⟨e, hrequired, rfl⟩ := outcome_ofExcept_eq_error_iff.mp h
        obtain ⟨hrequire, ⟨v, rfl⟩, rfl⟩ := isRequired_eq_error_iff.mp hrequired
        exact ⟨_, rfl, .type hcomposition hrequire htyped⟩
      have hrequired := (isRequired_eq_ok_iff.mp (returns_ofExcept.mp hrequired)).1
      rcases bind_eq_error_iff.mp h with h | ⟨extra, -, h⟩
      · cases f with
        | error e =>
          refine ⟨e, rfl, .extra hcomposition (fun hrequire ↦ ?_) h⟩
          obtain ⟨t, rfl, -⟩ := hrequired hrequire
          exact ⟨t, htyped⟩
        | exhausted => exact absurd h (Extension.ends_collect _ _)
      · exact nomatch h
    · exact nomatch h.symm.trans (contribution_of_not_takesPart hpart)
  · rintro ⟨hpart, e, rfl, h⟩
    obtain ⟨name, hname⟩ := hpart.named
    obtain ⟨place, htyped⟩ := hpart.typed
    rw [outcome_contribution hpart hname htyped]
    cases h with
    | composition h =>
      exact bind_eq_error_iff.mpr (.inl (outcome_ofExcept_eq_error_iff.mpr ⟨e, h, rfl⟩))
    | @type _ v hcomposition hrequire h =>
      obtain rfl : place = .other v :=
        Option.some.inj ((typed_iff.mp htyped).symm.trans (typed_iff.mp h))
      refine bind_eq_error_iff.mpr (.inr ⟨_, returns_ofExcept.mpr hcomposition, ?_⟩)
      refine bind_eq_error_iff.mpr (.inl (outcome_ofExcept_eq_error_iff.mpr ⟨_, ?_, rfl⟩))
      exact isRequired_eq_error_iff.mpr ⟨hrequire, ⟨v, rfl⟩, rfl⟩
    | extra hcomposition hreadable h =>
      have hrequired : ∃ required, isRequired s.require m place = .ok required := by
        cases hrequire : s.require with
        | false => exact ⟨false, rfl⟩
        | true =>
          obtain ⟨t, ht⟩ := hreadable hrequire
          obtain rfl := Option.some.inj ((typed_iff.mp htyped).symm.trans (typed_iff.mp ht))
          exact ⟨_, rfl⟩
      obtain ⟨required, hrequired⟩ := hrequired
      refine bind_eq_error_iff.mpr (.inr ⟨_, returns_ofExcept.mpr hcomposition, ?_⟩)
      refine bind_eq_error_iff.mpr (.inr ⟨required, returns_ofExcept.mpr hrequired, ?_⟩)
      exact bind_eq_error_iff.mpr (.inl h)

theorem contribution_returns_none_iff :
    (contribution host settings s m).Returns none ↔ ¬TakesPart host settings s m := by
  refine ⟨fun h hpart ↦ ?_, contribution_of_not_takesPart⟩
  obtain ⟨name, hname⟩ := hpart.named
  obtain ⟨place, htyped⟩ := hpart.typed
  rw [Returns, outcome_contribution hpart hname htyped] at h
  obtain ⟨composition, -, h⟩ := bind_eq_ok_iff.mp h
  obtain ⟨required, -, h⟩ := bind_eq_ok_iff.mp h
  obtain ⟨extra, -, h⟩ := bind_eq_ok_iff.mp h
  cases h

theorem outcome_contributions (ms : List (Member σ)) :
    (contributions host settings s ms).outcome =
      List.reduceOption <$> ms.mapM fun m ↦ (contribution host settings s m).outcome := by
  induction ms with
  | nil => rfl
  | cons m ms ih =>
    rw [contributions, outcome_bind, List.mapM_cons]
    cases (contribution host settings s m).outcome with
    | error f => rfl
    | ok first =>
      change (contributions host settings s ms >>= fun others ↦ _).outcome = _
      rw [outcome_bind, ih]
      cases ms.mapM fun m ↦ (contribution host settings s m).outcome with
      | error f => rfl
      | ok others => cases first <;> rfl

theorem returns_contributions_iff {ms : List (Member σ)} {ps : List (Property σ)} :
    (contributions host settings s ms).Returns ps ↔
      List.Forall₂ (Makes s.verbatim s.require) (ms.filter (TakesPart host settings s ·)) ps := by
  induction ms generalizing ps with
  | nil =>
    rw [contributions, returns_pure, List.filter_nil, List.forall₂_nil_left_iff, eq_comm]
  | cons m ms ih =>
    rw [contributions, returns_bind]
    by_cases hm : TakesPart host settings s m
    · rw [List.filter_cons_of_pos (by simpa using hm), List.forall₂_cons_left_iff]
      constructor
      · rintro ⟨first, hfirst, h⟩
        obtain ⟨others, hothers, h⟩ := returns_bind.mp h
        cases first with
        | none => exact absurd hm (contribution_returns_none_iff.mp hfirst)
        | some p =>
          exact ⟨p, others, (contribution_returns_some_iff.mp hfirst).2, ih.mp hothers,
            (returns_pure.mp h).symm⟩
      · rintro ⟨p, others, hp, hothers, rfl⟩
        refine ⟨some p, contribution_returns_some_iff.mpr ⟨hm, hp⟩, ?_⟩
        exact returns_bind.mpr ⟨others, ih.mpr hothers, returns_pure.mpr rfl⟩
    · rw [List.filter_cons_of_neg (by simpa using hm), ← ih]
      constructor
      · rintro ⟨first, hfirst, h⟩
        obtain ⟨others, hothers, h⟩ := returns_bind.mp h
        obtain rfl := (contribution_of_not_takesPart hm).unique hfirst
        rwa [← returns_pure.mp h]
      · intro h
        refine ⟨none, contribution_of_not_takesPart hm, ?_⟩
        exact returns_bind.mpr ⟨ps, h, returns_pure.mpr rfl⟩

/-- Contributions fail as the first member that takes part and has a fault. -/
theorem contributions_eq_error_iff {ms : List (Member σ)} {f : Failure} :
    (contributions host settings s ms).outcome = .error f ↔
      ∃ before m after e, f = .error e ∧ ms = before ++ m :: after ∧
        (∀ z ∈ before, TakesPart host settings s z → ∃ p, Makes s.verbatim s.require z p) ∧
        TakesPart host settings s m ∧ Fault s.require s.owner m e := by
  -- a member is passed if it makes a property or if it takes no part
  have hreturns : ∀ z, (∃ first, (contribution host settings s z).outcome = .ok first) ↔
      (TakesPart host settings s z → ∃ p, Makes s.verbatim s.require z p) := by
    intro z
    constructor
    · rintro ⟨first, hfirst⟩ hz
      cases first with
      | none => exact absurd hz (contribution_returns_none_iff.mp hfirst)
      | some p => exact ⟨p, (contribution_returns_some_iff.mp hfirst).2⟩
    · intro h
      by_cases hz : TakesPart host settings s z
      · obtain ⟨p, hp⟩ := h hz
        exact ⟨some p, contribution_returns_some_iff.mpr ⟨hz, hp⟩⟩
      · exact ⟨none, contribution_of_not_takesPart hz⟩
  have hmapM : (contributions host settings s ms).outcome = .error f ↔
      (ms.mapM fun m ↦ (contribution host settings s m).outcome) = .error f := by
    rw [outcome_contributions]
    cases ms.mapM fun m ↦ (contribution host settings s m).outcome <;>
      simp [Functor.map, Except.map]
  rw [hmapM, mapM_eq_error_iff]
  simp only [hreturns, contribution_eq_error_iff]
  constructor
  · rintro ⟨before, m, after, hms, hbefore, hm, e, rfl, hfault⟩
    exact ⟨before, m, after, e, rfl, hms, hbefore, hm, hfault⟩
  · rintro ⟨before, m, after, e, rfl, hms, hbefore, hm, hfault⟩
    exact ⟨before, m, after, hms, hbefore, hm, e, rfl, hfault⟩

/-- A member that takes no part may come and go. -/
theorem outcome_contributions_insert (h : ¬TakesPart host settings s m)
    (before after : List (Member σ)) :
    (contributions host settings s (before ++ m :: after)).outcome =
      (contributions host settings s (before ++ after)).outcome := by
  induction before with
  | nil =>
    rw [List.nil_append, List.nil_append, contributions, outcome_bind,
      show (contribution host settings s m).outcome = .ok none from
        contribution_of_not_takesPart h]
    change (contributions host settings s after >>= fun others ↦ pure others).outcome = _
    rw [outcome_bind]
    exact bind_pure _
  | cons z before ih =>
    rw [List.cons_append, List.cons_append, contributions, contributions, outcome_bind,
      outcome_bind]
    refine bind_congr fun first ↦ ?_
    rw [outcome_bind, outcome_bind, ih]

/-! ## Extraction -/

/-- How the members of a type are read: down to a visibility and under their own names if the type
is tagged so, and as accessors if it is not. -/
inductive ReadAs (host : Host σ) (t : TypeRef σ) : Option Visibility → Bool → Prop
  | byFields {tags a floor} (htags : (host.tags t).Returns tags)
      (ha : Tag.find? tags "OpenApiByFields" = some a) (hfloor : visibilityFloor a = .ok floor) :
      ReadAs host t (some floor) true
  | byAccessors {tags record} (htags : (host.tags t).Returns tags)
      (hnone : Tag.find? tags "OpenApiByFields" = none)
      (hrecord : (host.isRecord t).Returns record) : ReadAs host t none record

theorem ReadAs.returns_reading {t : TypeRef σ} {floor : Option Visibility} {verbatim : Bool}
    (h : ReadAs host t floor verbatim) : (reading host t).Returns (floor, verbatim) := by
  cases h with
  | @byFields tags a floor htags ha hfloor =>
    refine returns_bind.mpr ⟨tags, htags, ?_⟩
    dsimp only
    rw [ha]
    refine returns_bind.mpr ⟨some floor, ?_, returns_bind.mpr ⟨true, rfl, rfl⟩⟩
    exact returns_map.mpr ⟨floor, returns_ofExcept.mpr hfloor, rfl⟩
  | @byAccessors tags record htags hnone hrecord =>
    refine returns_bind.mpr ⟨tags, htags, ?_⟩
    dsimp only
    rw [hnone]
    exact returns_bind.mpr ⟨none, rfl, returns_bind.mpr ⟨verbatim, hrecord, rfl⟩⟩

theorem readAs_of_returns {t : TypeRef σ} {floor : Option Visibility} {verbatim : Bool}
    (h : (reading host t).Returns (floor, verbatim)) : ReadAs host t floor verbatim := by
  obtain ⟨tags, htags, h⟩ := returns_bind.mp h
  cases ha : Tag.find? tags "OpenApiByFields" with
  | none =>
    rw [ha] at h
    obtain ⟨floor', hfloor, h⟩ := returns_bind.mp h
    obtain ⟨verbatim', hverbatim, h⟩ := returns_bind.mp h
    obtain ⟨rfl, rfl⟩ := Prod.mk.inj (returns_pure.mp h)
    obtain rfl := returns_pure.mp hfloor
    exact .byAccessors htags ha hverbatim
  | some a =>
    rw [ha] at h
    obtain ⟨floor', hfloor, h⟩ := returns_bind.mp h
    obtain ⟨verbatim', hverbatim, h⟩ := returns_bind.mp h
    obtain ⟨rfl, rfl⟩ := Prod.mk.inj (returns_pure.mp h)
    obtain ⟨least, hleast, rfl⟩ := returns_map.mp hfloor
    obtain rfl := returns_pure.mp hverbatim
    exact .byFields htags ha (returns_ofExcept.mp hleast)

section Main

variable {t : TypeRef σ} {floor : Option Visibility} {verbatim require : Bool}
  {ms : List (Member σ)} {cs : List (CustomProperty σ)}

/-- How members are read is known, and so are they: what is left are their contributions. -/
theorem outcome_extract_of_readAs (hread : ReadAs host t floor verbatim)
    (hms : (host.members t).Returns ms) (hcs : (host.customProperties t).Returns cs) :
    (extract host settings t require).outcome =
      (· ++ cs.map (ofCustom require)) <$>
        (contributions host settings ⟨t, floor, verbatim, require⟩ ms).outcome := by
  rw [outcome_extract, show (reading host t).outcome = _ from hread.returns_reading]
  change (gather host settings ⟨t, floor, verbatim, require⟩).outcome = _
  rw [gather, outcome_bind, show (host.members t).outcome = _ from hms]
  change (_ : Traced _).outcome = _
  rw [outcome_bind]
  cases (contributions host settings ⟨t, floor, verbatim, require⟩ ms).outcome with
  | error f => rfl
  | ok declared =>
    change (host.customProperties t >>= fun custom ↦ _).outcome = _
    rw [outcome_bind, show (host.customProperties t).outcome = _ from hcs]
    rfl

/-- The properties of a type are those of the members that take part and the injected ones. -/
theorem returns_extract_iff (hread : ReadAs host t floor verbatim)
    (hms : (host.members t).Returns ms) (hcs : (host.customProperties t).Returns cs)
    {ps : List (Property σ)} :
    (extract host settings t require).Returns ps ↔
      ∃ declared, List.Forall₂ (Makes verbatim require)
        (ms.filter (TakesPart host settings ⟨t, floor, verbatim, require⟩ ·)) declared ∧
        ps = declared ++ cs.map (ofCustom require) := by
  rw [Returns, outcome_extract_of_readAs hread hms hcs]
  have hcontributions : ∀ declared,
      (contributions host settings ⟨t, floor, verbatim, require⟩ ms).Returns declared ↔ _ :=
    fun _ ↦ returns_contributions_iff
  simp only [← hcontributions, Returns]
  cases (contributions host settings ⟨t, floor, verbatim, require⟩ ms).outcome <;>
    simp [Functor.map, Except.map, eq_comm]

/-- What is extracted has been read in some way. -/
theorem exists_readAs {ps : List (Property σ)} (h : (extract host settings t require).Returns ps) :
    ∃ floor verbatim ms cs declared, ReadAs host t floor verbatim ∧ (host.members t).Returns ms ∧
      (host.customProperties t).Returns cs ∧
      List.Forall₂ (Makes verbatim require)
        (ms.filter (TakesPart host settings ⟨t, floor, verbatim, require⟩ ·)) declared ∧
      ps = declared ++ cs.map (ofCustom require) := by
  rw [Returns, outcome_extract] at h
  obtain ⟨⟨floor, verbatim⟩, hreading, h⟩ := bind_eq_ok_iff.mp h
  obtain ⟨ms, hms, h⟩ := returns_bind.mp h
  obtain ⟨declared, hdeclared, h⟩ := returns_bind.mp h
  obtain ⟨cs, hcs, h⟩ := returns_bind.mp h
  exact ⟨floor, verbatim, ms, cs, declared, readAs_of_returns hreading, hms, hcs,
    returns_contributions_iff.mp hdeclared, (returns_pure.mp h).symm⟩

/-- An extraction fails as the first member that takes part and has a fault. -/
theorem extract_eq_error_iff (hread : ReadAs host t floor verbatim)
    (hms : (host.members t).Returns ms) (hcs : (host.customProperties t).Returns cs)
    {f : Failure} :
    (extract host settings t require).outcome = .error f ↔
      ∃ before m after e, f = .error e ∧ ms = before ++ m :: after ∧
        (∀ z ∈ before, TakesPart host settings ⟨t, floor, verbatim, require⟩ z →
          ∃ p, Makes verbatim require z p) ∧
        TakesPart host settings ⟨t, floor, verbatim, require⟩ m ∧ Fault require t m e := by
  have hcontributions :
      (contributions host settings ⟨t, floor, verbatim, require⟩ ms).outcome = .error f ↔ _ :=
    contributions_eq_error_iff
  rw [outcome_extract_of_readAs hread hms hcs, ← hcontributions]
  cases (contributions host settings ⟨t, floor, verbatim, require⟩ ms).outcome <;>
    simp [Functor.map, Except.map]

end Main

end Property

/-- The host with other members for every type. -/
def Host.withMembers (host : Host σ) (ms : List (Member σ)) : Host σ :=
  { host with members := fun _ ↦ pure ms }

namespace Property

/-- **Extraction is memberwise.** Let the members of a type be read in some way, and let there be
any number of them. The properties are one for each member that takes part, in their order, and
then the injected ones; each is settled by the member, by how names are read and by the flag.
The extraction fails exactly if a member that takes part has a fault and all members before it that
take part have none, with the error of that member. A member that takes no part changes neither,
wherever it stands and whatever it is tagged with. -/
theorem extract_memberwise {t : TypeRef σ} {floor : Option Visibility} {verbatim : Bool}
    {cs : List (CustomProperty σ)} (hread : ReadAs host t floor verbatim)
    (hcs : (host.customProperties t).Returns cs) (settings : Settings σ) (require : Bool) :
    (∀ ms ps, (extract (host.withMembers ms) settings t require).Returns ps ↔
      ∃ declared, List.Forall₂ (Makes verbatim require)
        (ms.filter (TakesPart host settings ⟨t, floor, verbatim, require⟩ ·)) declared ∧
        ps = declared ++ cs.map (ofCustom require)) ∧
    (∀ ms f, (extract (host.withMembers ms) settings t require).outcome = .error f ↔
      ∃ before m after e, f = .error e ∧ ms = before ++ m :: after ∧
        (∀ z ∈ before, TakesPart host settings ⟨t, floor, verbatim, require⟩ z →
          ∃ p, Makes verbatim require z p) ∧
        TakesPart host settings ⟨t, floor, verbatim, require⟩ m ∧ Fault require t m e) ∧
    (∀ (m : Member σ) p p', Makes verbatim require m p → Makes verbatim require m p' → p = p') ∧
    ∀ before m after, ¬TakesPart host settings ⟨t, floor, verbatim, require⟩ m →
      (extract (host.withMembers (before ++ m :: after)) settings t require).outcome =
        (extract (host.withMembers (before ++ after)) settings t require).outcome := by
  have hread' : ∀ ms, ReadAs (host.withMembers ms) t floor verbatim := by
    intro ms
    cases hread with
    | byFields htags ha hfloor => exact .byFields htags ha hfloor
    | byAccessors htags hnone hrecord => exact .byAccessors htags hnone hrecord
  -- neither who takes part nor what a member makes depends on the members there are
  have htakesPart : ∀ ms s m,
      TakesPart (host.withMembers ms) settings s m ↔ TakesPart host settings s m := by
    intro ms s m
    rw [takesPart_iff, takesPart_iff, passes_iff, passes_iff]
    rfl
  have hcontributions : ∀ ms s ms',
      contributions (host.withMembers ms) settings s ms' = contributions host settings s ms' :=
    fun _ _ _ ↦ contributions_congr fun _ _ ↦ rfl
  refine ⟨fun ms ps ↦ ?_, fun ms f ↦ ?_, fun _ _ _ hp hp' ↦ hp.unique hp',
    fun before m after hm ↦ ?_⟩
  · rw [returns_extract_iff (hread' ms) rfl hcs]
    simp only [htakesPart]
  · rw [extract_eq_error_iff (hread' ms) rfl hcs]
    simp only [htakesPart]
  · rw [outcome_extract_of_readAs (hread' _) rfl hcs, outcome_extract_of_readAs (hread' _) rfl hcs,
      hcontributions, hcontributions, outcome_contributions_insert hm]

end Property

/-! ## Accounts

An account is read by its fields down to protected ones. Its balance is read; its secret is tagged
with a composition of nothing that could be composed, which matters only if the secret can be seen.
-/

namespace Accounts

/-- The type of whole numbers. -/
def number : TypeRef Unit :=
  { fullName := "builtins.int", simpleName := "int", kind := .primitive }

/-- An account. -/
def account : TypeRef Unit := { fullName := "bank.Account", simpleName := "Account" }

/-- The declarations. -/
def graph : TypeGraph Unit where
  declarations :=
    [{ type := account,
       tags := [.mk "marks.OpenApiByFields" [("value", .enumConstant (.str "protected"))] false],
       custom := [⟨"links", number⟩] }]

/-- The balance of an account. -/
def balance : Member Unit := { name := "balance", kind := .field, declaredType := some number }

/-- The property that the balance makes. -/
def balanceProperty : Property Unit :=
  { name := "balance", type := .type number, extra := [(.str "example", .null)] }

/-- The secret of an account. -/
def secret (visibility : Visibility) : Member Unit :=
  { name := "secret", kind := .field, declaredType := some number, visibility,
    tags := [.mk "marks.OneOf" [("value", .boolean (.bool true))] false] }

/-- How the members of an account are read. -/
abbrev scope : Property.Scope Unit := ⟨account, some .subtypes, true, true⟩

theorem readAs_account : Property.ReadAs graph.host account (some .subtypes) true :=
  .byFields rfl rfl rfl

/-- The balance of an account is a property, a private secret changes nothing wherever it stands,
and a public one is an error. -/
theorem extract_memberwise_account :
    Property.ReadAs graph.host account (some .subtypes) true ∧
    (graph.host.customProperties account).Returns [⟨"links", number⟩] ∧
    (Property.extract (graph.host.withMembers [secret .ownType, balance]) {} account true).Returns
      [balanceProperty, { name := "links", type := .type number }] ∧
    (Property.extract (graph.host.withMembers [balance, secret .everyone])
        {} account true).outcome =
      .error (.error (.validation "marks.OneOf.value" "must be an array of types" .null)) := by
  have hbalance : Property.TakesPart graph.host {} scope balance :=
    Property.takesPart_iff.mpr ⟨Property.passes_iff.mpr rfl, rfl, rfl⟩
  have hmakes : Property.Makes true true balance balanceProperty :=
    ⟨.kept rfl (.inl rfl), .declared rfl rfl, rfl, fun _ ↦ ⟨number, rfl, rfl⟩, (nomatch ·),
      fun _ ↦ rfl⟩
  have hcustom : (graph.host.customProperties account).Returns [⟨"links", number⟩] := rfl
  obtain ⟨hreturns, hfails, -, hinsert⟩ :=
    Property.extract_memberwise readAs_account hcustom {} true
  refine ⟨readAs_account, hcustom, ?_, ?_⟩
  · have hsecret : ¬Property.TakesPart graph.host {} scope (secret .ownType) := fun h ↦
      nomatch h.visible .subtypes rfl
    have htaken : ([balance].filter fun m ↦ Property.TakesPart graph.host {} scope m) = [balance] :=
      List.filter_cons_of_pos (decide_eq_true hbalance)
    refine (hinsert [] _ [balance] hsecret).trans ?_
    refine (hreturns [balance] _).mpr ⟨[balanceProperty], ?_, rfl⟩
    rw [htaken]
    exact .cons hmakes .nil
  · have hsecret : Property.TakesPart graph.host {} scope (secret .everyone) :=
      Property.takesPart_iff.mpr ⟨Property.passes_iff.mpr rfl, rfl, rfl⟩
    refine (hfails _ _).mpr ⟨[balance], secret .everyone, [], _, rfl, rfl, ?_, hsecret, ?_⟩
    · exact List.forall_mem_singleton.mpr fun _ ↦ ⟨_, hmakes⟩
    · exact .composition rfl

end Accounts

end Schemata
