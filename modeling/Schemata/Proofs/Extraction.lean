import Schemata.Property
import Schemata.Proofs.Outcome

/-!
# Where properties come from

Every property of a type is contributed by one of its members or injected by the host. A contributed
property has the type, the composition and the metadata that the tags of its member declare;
`Property.OfMember` says so without the filters, which only decide whether a member contributes at
all. An injected property has a type and nothing else.

Extraction asks the host five kinds of questions and loops over lists only, so it comes to an end
when the host answers. `Host.Answers` is the assumption that it does.
-/

namespace Schemata

variable {σ : Type}

open Traced

theorem TypePlace.ofTagValue?_eq_some_iff {v : TagValue σ} {place : TypePlace σ} :
    TypePlace.ofTagValue? v = some place ↔ (∃ t, v = .type t ∧ place = .type t) ∨
      (∀ t, v ≠ .type t) ∧ v.payload ≠ .null ∧ place = .other v.payload := by
  unfold TypePlace.ofTagValue?
  split
  · simp [eq_comm]
  next htype =>
    have htype : ∀ t, v ≠ .type t := fun t h ↦ htype t h
    cases hpayload : v.payload <;> simp [htype, eq_comm]

namespace Property

variable {host : Host σ} {settings : Settings σ} {s : Scope σ} {m : Member σ} {p : Property σ}

/-! ## Contributions -/

/-- The property is what the tags and the declaration of the member say. -/
structure OfMember (owner : TypeRef σ) (m : Member σ) (p : Property σ) : Prop where
  type : typeOf m = some p.type
  composition : Composition.find? m.tags = .ok p.composition
  extra : (Extension.collect m.tags (owner.text ++ "." ++ m.name)).Returns p.extra

/-- The property has a type and nothing else. -/
structure Injected (c : CustomProperty σ) (p : Property σ) : Prop where
  type : p.type = .type c.type
  composition : p.composition = none
  extra : p.extra = []

theorem ofMember_of_returns (h : (ofMember s m).Returns (some p)) : OfMember s.owner m p := by
  unfold ofMember at h
  split at h
  · obtain ⟨-, -, h⟩ := returns_bind.mp h
    exact nomatch returns_pure.mp h
  · split at h
    · obtain ⟨-, -, h⟩ := returns_bind.mp h
      exact nomatch returns_pure.mp h
    next type htype =>
      obtain ⟨composition, hcomposition, h⟩ := returns_bind.mp h
      obtain ⟨required, -, h⟩ := returns_bind.mp h
      obtain ⟨extra, hextra, h⟩ := returns_bind.mp h
      obtain rfl := Option.some.inj (returns_pure.mp h)
      exact ⟨htype, returns_ofExcept.mp hcomposition, hextra⟩

theorem ofMember_of_contribution (h : (contribution host settings s m).Returns (some p)) :
    OfMember s.owner m p := by
  obtain ⟨accepted, -, h⟩ := returns_bind.mp h
  cases accepted with
  | false => exact nomatch returns_pure.mp h
  | true => exact ofMember_of_returns h

theorem exists_member_of_mem_contributions {ms : List (Member σ)} {ps : List (Property σ)}
    (h : (contributions host settings s ms).Returns ps) (hp : p ∈ ps) :
    ∃ m ∈ ms, OfMember s.owner m p := by
  induction ms generalizing ps with
  | nil =>
    rw [← returns_pure.mp h] at hp
    exact absurd hp List.not_mem_nil
  | cons m ms ih =>
    obtain ⟨first, hfirst, h⟩ := returns_bind.mp h
    obtain ⟨others, hothers, h⟩ := returns_bind.mp h
    rw [← returns_pure.mp h] at hp
    rcases List.mem_append.mp hp with hp | hp
    · rw [Option.mem_toList.mp hp] at hfirst
      exact ⟨m, List.mem_cons_self, ofMember_of_contribution hfirst⟩
    · obtain ⟨m', hm', hp⟩ := ih hothers hp
      exact ⟨m', List.mem_cons_of_mem m hm', hp⟩

theorem contributions_congr {host' : Host σ} {ms : List (Member σ)}
    (h : ∀ m ∈ ms, host'.isBaseMember m = host.isBaseMember m) :
    contributions host' settings s ms = contributions host settings s ms := by
  induction ms with
  | nil => rfl
  | cons m ms ih =>
    obtain ⟨hm, hms⟩ := List.forall_mem_cons.mp h
    have haccepts : accepts host' settings s m = accepts host settings s m := by
      unfold accepts
      rw [hm]
    rw [contributions, contributions, contribution, contribution, haccepts, ih hms]

/-- Of the settings only the filter has a part in extraction. -/
theorem extract_congr_of_filter {settings' : Settings σ} (h : settings'.filter = settings.filter)
    (t : TypeRef σ) (require : Bool) :
    extract host settings' t require = extract host settings t require := by
  have hcontributions : ∀ s ms, contributions host settings' s ms =
      contributions host settings s ms := by
    intro s ms
    induction ms with
    | nil => rfl
    | cons m ms ih =>
      have haccepts : accepts host settings' s m = accepts host settings s m := by
        unfold accepts
        rw [h]
      rw [contributions, contributions, contribution, contribution, haccepts, ih]
  unfold extract
  simp only [hcontributions]

/-- How the members of a type are read: the least visibility, and whether they keep their names. -/
def reading (host : Host σ) (t : TypeRef σ) : Traced (Option Visibility × Bool) := do
  let tags ← host.tags t
  let byFields := Tag.find? tags "OpenApiByFields"
  let floor ← match byFields with
    | none => pure none
    | some a => some <$> Traced.ofExcept (visibilityFloor a)
  let verbatim ← if byFields.isSome then pure true else host.isRecord t
  return (floor, verbatim)

/-- The properties of a type whose members are read in a given way. -/
def gather (host : Host σ) (settings : Settings σ) (s : Scope σ) : Traced (List (Property σ)) := do
  let members ← host.members s.owner
  let declared ← contributions host settings s members
  let custom ← host.customProperties s.owner
  return declared ++ custom.map (ofCustom s.require)

theorem outcome_extract (host : Host σ) (settings : Settings σ) (t : TypeRef σ) (require : Bool) :
    (extract host settings t require).outcome = (reading host t).outcome >>= fun r ↦
      (gather host settings { owner := t, floor := r.1, verbatim := r.2, require }).outcome := by
  unfold extract reading gather
  rw [outcome_bind, outcome_bind, bind_assoc]
  refine bind_congr fun tags ↦ ?_
  dsimp only
  cases Tag.find? tags "OpenApiByFields" with
  | none =>
    simp only [Option.isSome_none, Bool.false_eq_true, if_false, outcome_bind, bind_assoc]
    rfl
  | some a =>
    simp only [Option.isSome_some, if_true, outcome_bind, bind_assoc]
    rfl

/-- An extraction is made of the contributions of all members and the injected properties. -/
theorem scope_of_extract {t : TypeRef σ} {require : Bool} {ps : List (Property σ)}
    (h : (extract host settings t require).Returns ps) :
    ∃ s : Scope σ, s.owner = t ∧ ∃ ms declared cs, (host.members t).Returns ms ∧
      (contributions host settings s ms).Returns declared ∧
      (host.customProperties t).Returns cs ∧ declared ++ cs.map (ofCustom require) = ps := by
  rw [Returns, outcome_extract] at h
  obtain ⟨r, -, h⟩ := bind_eq_ok_iff.mp h
  obtain ⟨ms, hms, h⟩ := returns_bind.mp h
  obtain ⟨declared, hdeclared, h⟩ := returns_bind.mp h
  obtain ⟨cs, hcs, h⟩ := returns_bind.mp h
  exact ⟨_, rfl, ms, declared, cs, hms, hdeclared, hcs, returns_pure.mp h⟩

/-- Every extracted property is contributed by a member or injected. -/
theorem origin_of_mem_extract {t : TypeRef σ} {require : Bool} {ps : List (Property σ)}
    (h : (extract host settings t require).Returns ps) (hp : p ∈ ps) :
    (∃ ms, (host.members t).Returns ms ∧ ∃ m ∈ ms, OfMember t m p) ∨
      ∃ cs, (host.customProperties t).Returns cs ∧ ∃ c ∈ cs, Injected c p := by
  obtain ⟨s, rfl, ms, declared, cs, hms, hdeclared, hcs, rfl⟩ := scope_of_extract h
  rcases List.mem_append.mp hp with hp | hp
  · exact .inl ⟨ms, hms, exists_member_of_mem_contributions hdeclared hp⟩
  · obtain ⟨c, hc, rfl⟩ := List.mem_map.mp hp
    exact .inr ⟨cs, hcs, c, hc, ⟨rfl, rfl, rfl⟩⟩

end Property

/-! ## Hosts that answer -/

/-- Every question to the host is answered or fails. -/
structure Host.Answers (host : Host σ) : Prop where
  members : ∀ t, (host.members t).Ends
  tags : ∀ t, (host.tags t).Ends
  customProperties : ∀ t, (host.customProperties t).Ends
  isAssignable : ∀ t u, (host.isAssignable t u).Ends
  isRecord : ∀ t, (host.isRecord t).Ends

theorem Extension.ends_collect (tags : List (Tag σ)) (element : String) :
    (collect tags element).Ends := by
  have hattribute : ∀ tag extra entry, (addAttribute (σ := σ) element tag extra entry).Ends := by
    intro tag extra entry
    unfold addAttribute
    split <;> exact fun h ↦ nomatch h
  refine ends_bind ends_ofExcept fun named _ ↦ ends_foldlM fun extra a ↦ ?_
  unfold addCustom
  split
  · exact ends_bind (fun h ↦ nomatch h) fun _ _ ↦ ends_foldlM fun _ _ ↦ hattribute _ _ _
  · exact ends_pure

namespace Property

variable {host : Host σ} {settings : Settings σ} {s : Scope σ}

theorem ends_accepts (m : Member σ) : (accepts host settings s m).Ends := by
  have hskip : ∀ reason, (skip s m reason >>= fun _ ↦ (pure false : Traced Bool)).Ends :=
    fun reason ↦ ends_bind (fun h ↦ nomatch h) fun _ _ ↦ ends_pure
  have hlast : (if (Tag.find? m.tags "OpenApiIgnore").isSome then do
      skip s m "ignored"
      return false
    else return !host.isBaseMember m : Traced Bool).Ends := by
    split
    · exact hskip _
    · exact ends_pure
  unfold accepts
  dsimp only
  split
  · exact hskip _
  · split
    · exact ends_pure
    · split
      · split
        · exact ends_pure
        · exact hlast
      · split
        · exact hskip _
        · exact hlast

theorem ends_ofMember (m : Member σ) : (ofMember s m).Ends := by
  unfold ofMember
  split
  · exact ends_bind (fun h ↦ nomatch h) fun _ _ ↦ ends_pure
  · split
    · exact ends_bind (fun h ↦ nomatch h) fun _ _ ↦ ends_pure
    · exact ends_bind ends_ofExcept fun _ _ ↦ ends_bind ends_ofExcept fun _ _ ↦
        ends_bind (Extension.ends_collect _ _) fun _ _ ↦ ends_pure

theorem ends_contributions (ms : List (Member σ)) :
    (contributions host settings s ms).Ends := by
  induction ms with
  | nil => exact ends_pure
  | cons m ms ih =>
    refine ends_bind ?_ fun _ _ ↦ ends_bind ih fun _ _ ↦ ends_pure
    refine ends_bind (ends_accepts m) fun accepted _ ↦ ?_
    cases accepted with
    | false => exact ends_pure
    | true => exact ends_ofMember m

theorem ends_reading (h : host.Answers) (t : TypeRef σ) : (reading host t).Ends := by
  refine ends_bind (h.tags t) fun tags _ ↦ ?_
  dsimp only
  cases Tag.find? tags "OpenApiByFields" with
  | none => exact ends_bind ends_pure fun _ _ ↦ ends_bind (h.isRecord t) fun _ _ ↦ ends_pure
  | some a =>
    exact ends_bind (ends_map ends_ofExcept) fun _ _ ↦ ends_bind ends_pure fun _ _ ↦ ends_pure

theorem ends_gather (h : host.Answers) (s : Scope σ) : (gather host settings s).Ends :=
  ends_bind (h.members s.owner) fun ms _ ↦ ends_bind (ends_contributions ms) fun _ _ ↦
    ends_bind (h.customProperties s.owner) fun _ _ ↦ ends_pure

theorem ends_extract (h : host.Answers) (t : TypeRef σ) (require : Bool) :
    (extract host settings t require).Ends := by
  rw [Ends, outcome_extract, ne_eq, bind_eq_error_iff]
  rintro (hx | ⟨r, -, hx⟩)
  · exact ends_reading h t hx
  · exact ends_gather h _ hx

end Property

end Schemata
