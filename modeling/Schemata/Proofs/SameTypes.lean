import Schemata.Proofs.MembersAlike

/-!
# References to the same type

The engine takes two references with equal names and arguments for one type and asks the host about
one of them only. What the host then answers depends on the handle of that reference, which may hold
more than the names: an argument of a class carries its metadata there, and its literal values.

For the custom properties, the tags and the question whether a type is a record, this makes no
difference. For the members it makes none if what the two handles put in for type parameters is
`ClassTable.Interchangeable`: corresponding arguments show the same traits, and no hint that the
class declares drops a part as a repetition when the arguments are put into it. Handles that put
nothing in satisfy this for nothing. `ClassTable.answers_of_same` is the statement for all four
answers, and `Boxes.members_of_ignored` shows that the members cannot do without the condition.
-/

namespace Schemata

/-- Whether a hint is a union written with the bar. -/
def Hint.isBarred : Hint → Bool
  | union bar _ => bar
  | _ => false

namespace ClassTable

variable {table : ClassTable}

/-! ## Handles of one class -/

/-- A hint applies a class in the way the class takes arguments. -/
def Formed (table : ClassTable) : Hint → Prop
  | .applied .generic c args => ∃ given, table.applyClass c given = .ok (.applied .generic c args)
  | .model c args => ∃ given, table.applyClass c given = .ok (.model c args)
  | _ => True

/-- What two handles put into the members of their class can be interchanged. -/
structure Interchangeable (table : ClassTable) (k₁ k₂ : Hint) : Prop where
  /-- Unions are written with the bar both times, or neither time. -/
  bar : k₁.isBarred = k₂.isBarred
  /-- Corresponding arguments show the same traits. -/
  traits : List.Forall₂ (fun a b ↦ a.traits table = b.traits table) k₁.fillers k₂.fillers
  /-- No member's hint drops a part as a repetition when the arguments are put into it. -/
  keeps : ∀ c ∈ k₁.head?, ∀ h, table.Declares c h →
    table.KeepsParts (table.filling k₁) (table.filling k₂) h
  /-- The fields of a model are built completely when the arguments are in their place. -/
  built : ∀ k ∈ [k₁, k₂], k.fillers ≠ [] →
    ∀ field ∈ table.modelHints k, field.2.substitute [] = field.2

/-- What a class makes of arguments: a container takes them as they are, a model with type
parameters becomes a class of its own, and any other class with type parameters is applied. -/
theorem applyClass_cases {c : ClassName} {given : List Hint} {k : Hint}
    (h : table.applyClass c given = .ok k) :
    (k = .applied .native c given ∨ k = .named c) ∨
      (k = .applied .generic c (given.map Hint.asArgument) ∧
        (table.isModel (.named c) → c = ClassName.generic)) ∨
      (k = .model c given ∧ table.isModel (.named c) ∧ c ≠ ClassName.generic ∧ given ≠ []) := by
  unfold applyClass at h
  dsimp only at h
  split at h
  · rename_i hgeneric
    exact .inr (.inl ⟨(Except.ok.inj h).symm.trans (by rw [hgeneric]), fun _ ↦ hgeneric⟩)
  · rename_i hgeneric
    split at h
    · rename_i d hd
      split at h
      · split at h
        · exact .inl (.inl (Except.ok.inj h).symm)
        · exact nomatch h
      · rename_i hparameters
        split at h
        · exact nomatch h
        · rename_i hlength
          split at h
          · rename_i hmodel
            split at h
            · exact .inl (.inr (Except.ok.inj h).symm)
            · refine .inr (.inr ⟨(Except.ok.inj h).symm, hmodel, hgeneric, fun hnil ↦ ?_⟩)
              rw [hnil] at hlength
              exact hparameters
                (List.isEmpty_iff.mpr (List.length_eq_zero_iff.mp (not_not.mp hlength).symm))
          · rename_i hmodel
            exact .inr (.inl ⟨(Except.ok.inj h).symm, fun h ↦ absurd h hmodel⟩)
    · split at h
      · exact .inl (.inl (Except.ok.inj h).symm)
      · exact nomatch h

section Handles

variable {c : ClassName} {k k₁ k₂ : Hint} {args : List Hint}

theorem Formed.model (h : table.Formed (.model c args)) :
    table.isModel (.named c) ∧ c ≠ ClassName.generic ∧ args ≠ [] := by
  obtain ⟨given, h⟩ := h
  obtain (h | h) | ⟨h, -⟩ | ⟨h, hmodel, hgeneric, hne⟩ := applyClass_cases h
  · exact nomatch h
  · exact nomatch h
  · exact nomatch h
  · obtain rfl := (Hint.model.inj h).2
    exact ⟨hmodel, hgeneric, hne⟩

theorem Formed.generic (h : table.Formed (.applied .generic c args))
    (hmodel : table.isModel (.named c)) : c = ClassName.generic := by
  obtain ⟨given, h⟩ := h
  obtain (h | h) | ⟨-, hgeneric⟩ | ⟨h, -⟩ := applyClass_cases h
  · exact nomatch h
  · exact nomatch h
  · exact hgeneric hmodel
  · exact nomatch h

theorem application_of_fillers (hk : k.head? = some c) (hne : k.fillers ≠ []) :
    k = .applied .generic c k.fillers ∨ k = .model c k.fillers := by
  unfold Hint.fillers at hne ⊢
  split at hne
  · obtain rfl := Option.some.inj hk
    exact .inl rfl
  · obtain rfl := Option.some.inj hk
    exact .inr rfl
  · exact absurd rfl hne

/-- A handle of a class that puts in as much as a model does is that model. -/
theorem Formed.model_of_fillers {R : Hint → Hint → Prop}
    (fillers : List.Forall₂ R args k.fillers) (hc : k.head? = some c)
    (formed : table.Formed (.model c args)) (formed' : table.Formed k) :
    k = .model c k.fillers := by
  obtain ⟨hmodel, hgeneric, hne⟩ := formed.model
  have hne' : k.fillers ≠ [] := by
    intro hnil
    rw [hnil, List.forall₂_nil_right_iff] at fillers
    exact hne fillers
  obtain h | h := application_of_fillers hc hne'
  · rw [h] at formed'
    exact absurd (formed'.generic hmodel) hgeneric
  · exact h

theorem bindingsOf_nil (parameters : List Hint) : Hint.bindingsOf parameters [] = [] := by
  rw [Hint.bindingsOf, List.zip_nil_right, List.filterMap_nil]

theorem filling_eq_nil (h : k.fillers = []) : table.filling k = [] := by
  rw [filling, h]
  cases k.head? with
  | none => rfl
  | some c => exact bindingsOf_nil _

theorem bindings_of_source {t : TypeRef Hint} (hs : t.source = some k) (hc : k.head? = some c)
    (hmodel : ∀ args, k ≠ .model c args) : table.bindings t = table.filling k := by
  rw [bindings, hs]
  split
  · rename_i d args hk
    obtain rfl := Option.some.inj hk
    obtain rfl := Option.some.inj hc
    rfl
  · rename_i hgeneric
    have hnil : k.fillers = [] := by
      unfold Hint.fillers
      split
      · exact absurd rfl (hgeneric _ _)
      · obtain rfl := Option.some.inj hc
        exact absurd rfl (hmodel _)
      · rfl
    rw [filling_eq_nil hnil]

/-- Arguments with references to the same types are alike if they show the same traits. -/
theorem alike_of_generics {as bs : List Hint} {ts us : List (TypeRef Hint)}
    (has : List.Forall₂ (fun a t ↦ (table.reference a).Returns t) as ts)
    (hbs : List.Forall₂ (fun b u ↦ (table.reference b).Returns u) bs us)
    (same : ts.map TypeRef.identity = us.map TypeRef.identity)
    (traits : List.Forall₂ (fun a b ↦ a.traits table = b.traits table) as bs) :
    List.Forall₂ table.Alike as bs := by
  induction traits generalizing ts us with
  | nil => exact .nil
  | cons hab _ ih =>
    cases has with
    | cons ha has =>
      cases hbs with
      | cons hb hbs =>
        obtain ⟨htu, same⟩ := List.cons.inj same
        exact .cons ⟨.of_returns ha hb htu, hab⟩ (ih has hbs same)

/-- Handles of one class and one reference put alike hints in for the type parameters. -/
theorem alikeBindings_filling {t₁ t₂ : TypeRef Hint} (hc₁ : k₁.head? = some c)
    (hc₂ : k₂.head? = some c) (e₁ : (table.reference k₁).Returns t₁)
    (e₂ : (table.reference k₂).Returns t₂) (same : t₁.identity = t₂.identity)
    (traits : List.Forall₂ (fun a b ↦ a.traits table = b.traits table) k₁.fillers k₂.fillers) :
    table.AlikeBindings (table.filling k₁) (table.filling k₂) := by
  rw [filling, filling, hc₁, hc₂]
  dsimp only
  cases hd : table.find? c with
  | none => exact .refl []
  | some d =>
    by_cases hne : k₁.fillers = []
    · rw [hne, List.forall₂_nil_left_iff] at traits
      rw [hne, traits]
      exact .refl _
    · have hne₂ : k₂.fillers ≠ [] := by
        intro hnil
        rw [hnil, List.forall₂_nil_right_iff] at traits
        exact hne traits
      have hform {k : Hint} (h : k = .applied .generic c k.fillers ∨ k = .model c k.fillers) :
          (∃ style, k = .applied style c k.fillers) ∨ k = .model c k.fillers :=
        h.imp_left fun h ↦ ⟨.generic, h⟩
      exact alikeBindings_bindingsOf (alike_of_generics
        (forall₂_generics hd (hform (application_of_fillers hc₁ hne)) e₁)
        (forall₂_generics hd (hform (application_of_fillers hc₂ hne₂)) e₂)
        (TypeRef.generics_eq_of_identity same) traits) d.parameters

end Handles

/-! ## The answers -/

section Answers

variable {h₁ h₂ : Hint} {t₁ t₂ : TypeRef Hint}

/-- References whose handles are of one class have members that look the same. -/
theorem sameUpTo_members_of_heads {c : ClassName} (hc₁ : (table.handle h₁).head? = some c)
    (hc₂ : (table.handle h₂).head? = some c) (e₁ : (table.reference h₁).Returns t₁)
    (e₂ : (table.reference h₂).Returns t₂) (formed₁ : table.Formed (table.handle h₁))
    (formed₂ : table.Formed (table.handle h₂)) (same : t₁.identity = t₂.identity)
    (i : table.Interchangeable (table.handle h₁) (table.handle h₂)) :
    Traced.SameUpTo (List.map Member.identity) (table.members t₁) (table.members t₂) := by
  have hs₁ := source_of_reference e₁
  have hs₂ := source_of_reference e₂
  have halike : ∀ h, table.Declares c h →
      table.Alike (h.substitute (table.filling (table.handle h₁)))
        (h.substitute (table.filling (table.handle h₂))) :=
    fun h hh ↦ alike_substitute (alikeBindings_filling hc₁ hc₂ (returns_reference_handle.mpr e₁)
      (returns_reference_handle.mpr e₂) same i.traits) (i.keeps c hc₁ h hh)
  by_cases hm : (∃ args, table.handle h₁ = .model c args) ∨ ∃ args, table.handle h₂ = .model c args
  · have hmodels : ∃ args₁ args₂, table.handle h₁ = .model c args₁ ∧
        table.handle h₂ = .model c args₂ := by
      have fillers := i.traits
      obtain ⟨args, hk⟩ | ⟨args, hk⟩ := hm
      · rw [hk] at fillers formed₁
        exact ⟨args, _, hk, formed₁.model_of_fillers fillers hc₂ formed₂⟩
      · rw [hk] at fillers formed₂
        exact ⟨_, args, formed₂.model_of_fillers fillers.flip hc₁ formed₁, hk⟩
    obtain ⟨args₁, args₂, hk₁, hk₂⟩ := hmodels
    rw [hk₁] at hs₁ formed₁ halike
    rw [hk₂] at hs₂ formed₂ halike
    have built₁ := i.built _ List.mem_cons_self
    have built₂ := i.built _ (List.mem_cons_of_mem _ List.mem_cons_self)
    rw [hk₁] at built₁
    rw [hk₂] at built₂
    exact sameUpTo_members_of_model formed₁.model.1 hs₁ hs₂ same
      (fun name h hh ↦ halike h (.field hh)) (built₁ formed₁.model.2.2) (built₂ formed₂.model.2.2)
  · rw [not_or, not_exists, not_exists] at hm
    have hclass {k : Hint} (hc : k.head? = some c) (hm : ∀ args, k ≠ .model c args) :
        k.classBehind = some (.named c) := by
      obtain h | ⟨args, h⟩ := Hint.classBehind_of_head hc
      · exact h
      · exact absurd h (hm args)
    refine sameUpTo_members_of_named ((classOf_of_reference e₁).trans (hclass hc₁ hm.1))
      ((classOf_of_reference e₂).trans (hclass hc₂ hm.2)) (by rw [hs₁, hs₂]; rfl) same ?_
    rw [bindings_of_source hs₁ hc₁ hm.1, bindings_of_source hs₂ hc₂ hm.2]
    exact halike

/-- References to unions that are written alike have no members, or no answer. -/
theorem sameUpTo_members_of_unions {bar : Bool} {members₁ members₂ : List Hint}
    (hu₁ : table.handle h₁ = .union bar members₁) (hu₂ : table.handle h₂ = .union bar members₂)
    (e₁ : (table.reference h₁).Returns t₁) (e₂ : (table.reference h₂).Returns t₂)
    (same : t₁.identity = t₂.identity) :
    Traced.SameUpTo (List.map Member.identity) (table.members t₁) (table.members t₂) := by
  have hs₁ := (source_of_reference e₁).trans (congrArg some hu₁)
  have hs₂ := (source_of_reference e₂).trans (congrArg some hu₂)
  have hclass₁ : table.classOf t₁ = (Hint.union bar members₁).classBehind := by rw [classOf, hs₁]
  have hclass₂ : table.classOf t₂ = (Hint.union bar members₂).classBehind := by rw [classOf, hs₂]
  cases bar with
  | false =>
    rw [members, members, hclass₁, hclass₂]
    exact .refl _
  | true =>
    refine sameUpTo_members_of_named hclass₁ hclass₂ (by rw [hs₁, hs₂]; rfl) same fun h _ ↦ ?_
    rw [bindings, bindings, hs₁, hs₂]

/-- **References to the same type get the same answers.** The custom properties, the tags and
whether the type is a record never depend on the handle; the members do not, if what the two handles
put in for type parameters can be interchanged. -/
theorem answers_of_same (own : table.OwnNames) (custom : List (String × List (CustomProperty Hint)))
    (e₁ : (table.reference h₁).Returns t₁) (e₂ : (table.reference h₂).Returns t₂)
    (names : Hint.ToldApart (table.handle h₁) (table.handle h₂))
    (formed₁ : table.Formed (table.handle h₁)) (formed₂ : table.Formed (table.handle h₂))
    (same : t₁ == t₂) :
    (table.host custom).customProperties t₁ = (table.host custom).customProperties t₂ ∧
    (table.host custom).isRecord t₁ = (table.host custom).isRecord t₂ ∧
    Traced.SameUpTo (List.map Tag.identity) ((table.host custom).tags t₁)
      ((table.host custom).tags t₂) ∧
    (table.Interchangeable (table.handle h₁) (table.handle h₂) →
      Traced.SameUpTo (List.map Member.identity) ((table.host custom).members t₁)
        ((table.host custom).members t₂)) := by
  have hsame := TypeRef.beq_iff_identity.mp same
  refine ⟨?_, ?_, tags_of_same own e₁ e₂ names same, fun i ↦ ?_⟩
  · exact congrArg (fun name ↦ pure ((Keyed.get? custom name).getD []))
      (TypeRef.fullName_eq_of_identity hsame)
  · exact congrArg pure (isRecord_of_same own e₁ e₂ names same)
  · obtain ⟨c, hc₁, hc₂⟩ | ⟨⟨bar₁, members₁, hu₁⟩, ⟨bar₂, members₂, hu₂⟩⟩ :=
      heads_of_same e₁ e₂ names same
    · exact sameUpTo_members_of_heads hc₁ hc₂ e₁ e₂ formed₁ formed₂ hsame i
    · have hbar := i.bar
      rw [hu₁, hu₂] at hbar
      rw [show bar₂ = bar₁ from hbar.symm] at hu₂
      exact sameUpTo_members_of_unions hu₁ hu₂ e₁ e₂ hsame

end Answers

end ClassTable

/-! ## Boxes -/

namespace Boxes

/-- The type parameter of the classes. -/
def content : Hint := .parameter "T"

/-- A box of one thing, which may hold a spare one. -/
def box : ClassName := ⟨"app", "Box"⟩

/-- A choice between a thing and a text. -/
def choice : ClassName := ⟨"app", "Choice"⟩

/-- A record with a type parameter and fields of the given types. -/
def record (name : ClassName) (fields : List (String × Hint)) : DeclaredClass where
  name := name
  ancestry := [.named name, .named .generic, .named .root]
  parameters := [content]
  hints := fields
  record := some { fields := fields.map fun field ↦ { name := field.1 } }

/-- The fields of a box. -/
def boxFields : List (String × Hint) :=
  [("item", content), ("spare", .union false [content, .named .null])]

/-- The two records. -/
def table : ClassTable where
  moduleName := "app"
  parameters := [("T", content)]
  classes := [record box boxFields,
    record choice [("value", .union false [content, .named .text])]]

/-- A text. -/
def text : Hint := .named .text

/-- One certain text. -/
def oneText : Hint := .literal [.plain (.str "a")]

/-- A text that the schema is to leave out. -/
def ignoredText : Hint := .annotated text [.made ⟨Marker.home, "OpenApiIgnore"⟩ .marker []]

/-- A record of the given content. -/
def holding (name : ClassName) (h : Hint) : Hint := .applied .generic name [h]

/-- What a record of a text refers to, whichever of the three texts it is. -/
def reference (name : ClassName) (h : Hint) : TypeRef Hint where
  fullName := name.fullName
  simpleName := name.simpleName
  generics := [{ fullName := "builtins.str", simpleName := "str", source := some text }]
  source := some (holding name h)

theorem ownNames : table.OwnNames := by
  rw [ClassTable.OwnNames]
  decide +kernel

theorem returns_hintsOf_box : (table.hintsOf (.named box)).Returns boxFields := by
  rw [Traced.Returns]
  with_unfolding_all rfl

theorem filling_text : table.filling (holding box text) = [("T", text)] := rfl

theorem filling_oneText : table.filling (holding box oneText) = [("T", oneText)] := rfl

theorem separate_spare {b : Hint.Bindings}
    (hb : b ∈ [table.filling (holding box text), table.filling (holding box oneText)]) :
    Hint.Separate (Hint.substituteAll b [content, .named .null]) := by
  rw [filling_text, filling_oneText] at hb
  obtain rfl | rfl := List.mem_pair.mp hb
  · have hparts : Hint.substituteAll [("T", text)] [content, .named .null] =
        [text, .named .null] := by with_unfolding_all rfl
    rw [hparts]
    refine ⟨by simp [text, Hint.isUnion], ?_⟩
    simp [text, Hint.Apart, Hint.asArgument, Hint.beq_eq_same, Hint.same]
    decide
  · have hparts : Hint.substituteAll [("T", oneText)] [content, .named .null] =
        [oneText, .named .null] := by with_unfolding_all rfl
    rw [hparts]
    refine ⟨by simp [oneText, Hint.isUnion], ?_⟩
    simp [oneText, Hint.Apart, Hint.asArgument, Hint.beq_eq_same, Hint.same]

theorem keepsParts_box {h : Hint} (hh : table.Declares box h) :
    table.KeepsParts (table.filling (holding box text)) (table.filling (holding box oneText))
      h := by
  have hrecord : table.isRecord (.named box) = true := rfl
  cases hh with
  | field hh => exact absurd hh List.not_mem_nil
  | place _ hhints hh =>
    obtain rfl := hhints.unique returns_hintsOf_box
    obtain rfl | rfl : h = content ∨ h = .union false [content, .named .null] := by
      obtain ⟨entry, hentry, rfl⟩ := Option.map_eq_some_iff.mp hh
      obtain rfl | rfl := List.mem_pair.mp (List.mem_of_find?_eq_some hentry)
      · exact .inl rfl
      · exact .inr rfl
    · exact .parameter
    · refine .union (fun m hm ↦ ?_) fun b hb ↦ separate_spare hb
      obtain rfl | rfl := List.mem_pair.mp hm
      · exact .parameter
      · exact .fixed (by simp [Hint.substitute])
  | annotated hplain => exact absurd (hrecord.symm.trans hplain) (by decide)
  | result hplain => exact absurd (hrecord.symm.trans hplain) (by decide)

/-- A box of texts and a box of one text refer to one type and have members that look the same. -/
theorem answers_of_same_boxes : table.OwnNames ∧
    (table.reference (holding box text)).Returns (reference box text) ∧
    (table.reference (holding box oneText)).Returns (reference box oneText) ∧
    Hint.ToldApart (table.handle (holding box text)) (table.handle (holding box oneText)) ∧
    table.Formed (table.handle (holding box text)) ∧
    table.Formed (table.handle (holding box oneText)) ∧
    (reference box text == reference box oneText) = true ∧
    table.Interchangeable (table.handle (holding box text))
      (table.handle (holding box oneText)) ∧
    Traced.SameUpTo (List.map Member.identity) ((table.host []).members (reference box text))
      ((table.host []).members (reference box oneText)) := by
  have e₁ : (table.reference (holding box text)).Returns (reference box text) := by
    rw [Traced.Returns]
    with_unfolding_all rfl
  have e₂ : (table.reference (holding box oneText)).Returns (reference box oneText) := by
    rw [Traced.Returns]
    with_unfolding_all rfl
  have hword : box.fullName ≠ "typing.Union" ∧ box.fullName ≠ "typing.Optional" := by decide
  have names : Hint.ToldApart (table.handle (holding box text))
      (table.handle (holding box oneText)) :=
    ⟨fun c hc d hd _ ↦ (Option.some.inj hc).symm.trans (Option.some.inj hd),
      fun c hc ↦ Option.some.inj hc ▸ hword, fun c hc ↦ Option.some.inj hc ▸ hword⟩
  have formed₁ : table.Formed (table.handle (holding box text)) := ⟨[text], by with_unfolding_all rfl⟩
  have formed₂ : table.Formed (table.handle (holding box oneText)) := ⟨[oneText], by with_unfolding_all rfl⟩
  have i : table.Interchangeable (table.handle (holding box text))
      (table.handle (holding box oneText)) := by
    refine ⟨rfl, .cons (by with_unfolding_all rfl) .nil, fun c hc h hh ↦ ?_, fun k hk _ field hfield ↦ ?_⟩
    · obtain rfl := Option.some.inj hc
      exact keepsParts_box hh
    · obtain rfl | rfl := List.mem_pair.mp hk
      · exact absurd hfield List.not_mem_nil
      · exact absurd hfield List.not_mem_nil
  exact ⟨ownNames, e₁, e₂, names, formed₁, formed₂, rfl, i,
    (ClassTable.answers_of_same ownNames [] e₁ e₂ names formed₁ formed₂ rfl).2.2.2 i⟩

/-- How many tags a member has. -/
def tagCount {σ : Type} (m : Member σ) : Nat := m.tags.length

/-- The short name of a member's type. -/
def typeName {σ : Type} (m : Member σ) : Option String := m.declaredType.map (·.simpleName)

theorem tagCount_identity (m : Member Hint) : tagCount m.identity = tagCount m := List.length_map _

theorem typeName_identity (m : Member Hint) : typeName m.identity = typeName m := by
  rw [typeName, typeName, Member.identity, Option.map_map]
  cases m.declaredType with
  | none => rfl
  | some t => rw [Option.map_some, Option.map_some, Function.comp_apply, TypeRef.identity_eq]

/-- What members that look the same have in common. -/
theorem eq_of_sameUpTo_members {γ : Type} (f : Member Hint → γ) (g : Member Unit → γ)
    (hfg : ∀ m, g m.identity = f m) (xs ys : List γ) {x y : Traced (List (Member Hint))}
    (h : Traced.SameUpTo (List.map Member.identity) x y)
    (hx : ∃ ms, x.outcome = .ok ms ∧ ms.map f = xs)
    (hy : ∃ ms, y.outcome = .ok ms ∧ ms.map f = ys) : xs = ys := by
  obtain ⟨ms, hms, rfl⟩ := hx
  obtain ⟨ns, hns, rfl⟩ := hy
  have hmap (ms : List (Member Hint)) : (ms.map Member.identity).map g = ms.map f := by
    rw [List.map_map]
    exact List.map_congr_left fun m _ ↦ hfg m
  rw [Traced.SameUpTo, hms, hns] at h
  rw [← hmap, ← hmap, Except.ok.inj h]

/-- References to the same type need not have the same members. Metadata of an argument are no part
of the reference and come back with the members of the argument's type; and a certain text is a text
for the reference, but no repetition of one beside it. -/
theorem members_of_same_differ :
    ((table.reference (holding box text)).Returns (reference box text) ∧
      (table.reference (holding box ignoredText)).Returns (reference box ignoredText) ∧
      (reference box text == reference box ignoredText) = true ∧
      ¬ Traced.SameUpTo (List.map Member.identity) ((table.host []).members (reference box text))
        ((table.host []).members (reference box ignoredText))) ∧
    ((table.reference (holding choice text)).Returns (reference choice text) ∧
      (table.reference (holding choice oneText)).Returns (reference choice oneText) ∧
      (reference choice text == reference choice oneText) = true ∧
      ¬ Traced.SameUpTo (List.map Member.identity) ((table.host []).members (reference choice text))
        ((table.host []).members (reference choice oneText))) := by
  refine ⟨⟨?_, ?_, rfl, fun h ↦ ?_⟩, ⟨?_, ?_, rfl, fun h ↦ ?_⟩⟩
  · rw [Traced.Returns]
    with_unfolding_all rfl
  · rw [Traced.Returns]
    with_unfolding_all rfl
  · have htags := eq_of_sameUpTo_members tagCount tagCount tagCount_identity [0, 0] [1, 0] h
      ⟨_, by with_unfolding_all rfl, by with_unfolding_all rfl⟩ ⟨_, by with_unfolding_all rfl, by with_unfolding_all rfl⟩
    exact absurd htags (by decide)
  · rw [Traced.Returns]
    with_unfolding_all rfl
  · rw [Traced.Returns]
    with_unfolding_all rfl
  · have hnames := eq_of_sameUpTo_members typeName typeName typeName_identity [some "str"]
      [some "Union"] h ⟨_, by with_unfolding_all rfl, by with_unfolding_all rfl⟩ ⟨_, by with_unfolding_all rfl, by with_unfolding_all rfl⟩
    exact absurd hnames (by decide)

end Boxes

end Schemata
