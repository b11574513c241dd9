import Schemata.Proofs.Interchange
import Schemata.Proofs.NearestHints
import Schemata.Proofs.Resolvable

/-!
# Proper hints

Authors write hints by naming classes, applying them and joining types, and what they get is not any
tree of the constructors of `Hint`: a union has at least two members, since repetitions are dropped
and a union of one type is that type, and a primitive class takes no arguments. `Hint.Proper` says
so for a hint and everything in it, its metadata included. It leaves out, in addition, classes that
are named like one of the two kinds of unions.

Whatever makes hints of hints keeps them proper: joining and annotating, putting arguments in the
place of type parameters (`Hint.Proper.substitute`) and hints in the place of names
(`Hint.Proper.replaceNames`), as long as what is put there is proper, too.
-/

namespace Schemata

/-! ## Proper classes, hints and data -/

/-- The class is not named like a union. -/
def ClassName.NoUnion (c : ClassName) : Prop :=
  c.fullName ≠ "typing.Union" ∧ c.fullName ≠ "typing.Optional"

/-- The class can be applied to arguments: it is no primitive one. -/
def ClassName.TakesArguments (c : ClassName) : Prop :=
  (LibraryClass.get? c).map (·.shape) ≠ some .primitive

instance (c : ClassName) : Decidable c.NoUnion := inferInstanceAs (Decidable (_ ∧ _))

instance (c : ClassName) : Decidable c.TakesArguments := inferInstanceAs (Decidable (_ ≠ _))

mutual

/-- In a hint and everything in it, unions have several members, no primitive class is applied, and
no class is named like a union. -/
inductive Hint.Proper : Hint → Prop
  | null : Hint.Proper .null
  | ellipsis : Hint.Proper .ellipsis
  | text (s : String) : Hint.Proper (.text s)
  | forward (s : String) : Hint.Proper (.forward s)
  | named {c : ClassName} (hc : c.NoUnion) : Hint.Proper (.named c)
  | bare {c : ClassName} (hc : c.NoUnion) (takes : c.TakesArguments) : Hint.Proper (.bare c)
  | applied {style : Application} {c : ClassName} {args : List Hint} (hc : c.NoUnion)
      (takes : c.TakesArguments) (hargs : ∀ a ∈ args, Hint.Proper a) :
      Hint.Proper (.applied style c args)
  | model {c : ClassName} {args : List Hint} (hc : c.NoUnion) (takes : c.TakesArguments)
      (hargs : ∀ a ∈ args, Hint.Proper a) : Hint.Proper (.model c args)
  | parameter (n : String) : Hint.Proper (.parameter n)
  | bounded {n : String} {bound : Hint} (hbound : Hint.Proper bound) :
      Hint.Proper (.bounded n bound)
  | union {bar : Bool} {members : List Hint} (several : 2 ≤ members.length)
      (hmembers : ∀ m ∈ members, Hint.Proper m) : Hint.Proper (.union bar members)
  | annotated {h : Hint} {metadata : List Datum} (hh : Hint.Proper h)
      (hmetadata : ∀ d ∈ metadata, Datum.Proper d) : Hint.Proper (.annotated h metadata)
  | literal {values : List Datum} (hvalues : ∀ d ∈ values, Datum.Proper d) :
      Hint.Proper (.literal values)
  | classVar {h : Hint} (hh : Hint.Proper h) : Hint.Proper (.classVar h)
  | anyClassVar : Hint.Proper .anyClassVar
  | initVar (h : Hint) : Hint.Proper (.initVar h)
  | special (shown typeName : String) : Hint.Proper (.special shown typeName)

/-- The hints in a datum are proper, and no class of a part of it is named like a union. -/
inductive Datum.Proper : Datum → Prop
  | plain (v : Value) : Datum.Proper (.plain v)
  | list {items : List Datum} (hitems : ∀ d ∈ items, Datum.Proper d) : Datum.Proper (.list items)
  | tuple {items : List Datum} (hitems : ∀ d ∈ items, Datum.Proper d) : Datum.Proper (.tuple items)
  | constant {c : ClassName} {name : String} {value : Datum} (hc : c.NoUnion) :
      Datum.Proper (.constant c name value)
  | hint {h : Hint} (hh : Hint.Proper h) : Datum.Proper (.hint h)
  | made {c : ClassName} {role : Role} {fields : List (String × Datum)} (hc : c.NoUnion)
      (hfields : ∀ f ∈ fields, Datum.Proper f.2) : Datum.Proper (.made c role fields)

end

theorem ClassName.noUnion_core (path : String) : (⟨coreModule, path⟩ : ClassName).NoUnion := by
  have hhead (s : String) : (coreModule ++ s).toList.head? = some 'b' := by
    rw [String.toList_append]
    rfl
  constructor <;>
  · intro h
    have := congrArg (·.toList.head?) h
    rw [fullName, String.append_assoc] at this
    exact nomatch (hhead _).symm.trans this

theorem ClassName.noUnion_any : any.NoUnion := by decide

namespace Hint

/-! ## Joining and annotating -/

section Joining

variable {h : Hint} {hs : List Hint}

theorem Proper.asArgument (hh : h.Proper) : h.asArgument.Proper := by
  cases h with
  | null => exact .named (ClassName.noUnion_core _)
  | text s => exact .forward s
  | _ => exact hh

theorem Proper.base (hh : h.Proper) : h.base.Proper := by
  cases hh with
  | annotated hh _ => exact hh
  | _ => constructor <;> assumption

theorem Proper.metadata (hh : h.Proper) : ∀ d ∈ h.metadata, d.Proper := by
  cases hh with
  | annotated _ hmetadata => exact hmetadata
  | _ => exact List.forall_mem_nil _

theorem Proper.withoutClassVar (hh : h.Proper) : h.withoutClassVar.Proper := by
  cases hh with
  | classVar hh => exact hh
  | _ => exact .named ClassName.noUnion_any

theorem Proper.annotate (hh : h.Proper) {metadata : List Datum}
    (hmetadata : ∀ d ∈ metadata, d.Proper) : (h.annotate metadata).Proper := by
  cases hh with
  | annotated hh hinner => exact .annotated hh (List.forall_mem_append.mpr ⟨hinner, hmetadata⟩)
  | _ => exact .annotated (Proper.asArgument (by constructor <;> assumption)) hmetadata

theorem mem_of_mem_distinct (hh : h ∈ distinct hs) : h ∈ hs := by
  rcases mem_of_mem_foldl_unless hh with hnil | hhs
  · exact absurd hnil List.not_mem_nil
  · exact hhs

theorem distinct_ne_nil (hne : hs ≠ []) : distinct hs ≠ [] := by
  obtain ⟨k, ks, rfl⟩ := List.exists_cons_of_ne_nil hne
  have hfirst : [k] <+: distinct (k :: ks) := prefix_foldl_unless List.contains [k] ks
  exact hfirst.ne_nil (List.cons_ne_nil k [])

theorem proper_joined (bar : Bool) (hne : hs ≠ []) (hproper : ∀ h ∈ hs, h.Proper) :
    (joined bar (distinct hs)).Proper := by
  have hall : ∀ h ∈ distinct hs, h.Proper := fun h hh ↦ hproper h (mem_of_mem_distinct hh)
  match hdistinct : distinct hs with
  | [] => exact absurd hdistinct (distinct_ne_nil hne)
  | [h] => exact hall h (hdistinct ▸ List.mem_singleton_self h)
  | h :: k :: rest => exact .union (by simp) (hdistinct ▸ hall)

theorem alternatives_ne_nil (hh : h.Proper) : h.alternatives ≠ [] := by
  cases hh with
  | @union _ members several _ => exact List.ne_nil_of_length_pos (l := members) (by omega)
  | _ => exact List.cons_ne_nil _ _

theorem Proper.alternatives (hh : h.Proper) : ∀ k ∈ h.alternatives, k.Proper := by
  cases h with
  | union bar members =>
    cases hh with
    | union _ hmembers => exact hmembers
  | _ =>
    intro k hk
    rw [List.mem_singleton.mp hk]
    exact hh.asArgument

theorem proper_unionOf (hne : hs ≠ []) (hproper : ∀ h ∈ hs, h.Proper) : (unionOf hs).Proper := by
  obtain ⟨k, ks, rfl⟩ := List.exists_cons_of_ne_nil hne
  refine proper_joined false ?_ ?_
  · rw [List.flatMap_cons]
    exact List.append_ne_nil_of_left_ne_nil
      (alternatives_ne_nil (hproper k List.mem_cons_self)) _
  · intro h hh
    obtain ⟨m, hm, hh⟩ := List.mem_flatMap.mp hh
    exact (hproper m hm).alternatives h hh

theorem Proper.either {k : Hint} (hh : h.Proper) (hk : k.Proper) : (h.either k).Proper := by
  unfold Hint.either
  split
  · refine proper_joined true ?_ ?_
    · exact List.append_ne_nil_of_left_ne_nil (alternatives_ne_nil hh) _
    · exact List.forall_mem_append.mpr ⟨hh.alternatives, hk.alternatives⟩
  · exact proper_unionOf (List.cons_ne_nil _ _)
      (List.forall_mem_cons.mpr ⟨hh, List.forall_mem_singleton.mpr hk⟩)

theorem proper_eitherAll (hne : hs ≠ []) (hproper : ∀ h ∈ hs, h.Proper) :
    (eitherAll hs).Proper := by
  obtain ⟨k, ks, rfl⟩ := List.exists_cons_of_ne_nil hne
  obtain ⟨hk, hks⟩ := List.forall_mem_cons.mp hproper
  exact List.foldlRecOn ks either hk fun _ ha m hm ↦ ha.either (hks m hm)

theorem proper_keptArguments {style : Application} (hproper : ∀ h ∈ hs, h.Proper) :
    ∀ h ∈ keptArguments style hs, h.Proper := by
  unfold keptArguments
  split
  · exact hproper
  · exact List.forall_mem_map.mpr fun h hh ↦ (hproper h hh).asArgument

end Joining

/-! ## Type parameters -/

/-- What stands for type parameters is proper. -/
def Bindings.Proper (b : Bindings) : Prop := ∀ e ∈ b, e.2.Proper

section Substitution

variable {b : Bindings}

theorem Bindings.Proper.getD (hb : b.Proper) {h : Hint} (hh : h.Proper) (n : String) :
    ((b.get? n).getD h).Proper := by
  cases hk : b.get? n with
  | none => exact hh
  | some k =>
    obtain ⟨e, he, rfl⟩ := Option.map_eq_some_iff.mp hk
    exact hb e (List.mem_of_find?_eq_some he)

mutual

theorem Proper.substitute (hb : b.Proper) : ∀ {h : Hint}, h.Proper → (h.substitute b).Proper
  | .parameter n, hh => by
    rw [Hint.substitute]
    exact hb.getD hh n
  | .bounded n bound, hh => by
    rw [Hint.substitute]
    exact hb.getD hh n
  | .applied style c args, hh => by
    cases hh with
    | applied hc takes hargs =>
      rw [Hint.substitute]
      exact .applied hc takes (proper_keptArguments (Proper.substituteAll hb hargs))
  | .union false members, hh => by
    cases hh with
    | union several hmembers =>
      rw [Hint.substitute]
      refine proper_unionOf ?_ (Proper.substituteAll hb hmembers)
      rw [substituteAll_eq_map]
      exact List.ne_nil_of_length_pos (by rw [List.length_map]; omega)
  | .union true members, hh => by
    cases hh with
    | union several hmembers =>
      rw [Hint.substitute]
      refine proper_eitherAll ?_ (Proper.substituteAll hb hmembers)
      rw [substituteAll_eq_map]
      exact List.ne_nil_of_length_pos (by rw [List.length_map]; omega)
  | .annotated h metadata, hh => by
    cases hh with
    | annotated hh hmetadata =>
      rw [Hint.substitute]
      exact (Proper.substitute hb hh).annotate hmetadata
  | .classVar h, hh => by
    cases hh with
    | classVar hh =>
      rw [Hint.substitute]
      exact .classVar (Proper.substitute hb hh)
  | .null, hh | .ellipsis, hh | .text _, hh | .forward _, hh | .named _, hh | .bare _, hh
  | .model _ _, hh | .literal _, hh | .anyClassVar, hh | .initVar _, hh | .special _ _, hh => by
    simpa only [Hint.substitute] using hh

theorem Proper.substituteAll (hb : b.Proper) : ∀ {hs : List Hint}, (∀ h ∈ hs, h.Proper) →
    ∀ k ∈ Hint.substituteAll b hs, k.Proper
  | [], _ => List.forall_mem_nil _
  | h :: hs, hproper => by
    obtain ⟨hh, hhs⟩ := List.forall_mem_cons.mp hproper
    rw [Hint.substituteAll]
    exact List.forall_mem_cons.mpr ⟨Proper.substitute hb hh, Proper.substituteAll hb hhs⟩

end

end Substitution

theorem proper_bindingsOf {parameters args : List Hint} (hargs : ∀ a ∈ args, a.Proper) :
    (bindingsOf parameters args).Proper := by
  intro e he
  obtain ⟨⟨p, a⟩, hpair, he⟩ := List.mem_filterMap.mp he
  obtain ⟨n, -, rfl⟩ := Option.map_eq_some_iff.mp he
  exact hargs a (List.of_mem_zip hpair).2

/-! ## Names replaced -/

section Names

variable {ε : Type} {f : String → Except ε Hint}

mutual

theorem Proper.replaceNames (hf : ∀ s k, f s = .ok k → k.Proper) : ∀ {h k : Hint}, h.Proper →
    h.replaceNames f = .ok k → k.Proper
  | .text s, k, _, e => hf s k (by rwa [Hint.replaceNames] at e)
  | .forward s, k, _, e => hf s k (by rwa [Hint.replaceNames] at e)
  | .applied style c args, _, hh, e => by
    cases hh with
    | applied hc takes hargs =>
      rw [Hint.replaceNames] at e
      obtain ⟨ks, hks, e⟩ := bind_eq_ok_iff.mp e
      obtain rfl := Except.ok.inj e
      exact .applied hc takes (proper_keptArguments (Proper.replaceNamesAll hf hargs hks).1)
  | .union false members, _, hh, e => by
    cases hh with
    | union several hmembers =>
      rw [Hint.replaceNames] at e
      obtain ⟨ks, hks, e⟩ := bind_eq_ok_iff.mp e
      obtain rfl := Except.ok.inj e
      obtain ⟨hproper, hlength⟩ := Proper.replaceNamesAll hf hmembers hks
      exact proper_unionOf (List.ne_nil_of_length_pos (by omega)) hproper
  | .union true members, _, hh, e => by
    cases hh with
    | union several hmembers =>
      rw [Hint.replaceNames] at e
      obtain ⟨ks, hks, e⟩ := bind_eq_ok_iff.mp e
      obtain rfl := Except.ok.inj e
      obtain ⟨hproper, hlength⟩ := Proper.replaceNamesAll hf hmembers hks
      exact proper_eitherAll (List.ne_nil_of_length_pos (by omega)) hproper
  | .annotated h metadata, _, hh, e => by
    cases hh with
    | annotated hh hmetadata =>
      rw [Hint.replaceNames] at e
      obtain ⟨k, hk, e⟩ := bind_eq_ok_iff.mp e
      obtain rfl := Except.ok.inj e
      exact (Proper.replaceNames hf hh hk).annotate hmetadata
  | .classVar h, _, hh, e => by
    cases hh with
    | classVar hh =>
      rw [Hint.replaceNames] at e
      obtain ⟨k, hk, e⟩ := bind_eq_ok_iff.mp e
      obtain rfl := Except.ok.inj e
      exact .classVar (Proper.replaceNames hf hh hk)
  | .null, _, hh, e | .ellipsis, _, hh, e | .named _, _, hh, e | .bare _, _, hh, e
  | .model _ _, _, hh, e | .parameter _, _, hh, e | .bounded _ _, _, hh, e | .literal _, _, hh, e
  | .anyClassVar, _, hh, e | .initVar _, _, hh, e | .special _ _, _, hh, e => by
    simp only [Hint.replaceNames] at e
    rwa [← Except.ok.inj e]

theorem Proper.replaceNamesAll (hf : ∀ s k, f s = .ok k → k.Proper) :
    ∀ {hs ks : List Hint}, (∀ h ∈ hs, h.Proper) →
    Hint.replaceNamesAll f hs = .ok ks → (∀ k ∈ ks, k.Proper) ∧ ks.length = hs.length
  | [], _, _, e => by
    rw [Hint.replaceNamesAll] at e
    rw [← Except.ok.inj e]
    exact ⟨List.forall_mem_nil _, rfl⟩
  | h :: hs, _, hproper, e => by
    obtain ⟨hh, hhs⟩ := List.forall_mem_cons.mp hproper
    rw [Hint.replaceNamesAll] at e
    obtain ⟨k, hk, e⟩ := bind_eq_ok_iff.mp e
    obtain ⟨ks, hks, e⟩ := bind_eq_ok_iff.mp e
    obtain rfl := Except.ok.inj e
    obtain ⟨hproper, hlength⟩ := Proper.replaceNamesAll hf hhs hks
    exact ⟨List.forall_mem_cons.mpr ⟨Proper.replaceNames hf hh hk, hproper⟩, by simp [hlength]⟩

end

end Names

end Hint

end Schemata
