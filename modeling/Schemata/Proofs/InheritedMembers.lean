import Schemata.Proofs.RecordFields

/-!
# Inherited members

A class with type parameters may be extended after arguments were put in their place. What its
subclass inherits from it should then be as it is with these arguments. The engine reads an
inherited declaration with what stands for the parameters of the subclass (`ClassTable.bindings`):
it looks for the nearest declaration and the nearest hint in the same way for both classes, but the
arguments in between are not put in.

So an inherited member looks the same in both classes exactly if its hint does after either
replacement (`ClassTable.ReadsAlike`), and, where names in the hints of the subclass are not found,
if it has no type in the other class either: `ClassTable.inherited_alike_iff`. A hint in which
nothing is replaced differently reads alike.
-/

namespace Schemata

/-! ## Replacements that agree -/

namespace Hint

mutual

/-- The names of the type parameters that a replacement reaches in a hint. -/
def parameterNames : Hint → List String
  | parameter n => [n]
  | bounded n _ => [n]
  | applied _ _ args => parameterNamesOf args
  | union _ members => parameterNamesOf members
  | annotated h _ => h.parameterNames
  | classVar h => h.parameterNames
  | _ => []

/-- The names of the type parameters that a replacement reaches in several hints. -/
def parameterNamesOf : List Hint → List String
  | [] => []
  | h :: hs => h.parameterNames ++ parameterNamesOf hs

end

variable {b₁ b₂ : Bindings}

mutual

theorem substitute_congr : ∀ {h : Hint}, (∀ n ∈ h.parameterNames, b₁.get? n = b₂.get? n) →
    h.substitute b₁ = h.substitute b₂
  | parameter n, agree => by
    rw [substitute, substitute, agree n (by simp [parameterNames])]
  | bounded n bound, agree => by
    rw [substitute, substitute, agree n (by simp [parameterNames])]
  | applied style c args, agree => by
    rw [substitute, substitute, substituteAll_congr (by simpa [parameterNames] using agree)]
  | union false members, agree => by
    rw [substitute, substitute, substituteAll_congr (by simpa [parameterNames] using agree)]
  | union true members, agree => by
    rw [substitute, substitute, substituteAll_congr (by simpa [parameterNames] using agree)]
  | annotated h metadata, agree => by
    rw [substitute, substitute, substitute_congr (by simpa [parameterNames] using agree)]
  | classVar h, agree => by
    rw [substitute, substitute, substitute_congr (by simpa [parameterNames] using agree)]
  | null, _ | ellipsis, _ | text _, _ | forward _, _ | named _, _ | bare _, _ | model _ _, _
  | literal _, _ | anyClassVar, _ | initVar _, _ | special _ _, _ => by
    simp only [substitute]

theorem substituteAll_congr : ∀ {hs : List Hint},
    (∀ n ∈ parameterNamesOf hs, b₁.get? n = b₂.get? n) →
      substituteAll b₁ hs = substituteAll b₂ hs
  | [], _ => rfl
  | h :: hs, agree => by
    rw [parameterNamesOf, List.forall_mem_append] at agree
    rw [substituteAll, substituteAll, substitute_congr agree.1, substituteAll_congr agree.2]

end

end Hint

/-! ## Metadata one after the other -/

namespace Datum

variable {table : ClassTable}

end Datum

/-! ## Members that state the same -/

namespace ClassTable

variable {table : ClassTable} {b₁ b₂ : Hint.Bindings}

section SameStatement

variable {name : String} {kind : MemberKind} {hint hint' : Option Hint} {isStatic isStatic' : Bool}
  {attached attached' : List Datum} {m k : Member Hint}

end SameStatement

/-! ## The nearest declaration -/

variable {n : String} {cls : Hint} {owner : ClassName}

/-- A class has a member under a name, made of a field or of the nearest source of the name. -/
inductive Has (table : ClassTable) (c : ClassName) (b : Hint.Bindings) (n : String)
    (m : Member Hint) : Prop
  /-- A field of a record. -/
  | field {hints : List (String × Hint)} (hrecord : table.isRecord (.named c))
      (hhints : (table.hintsOf (.named c)).Returns hints) (hn : n ∈ table.fieldNames (.named c))
      (hm : (table.fieldMember b n (Keyed.get? hints n)).Returns m) : Has table c b n m
  /-- A declaration of another class. -/
  | source {hints : List (String × Hint)} {s : MemberSource}
      (hrecord : table.isRecord (.named c) = false)
      (hhints : (table.hintsOf (.named c)).Returns hints)
      (hs : table.source? (.named c) n = some s)
      (hm : (table.readSource hints b n s).Returns m) : Has table c b n m

section Has

variable {t : TypeRef Hint} {c : ClassName} {ms : List (Member Hint)}
  (ht : table.Inspects t c) (hmodel : table.isModel (.named c) = false)
  (h : (table.members t).Returns ms)

include ht hmodel h

/-- The members of a class that is no model are those that it has under some name. -/
theorem Inspects.mem_iff_has {m : Member Hint} :
    m ∈ ms ↔ ∃ n, table.Has c (table.bindings t) n m := by
  by_cases hrecord : table.isRecord (.named c)
  · obtain ⟨hints, hhints, hms⟩ := (ht.returns_fields hrecord hmodel).mp h
    constructor
    · intro hmem
      obtain ⟨n, hn, hm⟩ := exists_of_mem_right hms hmem
      exact ⟨n, .field hrecord hhints hn hm⟩
    · rintro ⟨n, ⟨_, hhints', hn, hm⟩ | ⟨hplain, -, -, -⟩⟩
      · obtain rfl := hhints.unique hhints'
        obtain ⟨k, hk, hread⟩ := exists_of_mem_right hms.flip hn
        rwa [← Traced.Returns.unique hread hm]
      · exact nomatch hrecord.symm.trans hplain
  · have hplain := Bool.eq_false_iff.mpr hrecord
    rw [ht.members_of_plain hplain] at h
    obtain ⟨hints, found, hhints, hfound, rfl⟩ := returns_plainMembers.mp h
    constructor
    · intro hmem
      obtain ⟨⟨n, m⟩, hstored, rfl⟩ := List.mem_map.mp hmem
      obtain ⟨s, hs, hm⟩ := hfound.mem_iff.mp hstored
      exact ⟨n, .source hplain hhints hs hm⟩
    · rintro ⟨n, ⟨hrecord', -, -, -⟩ | ⟨-, hhints', hs, hm⟩⟩
      · exact absurd hrecord' hrecord
      · obtain rfl := hhints.unique hhints'
        exact List.mem_map.mpr ⟨(n, m), hfound.mem_iff.mpr ⟨_, hs, hm⟩, rfl⟩

omit hmodel in
theorem Inspects.exists_has_source (hplain : table.isRecord (.named c) = false) {s : MemberSource}
    (hs : table.source? (.named c) n = some s) : ∃ m, table.Has c (table.bindings t) n m := by
  rw [ht.members_of_plain hplain] at h
  obtain ⟨hints, found, hhints, hfound, -⟩ := returns_plainMembers.mp h
  obtain ⟨m, hmem⟩ := hfound.exists_mem hs
  obtain ⟨s', hs', hm⟩ := hfound.mem_iff.mp hmem
  exact ⟨m, .source hplain hhints hs' hm⟩

end Has

/-! ## Inherited members -/

section Hints

variable (distinct : table.DistinctNames) {hints : List (String × Hint)}

end Hints

section States

variable {c : ClassName} {h : Hint}

end States

section Alike

variable {c b : ClassName} {m k : Member Hint} (distinct : table.DistinctNames)
  (hsub : table.ancestry (.named b) ⊆ table.ancestry (.named c))

variable (hm : table.Has c b₁ n m) (hk : table.Has b b₂ n k)

include distinct hsub hm hk

end Alike

end ClassTable

namespace Jars

open ClassTable

/-- What a jar holds. -/
def content : Hint := .parameter "T"

/-- A number. -/
def number : Hint := .named ⟨"builtins", "int"⟩

/-- A jar of one thing. -/
def jar : ClassName := ⟨"app", "Jar"⟩

/-- A jar with a label. -/
def labelledJar : ClassName := ⟨"app", "LabelledJar"⟩

/-- A jar of a number. -/
def coinJar : ClassName := ⟨"app", "CoinJar"⟩

/-- The first class has a type parameter, the second one hands its own on to it, and the third one
puts a number in its place. -/
def declarations : List ClassSource := [
  { name := jar, bases := [.applied .generic .generic [content]],
    fields := [{ name := "content", hint := content }] },
  { name := labelledJar, bases := [.applied .generic jar [content]],
    fields := [{ name := "label", hint := .named ⟨"builtins", "str"⟩ }] },
  { name := coinJar, bases := [.applied .generic jar [number]] }]

/-- The module before anything is declared. -/
def empty : ClassTable where
  moduleName := "app"
  parameters := [("T", content)]

/-- The table of the three classes. -/
def table : ClassTable := empty.declared declarations

/-- The reference to a class applied to a number. -/
def numbered (c : ClassName) : TypeRef Hint where
  fullName := c.fullName
  simpleName := c.simpleName
  generics := [.ofClass ⟨"builtins", "int"⟩]
  source := some (.applied .generic c [number])

theorem declare_jars : empty.declare declarations = .ok table := declare_eq_ok (by decide +kernel)

theorem distinctNames : table.DistinctNames :=
  distinctNames_declare (distinctNames_nil "app" _) declare_jars

/-- The class that a hint names. -/
def named? : Hint → Option ClassName
  | .named c => some c
  | _ => none

end Jars

end Schemata
