import Schemata.Proofs.Positions
import Schemata.Proofs.Reach
import Schemata.TypeGraph

/-!
# Declared hosts

What a declared type system answers about a type is written in one of its declarations, or is
nothing. So assumptions about hosts come down to assumptions about declarations, which are finite.
-/

namespace Schemata

variable {σ : Type}

open Traced

/-- No metadata that the host's tags declare uses one of the keys. -/
structure Host.ExtensionsAvoid (host : Host σ) (keys : List String) : Prop where
  types : ∀ {t tags element extra}, (host.tags t).Returns tags →
    (Extension.collect tags element).Returns extra → Extension.Avoids keys extra
  members : ∀ {t ms m element extra}, (host.members t).Returns ms → m ∈ ms →
    (Extension.collect m.tags element).Returns extra → Extension.Avoids keys extra

theorem Host.ExtensionsAvoid.mono {host : Host σ} {keys keys' : List String}
    (h : host.ExtensionsAvoid keys) (hsub : keys' ⊆ keys) : host.ExtensionsAvoid keys' where
  types htags hextra key hkey := h.types htags hextra key (hsub hkey)
  members hms hm hextra key hkey := h.members hms hm hextra key (hsub hkey)

theorem Extension.avoids_of_collect_nil {keys : List String} {element : String} {extra : Entries}
    (h : (collect ([] : List (Tag σ)) element).Returns extra) : Avoids keys extra := by
  obtain rfl : [(.str "example", .null)] = extra := Except.ok.inj h
  intro key _ v hv
  exact congrArg Prod.snd (List.mem_singleton.mp hv)

namespace TypeGraph

variable {graph : TypeGraph σ}

theorem mem_declared {α : Type} {part : Declaration σ → List α} {t : TypeRef σ} {x : α}
    (h : x ∈ graph.declared part t) : ∃ d ∈ graph.declarations, d.type == t ∧ x ∈ part d := by
  rw [declared] at h
  cases hd : graph.find? t with
  | none =>
    rw [hd] at h
    exact absurd h List.not_mem_nil
  | some d =>
    rw [hd] at h
    have htype := List.find?_some (p := fun d : Declaration σ ↦ d.type == t) hd
    exact ⟨d, List.mem_reverse.mp (List.mem_of_find?_eq_some hd), htype, h⟩

theorem answers (graph : TypeGraph σ) : graph.host.Answers where
  members _ := ends_pure
  tags _ := ends_pure
  customProperties _ := ends_pure
  isAssignable _ _ := ends_pure
  isRecord _ := ends_pure

/-- No declared type or member has tags. -/
def Untagged (graph : TypeGraph σ) : Prop :=
  ∀ d ∈ graph.declarations, d.tags = [] ∧ ∀ m ∈ d.members, m.tags = []

/-- Where types have nothing but injected properties, there are no tags. -/
theorem untagged_of_custom
    (h : ∀ d ∈ graph.declarations, d.tags = [] ∧ d.members = []) : graph.Untagged := by
  intro d hd
  obtain ⟨htags, hmembers⟩ := h d hd
  refine ⟨htags, fun m hm ↦ ?_⟩
  rw [hmembers] at hm
  exact absurd hm List.not_mem_nil

theorem Untagged.tags_eq_nil (h : graph.Untagged) {t : TypeRef σ} {tags : List (Tag σ)}
    (htags : (graph.host.tags t).Returns tags) : tags = [] := by
  obtain rfl := returns_pure.mp htags
  refine List.eq_nil_iff_forall_not_mem.mpr fun a ha ↦ ?_
  obtain ⟨d, hd, -, ha⟩ := mem_declared ha
  rw [(h d hd).1] at ha
  exact List.not_mem_nil ha

theorem exists_declaration_of_member {t : TypeRef σ} {ms : List (Member σ)} {m : Member σ}
    (hms : (graph.host.members t).Returns ms) (hm : m ∈ ms) :
    ∃ d ∈ graph.declarations, d.type == t ∧ m ∈ d.members := by
  obtain rfl := returns_pure.mp hms
  exact mem_declared hm

theorem Untagged.extensionsAvoid {keys : List String} (h : graph.Untagged) :
    graph.host.ExtensionsAvoid keys where
  types {t tags element extra} htags hextra := by
    rw [h.tags_eq_nil htags] at hextra
    exact Extension.avoids_of_collect_nil hextra
  members {t ms m element extra} hms hm hextra := by
    obtain ⟨d, hd, -, hm⟩ := exists_declaration_of_member hms hm
    rw [(h d hd).2 m hm] at hextra
    exact Extension.avoids_of_collect_nil hextra

/-- A type without tags on it or on its members leads to its arguments and to the types of its
members and properties. -/
theorem leads_cases {t u : TypeRef σ} (htags : graph.declared (·.tags) t = [])
    (hmembers : ∀ m ∈ graph.declared (·.members) t, m.tags = []) (h : graph.host.Leads t u) :
    u ∈ t.generics ∨ (∃ m ∈ graph.declared (·.members) t, m.declaredType = some u) ∨
      ∃ c ∈ graph.declared (·.custom) t, u = c.type := by
  cases h with
  | argument hu => exact .inl hu
  | override hreturns hu =>
    obtain rfl := (returns_pure.mp hreturns).symm.trans htags
    exact nomatch hu
  | part hreturns hc hu =>
    obtain rfl := (returns_pure.mp hreturns).symm.trans htags
    exact nomatch hc
  | member hms hm hu =>
    obtain rfl := returns_pure.mp hms
    exact .inr (.inl ⟨_, hm, hu⟩)
  | memberOverride hms hm hu =>
    obtain rfl := returns_pure.mp hms
    rw [hmembers _ hm] at hu
    exact nomatch hu
  | memberPart hms hm hc hu =>
    obtain rfl := returns_pure.mp hms
    rw [hmembers _ hm] at hc
    exact nomatch hc
  | custom hcs hc =>
    obtain rfl := returns_pure.mp hcs
    exact .inr (.inr ⟨_, hc, rfl⟩)

/-- Without tags every type leads only to what the declarations of its arguments, members and
properties name. -/
theorem Untagged.leads_cases (h : graph.Untagged) {t u : TypeRef σ}
    (hleads : graph.host.Leads t u) :
    u ∈ t.generics ∨ ∃ d ∈ graph.declarations, d.type == t ∧
      ((∃ m ∈ d.members, m.declaredType = some u) ∨ ∃ c ∈ d.custom, u = c.type) := by
  have hmembers : ∀ m ∈ graph.declared (·.members) t, m.tags = [] := by
    intro m hm
    obtain ⟨d, hd, -, hm⟩ := mem_declared hm
    exact (h d hd).2 m hm
  rcases TypeGraph.leads_cases (h.tags_eq_nil rfl) hmembers hleads with
    hu | ⟨m, hm, hu⟩ | ⟨c, hc, hu⟩
  · exact .inl hu
  · obtain ⟨d, hd, htype, hm⟩ := mem_declared hm
    exact .inr ⟨d, hd, htype, .inl ⟨m, hm, hu⟩⟩
  · obtain ⟨d, hd, htype, hc⟩ := mem_declared hc
    exact .inr ⟨d, hd, htype, .inr ⟨c, hc, hu⟩⟩

/-- Without tags, a list with all arguments of its members and all types that declarations name
holds what can be reached from its members. -/
theorem Untagged.mem_of_reachable (h : graph.Untagged) {among : List (TypeRef σ)}
    (hgenerics : ∀ t ∈ among, ∀ u ∈ t.generics, u ∈ among)
    (hmembers : ∀ d ∈ graph.declarations, ∀ m ∈ d.members, ∀ u, m.declaredType = some u →
      u ∈ among)
    (hcustom : ∀ d ∈ graph.declarations, ∀ c ∈ d.custom, c.type ∈ among) {t u : TypeRef σ}
    (ht : t ∈ among) (hreach : graph.host.Reachable t u) : u ∈ among := by
  induction hreach with
  | refl => exact ht
  | tail _ hleads ih =>
    rcases h.leads_cases hleads with hu | ⟨d, hd, -, ⟨m, hm, hu⟩ | ⟨c, hc, rfl⟩⟩
    · exact hgenerics _ ih _ hu
    · exact hmembers d hd m hm _ hu
    · exact hcustom d hd c hc

end TypeGraph

/-! ## Shelves and books

A shelf holds books and may have a favourite; a book stands on a shelf. The types enclose each other
through an array and through an optional. -/

namespace Shelves

/-- The type of whole numbers. -/
def number : TypeRef Unit :=
  { fullName := "builtins.int", simpleName := "int", kind := .primitive }

/-- A book. -/
def book : TypeRef Unit := { fullName := "library.Book", simpleName := "Book" }

/-- A shelf. -/
def shelf : TypeRef Unit := { fullName := "library.Shelf", simpleName := "Shelf" }

/-- An array of books. -/
def books : TypeRef Unit :=
  { fullName := "builtins.list", simpleName := "list", kind := .array, generics := [book] }

/-- A book or nothing. -/
def optionalBook : TypeRef Unit :=
  { fullName := "typing.Optional", simpleName := "Optional", generics := [book] }

/-- The declarations. -/
def graph : TypeGraph Unit where
  declarations :=
    [{ type := shelf, custom := [⟨"books", books⟩, ⟨"favourite", optionalBook⟩] },
      { type := book, custom := [⟨"pages", number⟩, ⟨"shelf", shelf⟩] }]

/-- The generator with the usual settings. -/
def generator : Generator Unit := { host := graph.host }

theorem untagged : graph.Untagged := TypeGraph.untagged_of_custom (by simp [graph])

theorem reachable_cases {t : TypeRef Unit} (h : graph.host.Reachable shelf t) :
    t ∈ [shelf, books, optionalBook, book, number] := by
  refine untagged.mem_of_reachable ?_ ?_ ?_ List.mem_cons_self h
  · simp [shelf, books, optionalBook, book, number]
  · simp [graph]
  · simp [graph]

end Shelves

end Schemata
