import Schemata.Proofs.Entries

/-!
# Schema positions

A schema contains schemas under six keys: one schema under `items` and `additionalProperties`, named
schemas under `properties`, and a list of schemas under the keywords of compositions. Everything
else in a schema is data, even where it looks like a schema. `Emits e s` says that the schema `e`
refers to `s` at one of these positions, itself included.

What a schema emits depends on the reserved keys alone: the six keys and `$ref`. Metadata that
avoids them neither adds nor removes a reference.
-/

namespace Schemata

/-! ## Where schemas contain schemas -/

/-- How many schemas stand under a key, and in what form. -/
inductive Position where
  | one | named | several
  deriving DecidableEq

namespace Position

/-- The position under a key, if schemas stand there. -/
def ofKey? : String → Option Position
  | "items" | "additionalProperties" => some one
  | "properties" => some named
  | "oneOf" | "anyOf" | "allOf" => some several
  | _ => none

/-- The schema that a value is. -/
def schema? : Value → Option Entries
  | .map e => some e
  | _ => none

/-- The schemas in a value at this position. -/
def schemasIn : Position → Value → List Entries
  | one, v => (schema? v).toList
  | named, .map entries => entries.filterMap (schema? ·.2)
  | several, .list items => items.filterMap schema?
  | _, _ => []

/-- The schemas directly below an entry. -/
def below : Value × Value → List Entries
  | (.str key, v) => ((ofKey? key).map (schemasIn · v)).getD []
  | _ => []

end Position

/-- The keys under which the engine puts schemas and references. -/
def reservedKeys : List String :=
  ["$ref", "items", "properties", "additionalProperties", "oneOf", "anyOf", "allOf"]

theorem Position.mem_reservedKeys {key : String} (h : Position.ofKey? key ≠ none) :
    key ∈ reservedKeys := by
  unfold Position.ofKey? at h
  split at h
  · decide
  · decide
  · decide
  · decide
  · decide
  · decide
  · exact absurd rfl h

theorem Position.exists_key_of_mem_below {entry : Value × Value} {child : Entries}
    (h : child ∈ below entry) : ∃ key ∈ reservedKeys, entry.1 = .str key := by
  obtain ⟨k, v⟩ := entry
  cases k with
  | str key =>
    refine ⟨key, mem_reservedKeys fun hkey ↦ ?_, rfl⟩
    rw [below, hkey] at h
    exact absurd h List.not_mem_nil
  | _ => exact absurd h List.not_mem_nil

/-- The key is not reserved. -/
def Free (k : Value) : Prop := ∀ key ∈ reservedKeys, k ≠ .str key

theorem Free.of_sameKey {k k' : Value} (h : Free k) (hk : k' = k ∨ k'.sameKey k) : Free k' := by
  rintro key hkey rfl
  rcases hk with rfl | hk
  · exact h key hkey rfl
  · exact h key hkey (Value.sameKey_str_left.mp hk)

/-! ## References in a schema -/

/-- The schema refers to `s`, itself or at a position below. -/
inductive Emits : Entries → String → Prop where
  | here {e : Entries} {s : String} (h : (.str "$ref", .str s) ∈ e) : Emits e s
  | inside {e child : Entries} {entry : Value × Value} {s : String} (hentry : entry ∈ e)
      (hchild : child ∈ Position.below entry) (h : Emits child s) : Emits e s

section Emits

variable {e e' extra : Entries} {s : String} {k v : Value}

theorem emits_iff :
    Emits e s ↔ (.str "$ref", .str s) ∈ e ∨
      ∃ entry ∈ e, ∃ child ∈ Position.below entry, Emits child s := by
  constructor
  · rintro (h | ⟨hentry, hchild, h⟩)
    · exact .inl h
    · exact .inr ⟨_, hentry, _, hchild, h⟩
  · rintro (h | ⟨entry, hentry, child, hchild, h⟩)
    · exact .here h
    · exact .inside hentry hchild h

theorem emits_append : Emits (e ++ e') s ↔ Emits e s ∨ Emits e' s := by
  rw [emits_iff, emits_iff (e := e), emits_iff (e := e')]
  simp only [List.mem_append, or_and_right, exists_or]
  exact or_or_or_comm

theorem emits_singleton {entry : Value × Value} :
    Emits [entry] s ↔
      (.str "$ref", .str s) = entry ∨ ∃ child ∈ Position.below entry, Emits child s := by
  rw [emits_iff]
  simp only [List.mem_singleton, exists_eq_left]

theorem emits_cons {entry : Value × Value} :
    Emits (entry :: e) s ↔ Emits [entry] s ∨ Emits e s :=
  emits_append (e := [entry])

/-- What a schema emits depends on its reserved keys alone. -/
theorem emits_congr (h : ∀ key ∈ reservedKeys, ∀ v, (.str key, v) ∈ e ↔ (.str key, v) ∈ e') :
    Emits e s ↔ Emits e' s := by
  rw [emits_iff, emits_iff]
  refine or_congr (h "$ref" (by decide) (.str s)) (exists_congr fun entry ↦ ?_)
  refine ⟨fun ⟨hentry, child, hchild, hs⟩ ↦ ⟨?_, child, hchild, hs⟩,
    fun ⟨hentry, child, hchild, hs⟩ ↦ ⟨?_, child, hchild, hs⟩⟩ <;>
    obtain ⟨key, hkey, hk⟩ := Position.exists_key_of_mem_below hchild <;>
    obtain ⟨k, v⟩ := entry <;>
    obtain rfl : k = .str key := hk
  · exact (h key hkey v).mp hentry
  · exact (h key hkey v).mpr hentry

theorem emits_put (h : Free k) : Emits (Value.put e k v) s ↔ Emits e s :=
  emits_congr fun key hkey _ ↦ Value.mem_put_str (h key hkey)

theorem not_emits_of_free (h : ∀ x ∈ e, Free x.1) : ¬ Emits e s := by
  rw [emits_iff]
  rintro (hmem | ⟨x, hx, child, hchild, -⟩)
  · exact h _ hmem "$ref" (by decide) rfl
  · obtain ⟨key, hkey, heq⟩ := Position.exists_key_of_mem_below hchild
    exact h x hx key hkey heq

theorem emits_merge (h : Extension.Avoids reservedKeys extra) :
    Emits (Extension.merge e extra) s ↔ Emits e s :=
  emits_congr fun _ hkey _ ↦ Extension.mem_merge_str h hkey

end Emits

end Schemata
