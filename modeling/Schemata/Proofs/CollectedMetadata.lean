import Schemata.Proofs.Keys

/-!
# Collected and merged metadata

The tags of an element write metadata one entry after the other: the first example comes first, then
the named entries, then the attributes of the tags that are flagged as custom metadata.
`Extension.writings` is that sequence. What is collected is what the writings leave in an empty
mapping: under a key the value written last, and the keys in the order of their first writing, with
`example` at the front because it is written before everything else, if only to null.

Merging writes the collected entries that are not null into a schema, in their order. A schema key
keeps its place whether it is written to or not, and merging twice is merging once.
-/

namespace Schemata

open Traced

namespace Value

variable {e ws : List (Value × Value)} {k : Value} {x : Value × Value}

/-! ## Mappings without repeated keys -/

theorem lookup_eq_none_of_forall (h : ∀ x ∈ e, x.1.sameKey k = false) : lookup k e = none := by
  induction e with
  | nil => rfl
  | cons x e ih =>
    obtain ⟨hx, he⟩ := List.forall_mem_cons.mp h
    rw [lookup, hx, ih he]
    rfl

theorem Distinct.lookup_eq_none (h : Distinct (x :: e)) (hx : x.1.sameKey k = true) :
    lookup k e = none := by
  refine lookup_eq_none_of_forall fun y hy ↦ ?_
  have hxy : x.1.sameKey y.1 = false := (List.pairwise_cons.mp h).1 y hy
  rw [sameKey_comm, ← sameKey_congr hx]
  exact hxy

theorem Distinct.lastWritten_eq (h : Distinct ws) (k : Value) : lastWritten k ws = lookup k ws := by
  induction ws with
  | nil => rfl
  | cons w ws ih =>
    rw [lastWritten_cons, ih (List.pairwise_cons.mp h).2, lookup]
    by_cases hw : w.1.sameKey k
    · rw [h.lookup_eq_none hw, if_pos hw]
      rfl
    · rw [if_neg hw, if_neg hw, Option.or_none]

theorem Distinct.lookup_of_mem (h : Distinct e) (hx : x ∈ e) (hkey : x.1.sameKey x.1 = true) :
    lookup x.1 e = some x.2 := by
  induction e with
  | nil => exact absurd hx List.not_mem_nil
  | cons y e ih =>
    rcases List.mem_cons.mp hx with rfl | hx
    · exact if_pos hkey
    · have hyx : y.1.sameKey x.1 = false := (List.pairwise_cons.mp h).1 x hx
      rw [lookup, hyx]
      exact ih (List.pairwise_cons.mp h).2 hx

theorem hasKey_eq_any (e : List (Value × Value)) (k : Value) :
    hasKey e k = e.any (·.1.sameKey k) := by
  induction e with
  | nil => rfl
  | cons x e ih =>
    rw [hasKey, lookup, List.any_cons, ← ih]
    cases x.1.sameKey k <;> rfl

theorem hasKey_put (e : List (Value × Value)) (k v k' : Value) :
    hasKey (put e k v) k' = (k.sameKey k' || hasKey e k') := by
  rw [hasKey, lookup_put]
  cases k.sameKey k' <;> rfl

theorem map_fst_putAll_of_distinct (h : Distinct ws) :
    (putAll e ws).map (·.1) =
      e.map (·.1) ++ (ws.filter fun w ↦ !hasKey e w.1).map (·.1) := by
  induction ws generalizing e with
  | nil => simp [putAll]
  | cons w ws ih =>
    obtain ⟨hw, hws⟩ := List.pairwise_cons.mp h
    have hfilter : (ws.filter fun y ↦ !hasKey (put e w.1 w.2) y.1) =
        ws.filter fun y ↦ !hasKey e y.1 := by
      refine List.filter_congr fun y hy ↦ ?_
      rw [hasKey_put, hw y hy, Bool.false_or]
    rw [putAll_cons, ih hws, hfilter, map_fst_put, ← hasKey_eq_any, List.filter_cons]
    cases hasKey e w.1 with
    | true => rfl
    | false => simp

theorem put_eq_self (h : lookup k e = some x.2) : put e k x.2 = e := by
  induction e with
  | nil => exact nomatch h
  | cons y e ih =>
    rw [lookup] at h
    rw [put]
    by_cases hy : y.1.sameKey k
    · rw [if_pos hy] at h
      rw [if_pos hy, ← Option.some.inj h]
    · rw [if_neg hy] at h
      rw [if_neg hy, ih h]

theorem putAll_eq_self (h : ∀ w ∈ ws, lookup w.1 e = some w.2) : putAll e ws = e := by
  induction ws with
  | nil => rfl
  | cons w ws ih =>
    obtain ⟨hw, hws⟩ := List.forall_mem_cons.mp h
    rw [putAll_cons, put_eq_self hw, ih hws]

end Value

namespace Extension

variable {σ : Type} {tags : List (Tag σ)} {element : String} {e extra schema : Entries}

/-! ## What tags write -/

/-- The entry that a named-entry tag writes, if it has both a name and a value. -/
def namedWriting? (a : Tag σ) : Option (Value × Value) :=
  match a.get? "name", a.get? "value" with
  | some name, some value => some (name.payload, value.payload)
  | _, _ => none

/-- The named entries that tags write. -/
def namedWritings (tags : List (Tag σ)) : Entries :=
  (Tag.findAll tags "Custom").filterMap namedWriting?

/-- The entry that an attribute of a custom tag writes: its data form, under its own name. -/
def attributeWriting? (entry : String × TagValue σ) : Option (Value × Value) :=
  entry.2.coerce.toOption.map fun v ↦ (.str entry.1, v)

/-- The entries that a custom tag writes. -/
def customWritings (a : Tag σ) : Entries :=
  if a.custom then a.entries.filterMap attributeWriting? else []

/-- All entries that tags write, from first to last. -/
def writings (tags : List (Tag σ)) : Entries :=
  withExample tags ++ namedWritings tags ++ tags.flatMap customWritings

/-- Every attribute of a custom tag has a data form. -/
def AllCoerce (tags : List (Tag σ)) : Prop :=
  ∀ a ∈ tags, a.custom = true → ∀ x ∈ a.entries, ∃ v, x.2.coerce = .ok v

/-- The tag is an example, a named entry, or flagged as custom metadata. -/
def IsMetadata (a : Tag σ) : Bool :=
  a.simpleName == "OpenApiExample" || a.simpleName == "Custom" || a.custom

/-- A mapping is what writings leave: `example` first, the value of every key the one written last,
the keys in the order of their first writing. -/
structure LeftBy (ws e : Entries) : Prop where
  example_first : e.head?.map (·.1) = some (.str "example")
  value : ∀ k, Value.lookup k e = Value.lastWritten k ws
  order : e.map (·.1) = Value.firstKeys (ws.map (·.1))

theorem foldlM_addNamed (customs : List (Tag σ)) (extra e : Entries) :
    customs.foldlM addNamed extra = .ok e ↔
      (∀ w ∈ customs.filterMap namedWriting?, w.1.keyable = true) ∧
        Value.putAll extra (customs.filterMap namedWriting?) = e := by
  induction customs generalizing extra with
  | nil => simp [Value.putAll, pure, Except.pure]
  | cons a customs ih =>
    rw [List.foldlM_cons, bind_eq_ok_iff, List.filterMap_cons]
    simp only [addNamed, namedWriting?]
    cases a.get? "name" with
    | none => simp [ih]
    | some name =>
      cases a.get? "value" with
      | none => simp [ih]
      | some value =>
        by_cases hkey : name.payload.keyable
        · simp [hkey, ih, Value.putAll_cons]
        · simp [hkey]

theorem returns_foldlM_addAttribute {entries : List (String × TagValue σ)} {tag : String}
    (h : ∀ x ∈ entries, ∃ v, x.2.coerce = .ok v) (extra : Entries) :
    (entries.foldlM (addAttribute element tag) extra).Returns
      (Value.putAll extra (entries.filterMap attributeWriting?)) := by
  induction entries generalizing extra with
  | nil => rfl
  | cons x entries ih =>
    obtain ⟨⟨v, hv⟩, hentries⟩ := List.forall_mem_cons.mp h
    have hwriting : attributeWriting? x = some (.str x.1, v) := by
      rw [attributeWriting?, hv]
      rfl
    have hadd : (addAttribute element tag extra x).Returns (Value.put extra (.str x.1) v) := by
      rw [addAttribute, hv]
      rfl
    rw [List.foldlM_cons, List.filterMap_cons, hwriting]
    exact returns_bind.mpr ⟨_, hadd, ih hentries _⟩

theorem returns_foldlM_addCustom (h : AllCoerce tags) (extra : Entries) :
    (tags.foldlM (addCustom element) extra).Returns
      (Value.putAll extra (tags.flatMap customWritings)) := by
  induction tags generalizing extra with
  | nil => rfl
  | cons a tags ih =>
    obtain ⟨ha, htags⟩ := List.forall_mem_cons.mp h
    have hadd : (addCustom element extra a).Returns (Value.putAll extra (customWritings a)) := by
      unfold addCustom customWritings
      by_cases hcustom : a.custom
      · rw [if_pos hcustom, if_pos hcustom]
        exact returns_bind.mpr ⟨(), rfl, returns_foldlM_addAttribute (ha hcustom) extra⟩
      · rw [if_neg hcustom, if_neg hcustom]
        rfl
    rw [List.foldlM_cons, List.flatMap_cons, Value.putAll, List.foldl_append]
    exact returns_bind.mpr ⟨_, hadd, ih htags _⟩

/-- If the attributes of custom tags have data forms, collecting needs that the names of named
entries can be keys, and it returns what the writings leave. -/
theorem returns_collect_iff (h : AllCoerce tags) : (collect tags element).Returns e ↔
    (∀ w ∈ namedWritings tags, w.1.keyable = true) ∧ Value.putAll [] (writings tags) = e := by
  have hwritings : Value.putAll [] (writings tags) =
      Value.putAll (Value.putAll (withExample tags) (namedWritings tags))
        (tags.flatMap customWritings) := by
    rw [writings, Value.putAll, List.foldl_append, List.foldl_append]
    rfl
  rw [collect, returns_bind, hwritings]
  simp only [returns_ofExcept, foldlM_addNamed]
  constructor
  · rintro ⟨_, ⟨hkeys, rfl⟩, he⟩
    exact ⟨hkeys, (returns_foldlM_addCustom h _).unique he⟩
  · rintro ⟨hkeys, rfl⟩
    exact ⟨_, ⟨hkeys, rfl⟩, returns_foldlM_addCustom h _⟩

theorem leftBy_putAll_writings (tags : List (Tag σ)) :
    LeftBy (writings tags) (Value.putAll [] (writings tags)) where
  example_first := by
    rw [← List.head?_map, Value.map_fst_putAll_nil, writings, withExample, Value.firstKeys]
    simp [List.eraseDupsBy_cons]
  value k := by
    rw [Value.lookup_putAll]
    exact Option.or_none
  order := Value.map_fst_putAll_nil _

theorem foldlM_addCustom_filter (tags : List (Tag σ)) (element : String) (extra : Entries) :
    (tags.filter IsMetadata).foldlM (addCustom element) extra =
      tags.foldlM (addCustom element) extra := by
  induction tags generalizing extra with
  | nil => rfl
  | cons a tags ih =>
    rw [List.filter_cons]
    by_cases ha : IsMetadata a
    · rw [if_pos ha, List.foldlM_cons, List.foldlM_cons]
      exact congrArg _ (funext ih)
    · have hskip : addCustom element extra a = pure extra := by
        have hflag : a.custom ≠ true := fun hflag ↦ ha (by simp [IsMetadata, hflag])
        rw [addCustom, if_neg hflag]
      rw [if_neg ha, ih, List.foldlM_cons, hskip]
      rfl

/-- Other tags contribute nothing, and do not even show in the log. -/
theorem collect_filter (tags : List (Tag σ)) (element : String) :
    collect (tags.filter IsMetadata) element = collect tags element := by
  have hfind : Tag.find? (tags.filter IsMetadata) "OpenApiExample" =
      Tag.find? tags "OpenApiExample" := by
    unfold Tag.find?
    rw [List.find?_filter]
    congr 1
    funext a
    cases ha : a.simpleName == "OpenApiExample" <;> simp [IsMetadata, ha]
  have hnamed : Tag.findAll (tags.filter IsMetadata) "Custom" = Tag.findAll tags "Custom" := by
    unfold Tag.findAll
    rw [List.filter_filter]
    refine List.filter_congr fun a _ ↦ ?_
    cases ha : a.simpleName == "Custom" <;> simp [IsMetadata, ha]
  rw [collect, collect, withExample, withExample, hfind, hnamed]
  exact congrArg _ (funext fun extra ↦ foldlM_addCustom_filter tags element extra)

/-! ## Merging -/

/-- Whether a value enters a schema as it is: truth values, numbers, lists and mappings do. -/
def isData : Value → Bool
  | .bool _ | .int _ | .float _ | .list _ | .map _ | .declared _ _ => true
  | _ => false

/-- What a schema gets for a value: nothing for null, the value itself if it is data, and its text
otherwise. -/
def mergedForm? : Value → Option Value
  | .null => none
  | v => some (if isData v then v else .str v.text)

/-- Metadata has been merged into a schema: the keys of the schema are in their places, followed by
the new keys that are not null, and every key has the value of the metadata if that is not null, and
otherwise what it had. -/
structure IsMerged (schema extra result : Entries) : Prop where
  order : result.map (·.1) = schema.map (·.1) ++
    (extra.filter fun x ↦ (mergedForm? x.2).isSome && !Value.hasKey schema x.1).map (·.1)
  value : ∀ k, Value.lookup k result =
    ((Value.lookup k extra).bind mergedForm?).or (Value.lookup k schema)

theorem entryForm_eq {v : Value} (h : v ≠ .null) :
    entryForm v = if isData v then v else .str v.text := by
  cases v with
  | null => exact absurd rfl h
  | _ => rfl

theorem added_eq_filterMap (extra : Entries) :
    added extra = extra.filterMap fun x ↦ (mergedForm? x.2).map fun v ↦ (x.1, v) := by
  induction extra with
  | nil => rfl
  | cons x extra ih =>
    obtain ⟨k, v⟩ := x
    by_cases hnull : v = .null
    · rw [hnull]
      exact ih
    · have hform : mergedForm? v = some (entryForm v) := by
        rw [entryForm_eq hnull]
        unfold mergedForm?
        split
        · exact absurd rfl hnull
        · rfl
      rw [added_of_ne_null hnull, List.filterMap_cons, hform, ih]
      rfl

theorem map_fst_filter_added (p : Value → Bool) (extra : Entries) :
    ((added extra).filter fun x ↦ p x.1).map (·.1) =
      (extra.filter fun x ↦ (mergedForm? x.2).isSome && p x.1).map (·.1) := by
  rw [added_eq_filterMap]
  induction extra with
  | nil => rfl
  | cons x extra ih =>
    rw [List.filterMap_cons, List.filter_cons]
    cases hv : mergedForm? x.2 with
    | none => simpa [hv] using ih
    | some v => cases hp : p x.1 <;> simpa [hv, hp] using ih

theorem distinct_added (h : Value.Distinct extra) : Value.Distinct (added extra) := by
  rw [added_eq_filterMap]
  refine List.Pairwise.filterMap _ (fun x y hxy x' hx' y' hy' ↦ ?_) h
  obtain ⟨v, -, rfl⟩ := Option.map_eq_some_iff.mp hx'
  obtain ⟨w, -, rfl⟩ := Option.map_eq_some_iff.mp hy'
  exact hxy

theorem lookup_added (h : Value.Distinct extra) (k : Value) :
    Value.lookup k (added extra) = (Value.lookup k extra).bind mergedForm? := by
  rw [added_eq_filterMap]
  induction extra with
  | nil => rfl
  | cons x extra ih =>
    have ih := ih (List.pairwise_cons.mp h).2
    rw [List.filterMap_cons, Value.lookup]
    by_cases hx : x.1.sameKey k
    · -- no later entry has the key, so a null entry hides nothing
      rw [h.lookup_eq_none hx] at ih
      rw [if_pos hx]
      cases hv : mergedForm? x.2 with
      | none => simpa [hv] using ih
      | some v => simp [hv, Value.lookup, hx]
    · rw [if_neg hx, ← ih]
      cases mergedForm? x.2 with
      | none => rfl
      | some v => exact if_neg hx

/-- Merging does what it should: every key of the schema keeps its place, the new keys follow, and
the values are those of the metadata where it has any. -/
theorem isMerged_merge (h : Value.Distinct extra) (schema : Entries) :
    IsMerged schema extra (merge schema extra) where
  order := by
    rw [← putAll_added, Value.map_fst_putAll_of_distinct (distinct_added h),
      map_fst_filter_added fun k ↦ !Value.hasKey schema k]
  value k := by
    rw [← putAll_added, Value.lookup_putAll, (distinct_added h).lastWritten_eq, lookup_added h]

theorem merge_merge (h : Value.Distinct extra) (hkeys : ∀ x ∈ extra, x.1.sameKey x.1 = true)
    (schema : Entries) : merge (merge schema extra) extra = merge schema extra := by
  rw [← putAll_added (merge schema extra)]
  refine Value.putAll_eq_self fun w hw ↦ ?_
  have hkey : w.1.sameKey w.1 = true := by
    rw [added_eq_filterMap] at hw
    obtain ⟨x, hx, hxw⟩ := List.mem_filterMap.mp hw
    obtain ⟨v, -, rfl⟩ := Option.map_eq_some_iff.mp hxw
    exact hkeys x hx
  have hlookup : Value.lookup w.1 (added extra) = some w.2 :=
    (distinct_added h).lookup_of_mem hw hkey
  rw [(isMerged_merge h schema).value, ← lookup_added h, hlookup]
  rfl

/-! ## The last writer -/

/-- **The last writer of a key decides, and nothing else moves.** If the attributes of all custom
tags have data forms, then collecting returns exactly when the names of named entries can be keys;
what it returns is what the example, the named entries and the custom attributes leave, written in
this order, and no other tag has a part in it. Merging metadata keeps every key of the schema in its
place, appends the new keys that are not null in their order, gives the value of the metadata to
every key that it has one for, leaves the others alone, and does nothing the second time. -/
theorem collected_and_merged (tags : List (Tag σ)) (element : String) (hcoerce : AllCoerce tags) :
    ((∃ e, (collect tags element).Returns e) ↔
        ∀ w ∈ namedWritings tags, w.1.keyable = true) ∧
      (∀ e, (collect tags element).Returns e → LeftBy (writings tags) e) ∧
      collect (tags.filter IsMetadata) element = collect tags element ∧
      ∀ schema extra : Entries, Value.Distinct extra →
        IsMerged schema extra (merge schema extra) ∧
          ((∀ x ∈ extra, x.1.sameKey x.1 = true) →
            merge (merge schema extra) extra = merge schema extra) := by
  refine ⟨?_, fun e he ↦ ?_, collect_filter tags element, fun schema extra h ↦ ?_⟩
  · simp only [returns_collect_iff hcoerce]
    exact ⟨fun ⟨_, hkeys, _⟩ ↦ hkeys, fun hkeys ↦ ⟨_, hkeys, rfl⟩⟩
  · obtain ⟨-, rfl⟩ := (returns_collect_iff hcoerce).mp he
    exact leftBy_putAll_writings tags
  · exact ⟨isMerged_merge h schema, fun hkeys ↦ merge_merge h hkeys schema⟩

end Extension

/-! ## A note -/

namespace Notes

/-- The tags of a note: a flagged tag that overrides the example, two entries of one name, and a
tag that is none of the three. -/
def tags : List (Tag Unit) :=
  [.mk "app.Style" [("example", .string (.str " bold")), ("weight", .number (.int 2))] true,
    .mk "Custom" [("name", .string (.str "title")), ("value", .string (.str "Note"))] false,
    .mk "OpenApiExample" [("value", .string (.str "plain"))] false,
    .mk "Custom" [("name", .string (.str "title")), ("value", .unknown .null)] false,
    .mk "app.Author" [("name", .string (.str "weight"))] false]

/-- The metadata of a note: `title` keeps the place of its first writing and is null in the end. -/
def metadata : Entries :=
  [(.str "example", .str "bold"), (.str "title", .null), (.str "weight", .int 2)]

/-- A schema that has a title and an example of its own. -/
def schema : Entries := [(.str "title", .str "Sheet"), (.str "example", .str "none")]

theorem allCoerce_tags : Extension.AllCoerce tags := by
  intro a ha hcustom x hx
  simp only [tags, List.mem_cons, List.not_mem_nil, or_false] at ha
  rcases ha with rfl | rfl | rfl | rfl | rfl
  · simp only [Tag.entries, List.mem_cons, List.not_mem_nil, or_false] at hx
    rcases hx with rfl | rfl
    · exact ⟨_, rfl⟩
    · exact ⟨_, rfl⟩
  all_goals exact nomatch hcustom

/-- A named entry and a custom attribute override what was written before them, a null entry holds
its place and is not merged, and the metadata land on the keys that the schema has. -/
theorem collected_and_merged_note :
    Extension.AllCoerce tags ∧ (Extension.collect tags "Note").Returns metadata ∧
      Extension.LeftBy (Extension.writings tags) metadata ∧
      Extension.collect (tags.filter Extension.IsMetadata) "Note" = Extension.collect tags "Note" ∧
      Extension.merge schema metadata =
        [(.str "title", .str "Sheet"), (.str "example", .str "bold"), (.str "weight", .int 2)] ∧
      Extension.merge (Extension.merge schema metadata) metadata =
        Extension.merge schema metadata := by
  obtain ⟨-, hleft, hfilter, hmerge⟩ :=
    Extension.collected_and_merged tags "Note" allCoerce_tags
  have hreturns : (Extension.collect tags "Note").Returns metadata := rfl
  have hdistinct : Value.Distinct metadata := Extension.distinct_collect hreturns
  have hkeys : ∀ x ∈ metadata, x.1.sameKey x.1 = true := by
    simp [metadata, Value.sameKey, Value.quantity?]
  obtain ⟨-, hagain⟩ := hmerge schema metadata hdistinct
  exact ⟨allCoerce_tags, hreturns, hleft metadata hreturns, hfilter, rfl, hagain hkeys⟩

end Notes

end Schemata
