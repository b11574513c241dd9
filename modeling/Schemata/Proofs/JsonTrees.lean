import Schemata.Host
import Schemata.Output
import Schemata.Proofs.Entries

/-!
# JSON trees

A value is a JSON tree if it is made of truth values, numbers, strings, lists and mappings with
different strings for keys. Every JSON tree can be written as JSON, and the operations that change a
schema keep it a tree.

Metadata is where other values could come in. `Tag.WellTyped` says that the datum of an attribute is
of the kind that it is declared as; what is collected from such tags is then a tree or null, entry
by entry. Not every attribute has a data form: nested tags and unknown values have none, and neither
has an array around them. `Extension.collect` fails on a custom tag with such an attribute.
-/

namespace Schemata

variable {σ : Type}

open Traced

/-! ## Trees -/

namespace Value

/-- The value is a truth value, a number, a string, a list of trees, or a mapping of different
strings to trees. -/
inductive IsJson : Value → Prop
  | bool (b : Bool) : IsJson (.bool b)
  | int (n : Int) : IsJson (.int n)
  | float (x : Binary64) : IsJson (.float x)
  | str (s : String) : IsJson (.str s)
  | list {items : List Value} (h : ∀ v ∈ items, IsJson v) : IsJson (.list items)
  | map {entries : List (Value × Value)} (hkeys : ∀ x ∈ entries, ∃ key, x.1 = .str key)
      (hdistinct : Distinct entries) (hvalues : ∀ x ∈ entries, IsJson x.2) : IsJson (.map entries)
  | declared {number : Nat} {v : Value} (h : IsJson v) : IsJson (.declared number v)

variable {e e' : List (Value × Value)} {a : String} {k v : Value}

theorem isJson_map_iff : IsJson (.map e) ↔
    Distinct e ∧ ∀ x ∈ e, (∃ key, x.1 = .str key) ∧ IsJson x.2 := by
  constructor
  · rintro (- | - | - | - | - | ⟨hkeys, hdistinct, hvalues⟩)
    exact ⟨hdistinct, fun x hx ↦ ⟨hkeys x hx, hvalues x hx⟩⟩
  · exact fun ⟨hdistinct, h⟩ ↦ .map (fun x hx ↦ (h x hx).1) hdistinct fun x hx ↦ (h x hx).2

theorem IsJson.ne_null (h : IsJson v) : v ≠ .null := by
  rintro rfl
  exact nomatch h

theorem IsJson.arrayItem (h : IsJson v) : TagValue.arrayItem v = true := by
  induction h with
  | declared _ ih => exact ih
  | _ => rfl

theorem IsJson.entryForm_eq (h : IsJson v) : Extension.entryForm v = v := by
  cases h <;> rfl

theorem mem_put_cases {x : Value × Value} (h : x ∈ put e k v) :
    x ∈ e ∨ x.2 = v ∧ (x.1 = k ∨ x.1 ∈ e.map (·.1)) := by
  induction e with
  | nil =>
    obtain rfl := List.mem_singleton.mp h
    exact .inr ⟨rfl, .inl rfl⟩
  | cons y e ih =>
    rw [put] at h
    split at h
    · rcases List.mem_cons.mp h with rfl | h
      · exact .inr ⟨rfl, .inr List.mem_cons_self⟩
      · exact .inl (List.mem_cons_of_mem y h)
    · rcases List.mem_cons.mp h with rfl | h
      · exact .inl List.mem_cons_self
      · exact (ih h).imp (List.mem_cons_of_mem y)
          (And.imp_right (Or.imp_right (List.mem_cons_of_mem y.1)))

theorem forall_mem_put_str {P : Value → Prop} (he : ∀ x ∈ e, (∃ key, x.1 = .str key) ∧ P x.2)
    (hv : P v) : ∀ x ∈ put e (.str a) v, (∃ key, x.1 = .str key) ∧ P x.2 := by
  intro x hx
  rcases mem_put_cases hx with hx | ⟨hxv, hxk | hxk⟩
  · exact he x hx
  · exact ⟨⟨a, hxk⟩, hxv ▸ hv⟩
  · obtain ⟨y, hy, hyx⟩ := List.mem_map.mp hxk
    exact ⟨hyx ▸ (he y hy).1, hxv ▸ hv⟩

theorem IsJson.put (he : IsJson (.map e)) (hv : IsJson v) :
    IsJson (.map (put e (.str a) v)) := by
  obtain ⟨hdistinct, he⟩ := isJson_map_iff.mp he
  exact isJson_map_iff.mpr ⟨hdistinct.put, forall_mem_put_str he hv⟩

theorem IsJson.putAll (he : IsJson (.map e)) (he' : IsJson (.map e')) :
    IsJson (.map (putAll e e')) := by
  obtain ⟨-, he'⟩ := isJson_map_iff.mp he'
  clear * - he he'
  induction e' generalizing e with
  | nil => exact he
  | cons x e' ih =>
    obtain ⟨⟨⟨key, hkey⟩, hx⟩, he'⟩ := List.forall_mem_cons.mp he'
    refine ih (e := Value.put e x.1 x.2) ?_ he'
    rw [hkey]
    exact he.put hx

theorem isJson_map_of_nodup {α : Type} {xs : List α} {name : α → String} {value : α → Value}
    (hnames : (xs.map name).Nodup) (hvalues : ∀ x ∈ xs, IsJson (value x)) :
    IsJson (.map (xs.map fun x ↦ (.str (name x), value x))) := by
  have hdistinct : Distinct (xs.map fun x ↦ (.str (name x), value x)) := by
    refine List.pairwise_map.mpr ((List.pairwise_map.mp hnames).imp fun hne ↦ ?_)
    exact Bool.eq_false_iff.mpr fun h ↦ hne (str.inj (sameKey_str_right.mp h))
  refine isJson_map_iff.mpr ⟨hdistinct, fun x hx ↦ ?_⟩
  obtain ⟨y, hy, rfl⟩ := List.mem_map.mp hx
  exact ⟨⟨_, rfl⟩, hvalues y hy⟩

theorem isJson_strs (names : List String) : IsJson (.list (names.map .str)) := by
  refine .list fun v hv ↦ ?_
  obtain ⟨name, -, rfl⟩ := List.mem_map.mp hv
  exact .str name

end Value

open Value (IsJson)

/-! ## Writing trees -/

theorem Json.exists_write {v : Value} (h : IsJson v) (style : Json.Style) (level : Nat) :
    ∃ text, Json.write style level v = .ok text := by
  induction h generalizing level with
  | bool | int | float | str => exact ⟨_, rfl⟩
  | @list items _ ih =>
    have hitems : ∃ texts, Json.writeItems style (level + 1) items = .ok texts := by
      clear * - ih
      induction items with
      | nil => exact ⟨[], rfl⟩
      | cons v items ihitems =>
        obtain ⟨hv, hitems⟩ := List.forall_mem_cons.mp ih
        obtain ⟨text, htext⟩ := hv (level + 1)
        obtain ⟨texts, htexts⟩ := ihitems hitems
        refine ⟨text :: texts, ?_⟩
        rw [Json.writeItems, htext, htexts]
        rfl
    obtain ⟨texts, htexts⟩ := hitems
    rw [Json.write, htexts]
    exact ⟨_, rfl⟩
  | @map entries hkeys _ _ ih =>
    have hentries : ∃ texts, Json.writeEntries style (level + 1) entries = .ok texts := by
      clear * - ih hkeys
      induction entries with
      | nil => exact ⟨[], rfl⟩
      | cons x entries ihentries =>
        obtain ⟨⟨key, hkey⟩, hkeys⟩ := List.forall_mem_cons.mp hkeys
        obtain ⟨hx, hentries⟩ := List.forall_mem_cons.mp ih
        obtain ⟨text, htext⟩ := hx (level + 1)
        obtain ⟨texts, htexts⟩ := ihentries hkeys hentries
        refine ⟨(Json.stringText key ++ ": " ++ text) :: texts, ?_⟩
        rw [Json.writeEntries, hkey, htext, htexts]
        rfl
    obtain ⟨texts, htexts⟩ := hentries
    rw [Json.write, htexts]
    exact ⟨_, rfl⟩
  | declared _ ih => exact ih level

theorem Output.exists_format_json {v : Value} (h : IsJson v) :
    ∃ text, Output.format v "json" = .ok (.text text) := by
  obtain ⟨text, htext⟩ := Json.exists_write h { indent := some 2 } 0
  refine ⟨text, ?_⟩
  rw [Output.format, Json.pretty, htext]
  rfl

/-! ## Attributes -/

namespace TagValue

/-- The datum is of the kind that the value is declared as. What a type, a constant, a nested tag or
an unknown value may be is up to the host. -/
inductive Fits : TagValue σ → Prop
  | boolean (b : Bool) : Fits (.boolean (.bool b))
  | integer (n : Int) : Fits (.number (.int n))
  | float (x : Binary64) : Fits (.number (.float x))
  | string (s : String) : Fits (.string (.str s))
  | type (t : TypeRef σ) : Fits (.type t)
  | enumConstant (v : Value) : Fits (.enumConstant v)
  | array {items : List (TagValue σ)} (h : ∀ v ∈ items, Fits v) : Fits (.array items)
  | tag (a : Tag σ) : Fits (.tag a)
  | unknown (v : Value) : Fits (.unknown v)

/-- The value has a data form: it is neither a nested tag nor unknown, nor an array with such an
item. -/
inductive Representable : TagValue σ → Prop
  | boolean (v : Value) : Representable (.boolean v)
  | number (v : Value) : Representable (.number v)
  | string (v : Value) : Representable (.string v)
  | type (t : TypeRef σ) : Representable (.type t)
  | enumConstant (v : Value) : Representable (.enumConstant v)
  | array {items : List (TagValue σ)} (h : ∀ v ∈ items, Representable v) :
      Representable (.array items)

/-- A value is coerced into a tree, or it has no data form and that is the error. -/
def CoercesOr (v : TagValue σ) : Prop :=
  (v.Representable ∧ ∃ w, v.coerce = .ok w ∧ IsJson w) ∨
    (¬v.Representable ∧ ∃ reason, v.coerce = .error (.uncoercible reason))

theorem coerceAll_of_coercesOr {items : List (TagValue σ)} (h : ∀ v ∈ items, v.CoercesOr) :
    ((∀ v ∈ items, v.Representable) ∧
        ∃ ws, coerceAll items = .ok ws ∧ ∀ w ∈ ws, IsJson w) ∨
      (¬(∀ v ∈ items, v.Representable) ∧
        ∃ reason, coerceAll items = .error (.uncoercible reason)) := by
  induction items with
  | nil => exact .inl ⟨fun _ hv ↦ absurd hv List.not_mem_nil, [], rfl, fun _ hw ↦
      absurd hw List.not_mem_nil⟩
  | cons v items ih =>
    obtain ⟨hv, hitems⟩ := List.forall_mem_cons.mp h
    rcases hv with ⟨hv, w, hw, hjson⟩ | ⟨hv, reason, hreason⟩
    · rcases ih hitems with ⟨hrest, ws, hws, hall⟩ | ⟨hrest, reason, hreason⟩
      · refine .inl ⟨List.forall_mem_cons.mpr ⟨hv, hrest⟩, w :: ws, ?_,
          List.forall_mem_cons.mpr ⟨hjson, hall⟩⟩
        rw [coerceAll, hw]
        change (if arrayItem w = true then _ else _) = _
        rw [if_pos hjson.arrayItem, hws]
        rfl
      · refine .inr ⟨fun hrep ↦ hrest (List.forall_mem_cons.mp hrep).2, reason, ?_⟩
        rw [coerceAll, hw]
        change (if arrayItem w = true then _ else _) = _
        rw [if_pos hjson.arrayItem, hreason]
        rfl
    · refine .inr ⟨fun hrep ↦ hv (List.forall_mem_cons.mp hrep).1, reason, ?_⟩
      rw [coerceAll, hreason]
      rfl

theorem Fits.coercesOr {v : TagValue σ} (h : v.Fits) : v.CoercesOr := by
  -- types and constants need no assumption, since they are coerced into their texts
  induction h with
  | boolean b => exact .inl ⟨.boolean _, _, rfl, .bool b⟩
  | integer n => exact .inl ⟨.number _, _, rfl, .int n⟩
  | float x => exact .inl ⟨.number _, _, rfl, .float x⟩
  | string s => exact .inl ⟨.string _, _, rfl, .str _⟩
  | type t => exact .inl ⟨.type t, _, rfl, .str _⟩
  | enumConstant v => exact .inl ⟨.enumConstant v, _, rfl, .str _⟩
  | @array items _ ih =>
    rcases coerceAll_of_coercesOr ih with ⟨hrep, ws, hws, hall⟩ | ⟨hrep, reason, hreason⟩
    · refine .inl ⟨.array hrep, .list ws, ?_, .list hall⟩
      rw [coerce, hws]
      rfl
    · refine .inr ⟨fun h ↦ ?_, reason, ?_⟩
      · cases h with
        | array h => exact hrep h
      · rw [coerce, hreason]
        rfl
  | tag a => exact .inr ⟨by rintro ⟨⟩, _, rfl⟩
  | unknown v => exact .inr ⟨by rintro ⟨⟩, _, rfl⟩

/-- The datum is a string. -/
def IsText (v : TagValue σ) : Prop := ∃ s, v.payload = .str s

theorem IsText.coercesOr {v : TagValue σ} (h : v.IsText) : v.CoercesOr := by
  obtain ⟨s, hs⟩ := h
  cases v with
  | boolean | number =>
    obtain rfl := hs
    exact .inl ⟨by constructor, _, rfl, .str s⟩
  | string =>
    obtain rfl := hs
    exact .inl ⟨.string _, _, rfl, .str _⟩
  | enumConstant => exact .inl ⟨.enumConstant _, _, rfl, .str _⟩
  | unknown v => exact .inr ⟨fun h ↦ (nomatch h), _, rfl⟩
  | type | array | tag => exact nomatch hs

end TagValue

/-- The attributes of examples and named entries are texts, and those of other tags are of the kinds
that they are declared as. -/
structure Tag.WellTyped (a : Tag σ) : Prop where
  texts : a.simpleName = "OpenApiExample" ∨ a.simpleName = "Custom" → ∀ x ∈ a.entries, x.2.IsText
  others : a.simpleName ≠ "OpenApiExample" → a.simpleName ≠ "Custom" → ∀ x ∈ a.entries, x.2.Fits

theorem Tag.WellTyped.coercesOr {a : Tag σ} (h : a.WellTyped) {x : String × TagValue σ}
    (hx : x ∈ a.entries) : x.2.CoercesOr := by
  by_cases hexample : a.simpleName = "OpenApiExample"
  · exact (h.texts (.inl hexample) x hx).coercesOr
  · by_cases hcustom : a.simpleName = "Custom"
    · exact (h.texts (.inr hcustom) x hx).coercesOr
    · exact (h.others hexample hcustom x hx).coercesOr

/-- All tags of types and members are well typed. -/
structure Host.WellTyped (host : Host σ) : Prop where
  types : ∀ t tags, (host.tags t).Returns tags → ∀ a ∈ tags, a.WellTyped
  members : ∀ t ms, (host.members t).Returns ms → ∀ m ∈ ms, ∀ a ∈ m.tags, a.WellTyped

/-! ## Metadata -/

namespace Extension

variable {e extra : Entries} {a : String} {v : Value} {tags : List (Tag σ)} {element : String}

/-- Every entry has a string key, and a tree or null under it. -/
def Mergeable (extra : Entries) : Prop :=
  ∀ x ∈ extra, (∃ key, x.1 = .str key) ∧ (x.2 = .null ∨ IsJson x.2)

theorem mergeable_nil : Mergeable [] := fun _ hx ↦ absurd hx List.not_mem_nil

theorem mergeable_of_isJson (h : IsJson (.map extra)) : Mergeable extra := fun x hx ↦
  ((Value.isJson_map_iff.mp h).2 x hx).imp_right .inr

theorem Mergeable.put (h : Mergeable extra) (hv : v = .null ∨ IsJson v) :
    Mergeable (Value.put extra (.str a) v) :=
  Value.forall_mem_put_str (P := fun v ↦ v = .null ∨ IsJson v) h hv

theorem isJson_merge (he : IsJson (.map e)) (h : Mergeable extra) :
    IsJson (.map (merge e extra)) := by
  induction extra generalizing e with
  | nil => exact he
  | cons x extra ih =>
    obtain ⟨⟨⟨key, hkey⟩, hx⟩, hextra⟩ := List.forall_mem_cons.mp h
    rw [merge_cons]
    rcases hx with hnull | hjson
    · have hentry : mergeEntry e x = e := by rw [mergeEntry, hnull]
      rw [hentry]
      exact ih he hextra
    · rw [mergeEntry_of_ne_null hjson.ne_null, hjson.entryForm_eq, hkey]
      exact ih (he.put hjson) hextra

/-! ## Collecting metadata -/

theorem isText_of_get? {tag : Tag σ} (h : ∀ x ∈ tag.entries, x.2.IsText) {key : String}
    {value : TagValue σ} (hvalue : tag.get? key = some value) : value.IsText := by
  obtain ⟨x, hx, rfl⟩ := Option.map_eq_some_iff.mp hvalue
  exact h x (List.mem_of_find?_eq_some hx)

theorem mergeable_withExample (htags : ∀ tag ∈ tags, tag.WellTyped) :
    Mergeable (withExample tags) := by
  intro x hx
  obtain rfl := List.mem_singleton.mp hx
  refine ⟨⟨_, rfl⟩, ?_⟩
  dsimp only
  cases hfind : Tag.find? tags "OpenApiExample" with
  | none => exact .inl rfl
  | some tag =>
    have htexts := (htags tag (List.mem_of_find?_eq_some hfind)).texts
      (.inl (by simpa using List.find?_some hfind))
    cases hvalue : tag.get? "value" with
    | none =>
      left
      simp [hvalue]
    | some value =>
      obtain ⟨s, hs⟩ := isText_of_get? htexts hvalue
      right
      simp only [bind, Option.bind, hvalue, Option.map_some, Option.getD_some, hs]
      exact .str s

theorem exists_addNamed {tag : Tag σ} (htexts : ∀ x ∈ tag.entries, x.2.IsText)
    (h : Mergeable extra) : ∃ result, addNamed extra tag = .ok result ∧ Mergeable result := by
  unfold addNamed
  split
  · next name value hname hvalue =>
    obtain ⟨s, hs⟩ := isText_of_get? htexts hname
    obtain ⟨w, hw⟩ := isText_of_get? htexts hvalue
    rw [hs, hw]
    exact ⟨_, rfl, h.put (.inr (.str w))⟩
  · exact ⟨extra, rfl, h⟩

theorem exists_foldlM_addNamed {customs : List (Tag σ)}
    (htexts : ∀ tag ∈ customs, ∀ x ∈ tag.entries, x.2.IsText) (h : Mergeable extra) :
    ∃ result, customs.foldlM addNamed extra = .ok result ∧ Mergeable result := by
  induction customs generalizing extra with
  | nil => exact ⟨extra, rfl, h⟩
  | cons tag customs ih =>
    obtain ⟨htag, hcustoms⟩ := List.forall_mem_cons.mp htexts
    obtain ⟨next, hnext, hmergeable⟩ := exists_addNamed htag h
    obtain ⟨result, hresult, hmergeable⟩ := ih hcustoms hmergeable
    refine ⟨result, ?_, hmergeable⟩
    rw [List.foldlM_cons, hnext]
    exact hresult

theorem exists_named (htags : ∀ tag ∈ tags, tag.WellTyped) :
    ∃ named, (Tag.findAll tags "Custom").foldlM addNamed (withExample tags) = .ok named ∧
      Mergeable named := by
  refine exists_foldlM_addNamed (fun tag htag ↦ ?_) (mergeable_withExample htags)
  obtain ⟨htag, hname⟩ := List.mem_filter.mp htag
  exact (htags tag htag).texts (.inr (by simpa using hname))

theorem mergeable_addAttribute {tag : String} {x : String × TagValue σ} {result : Entries}
    (hx : x.2.CoercesOr) (h : Mergeable extra)
    (hresult : (addAttribute element tag extra x).Returns result) : Mergeable result := by
  unfold addAttribute at hresult
  rcases hx with ⟨-, w, hw, hjson⟩ | ⟨-, reason, hreason⟩
  · rw [hw] at hresult
    obtain ⟨-, -, hresult⟩ := returns_bind.mp hresult
    rw [← returns_pure.mp hresult]
    exact h.put (.inr hjson)
  · rw [hreason] at hresult
    exact nomatch hresult

theorem mergeable_collect (htags : ∀ tag ∈ tags, tag.WellTyped)
    (h : (collect tags element).Returns extra) : Mergeable extra := by
  obtain ⟨named, hnamed, hmergeable⟩ := exists_named htags
  obtain ⟨named', hnamed', h⟩ := returns_bind.mp h
  obtain rfl := Except.ok.inj (hnamed.symm.trans (returns_ofExcept.mp hnamed'))
  refine h.foldlM_induction_of_mem (motive := Mergeable) (fun tag htag es es' hes hes' ↦ ?_)
    hmergeable
  unfold addCustom at hes'
  split at hes'
  · obtain ⟨-, -, hes'⟩ := returns_bind.mp hes'
    exact hes'.foldlM_induction_of_mem (motive := Mergeable)
      (fun x hx _ _ hb hc ↦ mergeable_addAttribute ((htags tag htag).coercesOr hx) hb hc) hes
  · rw [← returns_pure.mp hes']
    exact hes

/-- The error is that an attribute of a custom tag has no data form. -/
def NamesUnrepresentable (tags : List (Tag σ)) (element : String) (e : Error) : Prop :=
  ∃ tag ∈ tags, tag.custom = true ∧ ∃ x ∈ tag.entries, ¬x.2.Representable ∧
    ∃ reason, e = .unsupportedTag element tag.name x.1 reason

/-- Collecting fails on a custom tag with an attribute that has no data form, for that reason. -/
theorem collect_fails (htags : ∀ tag ∈ tags, tag.WellTyped) {tag : Tag σ} (htag : tag ∈ tags)
    (hcustom : tag.custom = true) {x : String × TagValue σ} (hx : x ∈ tag.entries)
    (hrep : ¬x.2.Representable) :
    ∃ e, NamesUnrepresentable tags element e ∧
      (collect tags element).outcome = .error (.error e) := by
  let P (f : Failure) : Prop := ∃ e, NamesUnrepresentable tags element e ∧ f = .error e
  -- an attribute is added or has no data form
  have hattribute : ∀ tag ∈ tags, tag.custom = true → ∀ x ∈ tag.entries, ∀ es,
      (x.2.Representable ∧ ∃ es', (addAttribute element tag.name es x).Returns es') ∨
        ¬x.2.Representable ∧
          ∃ f, P f ∧ (addAttribute element tag.name es x).outcome = .error f := by
    intro tag htag hcustom x hx es
    unfold addAttribute
    rcases (htags tag htag).coercesOr hx with ⟨hrep, w, hw, -⟩ | ⟨hrep, reason, hreason⟩
    · rw [hw]
      exact .inl ⟨hrep, _, rfl⟩
    · rw [hreason]
      exact .inr ⟨hrep, _, ⟨_, ⟨tag, htag, hcustom, x, hx, hrep, reason, rfl⟩, rfl⟩, rfl⟩
  have hadd : ∀ tag ∈ tags, ∀ es, (∃ es', (addCustom element es tag).Returns es') ∨
      ∃ f, P f ∧ (addCustom element es tag).outcome = .error f := by
    intro tag htag es
    unfold addCustom
    split
    · next hcustom =>
      exact foldlM_returns_or (fun x hx es ↦
        (hattribute tag htag hcustom x hx es).imp And.right And.right) es
    · exact .inl ⟨es, rfl⟩
  obtain ⟨named, hnamed, -⟩ := exists_named htags
  have houtcome : (collect tags element).outcome =
      (tags.foldlM (addCustom element) named).outcome := by
    rw [collect, hnamed]
    rfl
  rcases foldlM_returns_or hadd named with ⟨extra, hreturns⟩ | ⟨f, ⟨e, he, rfl⟩, herror⟩
  · -- the attribute stops the fold over its tag, and so the fold over all tags
    refine absurd hreturns (not_returns_foldlM htag (fun es es' ↦ ?_) named extra)
    unfold addCustom
    rw [if_pos hcustom]
    rintro hes'
    obtain ⟨-, -, hes'⟩ := returns_bind.mp hes'
    refine not_returns_foldlM hx (fun es es' hes' ↦ ?_) es es' hes'
    rcases hattribute tag htag hcustom x hx es with ⟨hx, -⟩ | ⟨-, f, -, hf⟩
    · exact hrep hx
    · exact nomatch hf.symm.trans hes'
  · exact ⟨e, he, houtcome.trans herror⟩

end Extension

end Schemata
