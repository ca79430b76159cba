import Mathlib
import TemplateDocs.Metadata.Record
import TemplateDocs.Proofs.Metadata.Refusal
import TemplateDocs.Proofs.Records

/-!
# Decoding loses nothing

Metadata that is decoded and written out again is the mapping it came from, brought into a normal
form: reserved keys that hold null are gone, and numbers and booleans stand as text where text is
expected. Override objects under `example` and `examples` are brought into that form at every depth.
-/
namespace TemplateDocs

namespace Metadata

open Json (Value Fields Same DistinctKeys sheet)

/-! ### The normal form -/

def asText : Value → Value
  | .number n => .string n.write
  | .bool b => .string (Json.scalar (.bool b))
  | v => v

def isNull : Value → Bool
  | .null => true
  | _ => false

/-- What stands under `key` instead of `v`, if anything does; `asExample` is what an example
becomes. -/
def normValue? (key : Text) (v : Value) (asExample : Option Value) : Option Value :=
  if exampleKeys.contains key then asExample
  else if !overrideKeys.contains key then some v
  else if isNull v then none
  else some (if textKeys.contains key then asText v else v)

mutual

def normExample? : Value → Option Value
  | .null => none
  | .bool b => some (.bool b)
  | .number n => some (.string n.write)
  | .string s => some (.string s)
  | .array items => some (.array (normItems items))
  | .object fields => some (.object (normFields fields))

def normItems : List Value → List Value
  | [] => []
  | v :: rest => (normExample? v).toList ++ normItems rest

def normFields : Fields → Fields
  | [] => []
  | (k, v) :: rest =>
    ((normValue? k v (normExample? v)).map fun w => (k, w)).toList ++ normFields rest

end

/-- The normal form of a block's mapping, where `capture` is reserved as well. -/
def normBlock (fields : Fields) : Fields :=
  normFields (fields.filter fun f => !(f.1 = "capture".toList && isNull f.2))

/-- The value without the keys whose items are parameters. -/
def withoutParameters : Value → Value
  | .object fields => .object (extraOf parameterKeys fields)
  | v => v

theorem normFields_eq_sheet (fields : Fields) : normFields fields =
    sheet (fields.map fun f => (f.1, normValue? f.1 f.2 (normExample? f.2))) := by
  induction fields with
  | nil => rfl
  | cons f rest ih => rw [normFields, ih]; rfl

theorem get?_normFields {fields : Fields} (h : (fields.map Prod.fst).Nodup) (key : Text) :
    Fields.get? key (normFields fields) =
      (Fields.get? key fields).bind fun v => normValue? key v (normExample? v) := by
  have hkeys : (fields.map fun f => (f.1, normValue? f.1 f.2 (normExample? f.2))).map Prod.fst =
      fields.map Prod.fst := by
    rw [List.map_map]
    rfl
  rw [normFields_eq_sheet, ← List.append_nil (sheet _)]
  cases hget : Fields.get? key fields with
  | none =>
    rw [sheet.get?_of_not_mem (hkeys ▸ Fields.get?_eq_none_iff.mp hget)]
    rfl
  | some v =>
    refine sheet.get?_of_mem (hkeys ▸ h) (by simp) ?_
    exact List.mem_map.mpr ⟨(key, v), Fields.mem_of_get? hget, rfl⟩

theorem normValue?_example {key : Text} (hkey : key ∈ exampleKeys) (v : Value) (x : Option Value) :
    normValue? key v x = x := by
  rw [normValue?, if_pos (List.contains_iff_mem.mpr hkey)]

theorem normValue?_extra {key : Text} (hkey : key ∉ overrideKeys) (v : Value) (x : Option Value) :
    normValue? key v x = some v := by
  have hkeys : ∀ key ∈ exampleKeys, key ∈ overrideKeys := by decide
  have hexample : key ∉ exampleKeys := fun hmem => hkey (hkeys key hmem)
  simp [normValue?, hexample, hkey]

theorem normValue?_reserved {key : Text} (hkey : key ∈ overrideKeys) (hexample : key ∉ exampleKeys)
    (v : Value) (x : Option Value) : normValue? key v x =
      if isNull v then none else some (if key ∈ textKeys then asText v else v) := by
  simp [normValue?, hexample, hkey]

theorem normValue?_text {key : Text} (hkey : key ∈ textKeys) (v : Value) (x : Option Value) :
    normValue? key v x = if isNull v then none else some (asText v) := by
  have hkeys : ∀ key ∈ textKeys, key ∉ exampleKeys ∧ key ∈ overrideKeys := by decide
  rw [normValue?_reserved (hkeys key hkey).2 (hkeys key hkey).1, if_pos hkey]

theorem normValue?_locals (v : Value) (x : Option Value) :
    normValue? "locals".toList v x = if isNull v then none else some v := by
  have htext : "locals".toList ∉ textKeys := by decide
  rw [normValue?_reserved (by decide) (by decide), if_neg htext]

end Metadata

/-! ### What is written -/

open Json (Value Fields Same DistinctKeys sheet)

def ExampleField.value? : ExampleField → Option Value
  | .absent => none
  | .flag b => some (.bool b)
  | .one e => some e.record
  | .many es => some (.array (Example.records es))

/-- The keys that blocks and override objects both have a field for, with what is written there. -/
def Settings.slots (s : Settings) (e es : ExampleField) : List (Text × Option Value) :=
  [("name".toList, s.name.map .string), ("description".toList, s.description.map .string),
    ("example".toList, e.value?), ("examples".toList, es.value?),
    ("beforeEach".toList, s.before.map .string), ("afterEach".toList, s.after.map .string),
    ("locals".toList, s.locals.map .object)]

def Metadata.parameterSlots (m : Metadata) : List (Text × Option Value) :=
  [("arguments".toList, m.arguments.map fun ps => .array (ps.map Parameter.record)),
    ("attributes".toList, m.attributes.map fun ps => .array (ps.map Parameter.record))]

/-- The keys that blocks have a field for: the parameters come after the description, and `capture`
comes last. -/
def Metadata.slots (m : Metadata) : List (Text × Option Value) :=
  let shared := m.settings.slots m.example_ m.examples
  shared.take 2 ++ m.parameterSlots ++ shared.drop 2 ++ [("capture".toList, m.capture)]

theorem optional_eq (key : String) (v : Option Value) :
    optional key v = (v.map fun w => (key.toList, w)).toList := by
  cases v <;> rfl

theorem ExampleField.entry_eq (key : String) (f : ExampleField) :
    f.entry key = (f.value?.map fun w => (key.toList, w)).toList := by
  cases f <;> rfl

theorem Override.record_eq (o : Override) :
    o.record = .object (sheet (o.settings.slots o.example_ o.examples) ++ o.settings.extra) := by
  obtain ⟨s, e, es⟩ := o
  simp only [record, optionalText, optional_eq, ExampleField.entry_eq, sheet, Settings.slots,
    settings, example_, examples, List.flatMap_cons, List.flatMap_nil, List.append_assoc,
    List.nil_append]

theorem Metadata.record_eq (m : Metadata) :
    m.record = .object (sheet m.slots ++ m.settings.extra) := by
  simp only [record, optionalText, optional_eq, ExampleField.entry_eq, sheet, slots, parameterSlots,
    Settings.slots, List.take_succ_cons, List.take_zero, List.drop_succ_cons,
    List.drop_zero, List.cons_append, List.flatMap_cons, List.flatMap_nil, List.append_assoc,
    List.nil_append]

theorem Settings.keys_slots (s : Settings) (e es : ExampleField) :
    (s.slots e es).map Prod.fst = Metadata.overrideKeys := rfl

theorem Metadata.keys_slots (m : Metadata) : (m.slots.map Prod.fst).Perm blockKeys := by
  change List.Perm (overrideKeys.take 2 ++ parameterKeys ++ overrideKeys.drop 2 ++ ["capture".toList]) _
  decide

theorem Metadata.mem_slots {m : Metadata} {slot : Text × Option Value} : slot ∈ m.slots ↔
    slot ∈ m.settings.slots m.example_ m.examples ∨ slot ∈ m.parameterSlots ∨
      slot = ("capture".toList, m.capture) := by
  have hshared := List.take_append_drop 2 (m.settings.slots m.example_ m.examples)
  rw [← hshared]
  simp only [slots, List.mem_append, List.mem_singleton, or_assoc]
  rw [or_left_comm (a := slot ∈ m.parameterSlots)]

theorem Parameter.distinctKeys_record (p : Parameter) : DistinctKeys p.record := by
  refine .object (show List.Nodup (["name", "description", "type", "default", "nullable", "optional",
    "original"].map String.toList) by decide) ?_
  have hnames : DistinctKeys p.names.record := by
    cases p.names with
    | single name => exact .string name
    | union names =>
      refine .array fun v hv => ?_
      obtain ⟨name, -, rfl⟩ := List.mem_map.mp hv
      exact .string name
  have hdefault : DistinctKeys ((p.default.map Value.string).getD .null) := by
    cases p.default with
    | none => exact .null
    | some t => exact .string t
  simp [entry, hnames, hdefault, DistinctKeys.string, DistinctKeys.bool]

namespace Metadata

/-! ### What is written is what was decoded -/

/-- What is written under a key is the normal form of what was there. -/
structure Fits (fields : Fields) (slot : Text × Option Value) : Prop where
  same : Option.Rel Same slot.2
    ((Fields.get? slot.1 fields).bind fun v => normValue? slot.1 v (normExample? v))
  distinct : ∀ v ∈ slot.2, DistinctKeys v

theorem fits_text {key : String} {fields : Fields} {t : Option Text} (hkey : key.toList ∈ textKeys)
    (h : text? key fields = .ok t) : Fits fields (key.toList, t.map .string) := by
  refine ⟨?_, ?_⟩
  · simp only [normValue?_text hkey]
    unfold text? at h
    cases hget : Fields.get? key.toList fields with
    | none =>
      simp only [hget, Except.ok.injEq] at h
      subst h
      exact .none
    | some v => cases v <;> simp only [hget, Except.ok.injEq, reduceCtorEq] at h <;> subst h <;>
        exact Same.option_refl _
  · intro v hv
    obtain ⟨s, -, rfl⟩ := Option.map_eq_some_iff.mp hv
    exact .string s

theorem fits_locals {fields : Fields} {locals : Option Locals} (hd : DistinctKeys (.object fields))
    (h : locals? fields = .ok locals) : Fits fields ("locals".toList, locals.map .object) := by
  have hnorm := normValue?_locals
  unfold locals? at h
  -- nothing below depends on how the key is spelled
  generalize "locals".toList = key at hnorm h ⊢
  cases hget : Fields.get? key fields with
  | none =>
    simp only [hget, Except.ok.injEq] at h
    subst h
    exact ⟨by simp only [hget]; exact .none, by simp⟩
  | some v =>
    cases v <;> simp only [hget, Except.ok.injEq, reduceCtorEq] at h <;> subst h
    · refine ⟨?_, by simp⟩
      simp only [hget, hnorm, Option.bind_some]
      exact .none
    · cases hd with
      | object _ hvalues =>
        refine ⟨?_, ?_⟩
        · simp only [hget, hnorm, Option.bind_some]
          exact Same.option_refl _
        · intro v hv
          cases hv
          exact hvalues _ (Fields.mem_of_get? hget)

/-- Decoded as an example and written again, the value is in normal form. -/
def Lossless (v : Value) : Prop :=
  ∀ f, fieldOf v = .ok f →
    Option.Rel Same f.value? (normExample? v) ∧ ∀ w ∈ f.value?, DistinctKeys w

theorem fits_entry {key : String} {fields : Fields} {f : ExampleField}
    (hkey : key.toList ∈ exampleKeys) (hinner : ∀ f ∈ fields, Lossless f.2)
    (h : entryOf key fields = .ok f) : Fits fields (key.toList, f.value?) := by
  cases hget : Fields.get? key.toList fields with
  | none =>
    rw [entryOf_absent hget] at h
    cases h
    exact ⟨by simp only [hget]; exact .none, by simp [ExampleField.value?]⟩
  | some v =>
    rw [entryOf_of_get? hget] at h
    obtain ⟨hsame, hdistinct⟩ := hinner _ (Fields.mem_of_get? hget) f h
    refine ⟨?_, hdistinct⟩
    simp only [hget, Option.bind_some, normValue?_example hkey]
    exact hsame

theorem Decoded.fits {fields : Fields} {s : Settings} {e es : ExampleField}
    (h : Decoded fields s e es) (hd : DistinctKeys (.object fields))
    (hinner : ∀ f ∈ fields, Lossless f.2) : ∀ slot ∈ s.slots e es, Fits fields slot := by
  simp only [Settings.slots, List.forall_mem_cons]
  exact ⟨fits_text (by decide) h.name, fits_text (by decide) h.description,
    fits_entry (by decide) hinner h.example_, fits_entry (by decide) hinner h.examples,
    fits_text (by decide) h.before, fits_text (by decide) h.after, fits_locals hd h.locals, by simp⟩

section Rest

variable {fields : Fields} (reserved : List Text)

theorem mem_extraOf {f : Text × Value} :
    f ∈ extraOf reserved fields ↔ f ∈ fields ∧ f.1 ∉ reserved := by
  simp [extraOf]

theorem keys_extraOf_nodup (h : (fields.map Prod.fst).Nodup) :
    ((extraOf reserved fields).map Prod.fst).Nodup :=
  h.sublist (List.filter_sublist.map _)

theorem not_mem_keys_extraOf {key : Text} (h : key ∈ reserved) :
    key ∉ (extraOf reserved fields).map Prod.fst := by
  intro hmem
  obtain ⟨f, hf, rfl⟩ := List.mem_map.mp hmem
  exact ((mem_extraOf reserved).mp hf).2 h

theorem get?_extraOf (h : (fields.map Prod.fst).Nodup) (key : Text) :
    Fields.get? key (extraOf reserved fields) =
      if key ∈ reserved then none else Fields.get? key fields := by
  rw [extraOf, Fields.get?_filter h]
  by_cases hkey : key ∈ reserved
  · cases Fields.get? key fields <;> simp [hkey, Option.filter]
  · cases Fields.get? key fields <;> simp [hkey, Option.filter]

end Rest

/-- The slots of the reserved keys and the other entries make an object without repeated keys. -/
theorem distinctKeys_sheet {fields : Fields} {slots : List (Text × Option Value)}
    {reserved : List Text} (hkeys : (slots.map Prod.fst).Perm reserved) (hnd : reserved.Nodup)
    (hd : DistinctKeys (.object fields)) (hslots : ∀ slot ∈ slots, ∀ v ∈ slot.2, DistinctKeys v) :
    DistinctKeys (.object (sheet slots ++ extraOf reserved fields)) := by
  cases hd with
  | object hfields hvalues =>
    refine sheet.distinctKeys (hkeys.nodup_iff.mpr hnd) (keys_extraOf_nodup _ hfields) ?_ hslots ?_
    · exact fun key hkey => not_mem_keys_extraOf _ (hkeys.mem_iff.mp hkey)
    · exact fun f hf => hvalues f ((mem_extraOf _).mp hf).1

/-- What is written under a key is in its slot, or it was there before. -/
theorem get?_sheet_extraOf {fields : Fields} {slots : List (Text × Option Value)}
    {reserved : List Text} (hkeys : (slots.map Prod.fst).Perm reserved) (hnd : reserved.Nodup)
    (hfields : (fields.map Prod.fst).Nodup) (key : Text) :
    (∃ slot ∈ slots, slot.1 = key ∧
      Fields.get? key (sheet slots ++ extraOf reserved fields) = slot.2) ∨
    key ∉ reserved ∧
      Fields.get? key (sheet slots ++ extraOf reserved fields) = Fields.get? key fields := by
  by_cases hkey : key ∈ reserved
  · obtain ⟨slot, hslot, rfl⟩ := List.mem_map.mp (hkeys.mem_iff.mpr hkey)
    refine .inl ⟨slot, hslot, rfl, ?_⟩
    exact sheet.get?_of_mem (hkeys.nodup_iff.mpr hnd) (not_mem_keys_extraOf _ hkey) hslot
  · refine .inr ⟨hkey, ?_⟩
    rw [sheet.get?_of_not_mem fun hmem => hkey (hkeys.mem_iff.mp hmem), get?_extraOf _ hfields,
      if_neg hkey]

theorem lossless_object {fields : Fields} (hd : DistinctKeys (.object fields))
    (hinner : ∀ f ∈ fields, Lossless f.2) : Lossless (.object fields) := by
  intro f h
  rw [fieldOf] at h
  cases ho : overrideOf fields with
  | error fault => simp [ho, Except.map] at h
  | ok o =>
    simp only [ho, Except.map, Except.ok.injEq] at h
    subst h
    obtain ⟨hdecoded, hextra⟩ := overrideOf_eq_ok_iff.mp ho
    have hfits := hdecoded.fits hd hinner
    have hnd : overrideKeys.Nodup := by decide
    have hkeys := List.Perm.of_eq (Settings.keys_slots o.settings o.example_ o.examples)
    have hrecord := o.record_eq
    rw [hextra] at hrecord
    simp only [ExampleField.value?, Example.record, normExample?, Option.mem_some_iff, forall_eq']
    rw [hrecord]
    refine ⟨.some (.object fun key => ?_), ?_⟩
    · cases hd with
      | object hfields _ =>
        rw [get?_normFields hfields]
        rcases get?_sheet_extraOf hkeys hnd hfields key with ⟨slot, hslot, rfl, hget⟩ | ⟨hkey, hget⟩
        · rw [hget]
          exact (hfits slot hslot).same
        · rw [hget]
          simp only [normValue?_extra hkey, Option.bind_fun_some]
          exact Same.option_refl _
    · exact distinctKeys_sheet hkeys hnd hd fun slot hslot => (hfits slot hslot).distinct

theorem lossless_items {items : List Value} {es : List Example} (hinner : ∀ v ∈ items, Lossless v)
    (h : examplesOf items = .ok es) : List.Forall₂ Same (Example.records es) (normItems items) ∧
      ∀ v ∈ Example.records es, DistinctKeys v := by
  induction items generalizing es with
  | nil =>
    rw [examplesOf] at h
    cases h
    exact ⟨.nil, by simp [Example.records]⟩
  | cons v rest ih =>
    have hrest : ∀ v ∈ rest, Lossless v := fun v hv => hinner v (List.mem_cons_of_mem _ hv)
    rcases examplesOf_cons_eq_ok_iff.mp h with ⟨rfl, hr⟩ | ⟨e, es', rfl, hv, hr⟩
    · exact ih hrest hr
    · obtain ⟨hsame, hdistinct⟩ := hinner v List.mem_cons_self _ hv
      obtain ⟨hsames, hdistincts⟩ := ih hrest hr
      rw [normItems, Example.records]
      generalize normExample? v = w at hsame
      cases hsame with
      | some hsame =>
        exact ⟨.cons hsame hsames, List.forall_mem_cons.mpr ⟨hdistinct _ rfl, hdistincts⟩⟩

theorem lossless_of_eq {v : Value} {f : ExampleField} (h : fieldOf v = .ok f)
    (hsame : f.value? = normExample? v) (hdistinct : ∀ w ∈ f.value?, DistinctKeys w) : Lossless v := by
  intro f' hf
  rw [h] at hf
  cases hf
  exact ⟨hsame ▸ Same.option_refl _, hdistinct⟩

theorem lossless_of_distinctKeys {v : Value} (h : DistinctKeys v) : Lossless v := by
  -- the evidence that keys are distinct has a case for each form of value and reaches every field
  induction h with
  | null => exact lossless_of_eq (by rw [fieldOf]) rfl fun _ hw => by cases hw
  | bool b => exact lossless_of_eq (by rw [fieldOf]) rfl fun _ hw => by cases hw; exact .bool b
  | number n => exact lossless_of_eq (by rw [fieldOf]) rfl fun _ hw => by cases hw; exact .string _
  | string s => exact lossless_of_eq (by rw [fieldOf]) rfl fun _ hw => by cases hw; exact .string s
  | @array items _ ih =>
    intro f hf
    rw [fieldOf] at hf
    cases hi : examplesOf items with
    | error fault => simp [hi, Except.map] at hf
    | ok es =>
      simp only [hi, Except.map, Except.ok.injEq] at hf
      subst hf
      obtain ⟨hsame, hdistinct⟩ := lossless_items ih hi
      exact ⟨.some (.array hsame), fun w hw => by cases hw; exact .array hdistinct⟩
  | object keys h ih => exact lossless_object (.object keys h) ih

theorem Decoded.fits_of_distinctKeys {fields : Fields} {s : Settings} {e es : ExampleField}
    (h : Decoded fields s e es) (hd : DistinctKeys (.object fields)) :
    ∀ slot ∈ s.slots e es, Fits fields slot := by
  refine h.fits hd ?_
  cases hd with
  | object _ hvalues => exact fun f hf => lossless_of_distinctKeys (hvalues f hf)

/-! ### Blocks -/

theorem keys_normFields_nodup {fields : Fields} (h : (fields.map Prod.fst).Nodup) :
    ((normFields fields).map Prod.fst).Nodup := by
  rw [normFields_eq_sheet]
  refine List.Nodup.sublist (sheet.keys_sublist _) ?_
  rwa [List.map_map]

theorem keys_normBlock_nodup {fields : Fields} (h : (fields.map Prod.fst).Nodup) :
    ((normBlock fields).map Prod.fst).Nodup :=
  keys_normFields_nodup (h.sublist (List.filter_sublist.map _))

theorem get?_normBlock {fields : Fields} (h : (fields.map Prod.fst).Nodup) (key : Text) :
    Fields.get? key (normBlock fields) =
      ((Fields.get? key fields).filter fun v => !(key = "capture".toList && isNull v)).bind
        fun v => normValue? key v (normExample? v) := by
  rw [normBlock, get?_normFields (h.sublist (List.filter_sublist.map _)), Fields.get?_filter h]

theorem get?_normBlock_of_ne {fields : Fields} (h : (fields.map Prod.fst).Nodup) {key : Text}
    (hkey : key ≠ "capture".toList) : Fields.get? key (normBlock fields) =
      (Fields.get? key fields).bind fun v => normValue? key v (normExample? v) := by
  rw [get?_normBlock h]
  cases Fields.get? key fields with
  | none => rfl
  | some v => rw [Option.filter, decide_eq_false hkey, Bool.false_and, Bool.not_false, if_pos rfl]

theorem get?_normBlock_capture {fields : Fields} (h : (fields.map Prod.fst).Nodup) :
    Fields.get? "capture".toList (normBlock fields) = capture? fields := by
  have hreserved : "capture".toList ∉ overrideKeys := by decide
  rw [get?_normBlock h, capture?]
  simp only [normValue?_extra hreserved, Option.bind_fun_some]
  cases Fields.get? "capture".toList fields with
  | none => rfl
  | some v => cases v <;> rfl

theorem capture?_distinct {fields : Fields} (hd : DistinctKeys (.object fields)) :
    ∀ v ∈ capture? fields, DistinctKeys v := by
  intro v hv
  unfold capture? at hv
  split at hv
  · cases hv
  · cases hv
  · next hget =>
    cases hv
    cases hd with
    | object _ hvalues => exact hvalues _ (Fields.mem_of_get? hget)

theorem parameterSlots_distinct (m : Metadata) :
    ∀ slot ∈ m.parameterSlots, ∀ v ∈ slot.2, DistinctKeys v := by
  have hlist : ∀ ps : Option (List Parameter),
      ∀ v ∈ ps.map (fun ps => Value.array (ps.map Parameter.record)), DistinctKeys v := by
    intro ps v hv
    obtain ⟨ps, -, rfl⟩ := Option.map_eq_some_iff.mp hv
    refine .array fun w hw => ?_
    obtain ⟨p, -, rfl⟩ := List.mem_map.mp hw
    exact p.distinctKeys_record
  simp only [parameterSlots, List.forall_mem_cons]
  exact ⟨hlist _, hlist _, by simp⟩

theorem slots_distinct {fields : Fields} {m : Metadata} (hd : DistinctKeys (.object fields))
    (hdecoded : Decoded fields m.settings m.example_ m.examples)
    (hcapture : m.capture = capture? fields) :
    ∀ slot ∈ m.slots, ∀ v ∈ slot.2, DistinctKeys v := by
  intro slot hslot
  rcases mem_slots.mp hslot with hslot | hslot | rfl
  · exact (hdecoded.fits_of_distinctKeys hd slot hslot).distinct
  · exact parameterSlots_distinct m slot hslot
  · rw [hcapture]
    exact capture?_distinct hd

theorem same_normBlock {fields : Fields} {m : Metadata} (hd : DistinctKeys (.object fields))
    (hdecoded : Decoded fields m.settings m.example_ m.examples)
    (hcapture : m.capture = capture? fields) {key : Text} (hparameter : key ∉ parameterKeys) :
    Option.Rel Same (Fields.get? key (sheet m.slots ++ extraOf blockKeys fields))
      (Fields.get? key (normBlock fields)) := by
  have hfits := hdecoded.fits_of_distinctKeys hd
  cases hd with
  | object hfields _ =>
    rcases get?_sheet_extraOf m.keys_slots (by decide) hfields key with
      ⟨slot, hslot, rfl, hget⟩ | ⟨hkey, hget⟩
    · rw [hget]
      rcases mem_slots.mp hslot with hslot | hslot | rfl
      · have hshared : ∀ key ∈ overrideKeys, key ≠ "capture".toList := by decide
        have hne : slot.1 ≠ "capture".toList := hshared _ (List.mem_map_of_mem hslot)
        rw [get?_normBlock_of_ne hfields hne]
        exact (hfits slot hslot).same
      · exact absurd (List.mem_map_of_mem hslot) hparameter
      · rw [get?_normBlock_capture hfields, hcapture]
        exact Same.option_refl _
    · have hreserved : key ∉ overrideKeys := fun hmem => hkey (List.mem_append_left _ hmem)
      have hne : key ≠ "capture".toList := by
        rintro rfl
        exact hkey (by decide)
      rw [hget, get?_normBlock_of_ne hfields hne]
      simp only [normValue?_extra hreserved, Option.bind_fun_some]
      exact Same.option_refl _

theorem ofFields_lossless {fields : Fields} {m : Metadata} (hd : DistinctKeys (.object fields))
    (h : ofFields fields = .ok m) : DistinctKeys m.record ∧
      Same (withoutParameters m.record) (withoutParameters (.object (normBlock fields))) := by
  obtain ⟨-, -, -, -, hdecoded, hextra, hcapture, -⟩ := ofFields_eq_ok_iff.mp h
  have hrecord := m.record_eq
  rw [hextra] at hrecord
  have hdistinct := distinctKeys_sheet m.keys_slots (by decide) hd
    (slots_distinct hd hdecoded hcapture)
  rw [hrecord]
  refine ⟨hdistinct, .object fun key => ?_⟩
  have hsame := @same_normBlock _ _ hd hdecoded hcapture key
  cases hd with
  | object hfields _ =>
    cases hdistinct with
    | object hwritten _ =>
      rw [get?_extraOf _ hwritten, get?_extraOf _ (keys_normBlock_nodup hfields)]
      split_ifs with hparameter
      · exact .none
      · exact hsame hparameter

/-- Decoded metadata is written as the normal form of the mapping it came from, parameters apart, and
no key is written twice. Decoding fails exactly on values that are no mapping, on parameters that are
no list, and on reserved keys with a value of the wrong shape, here or in an override object. -/
theorem ofValue_lossless :
    (∀ fields m, DistinctKeys (.object fields) → ofValue (.object fields) = .ok m →
      DistinctKeys m.record ∧
        Same (withoutParameters m.record) (withoutParameters (.object (normBlock fields)))) ∧
    ∀ v, (∃ fault, ofValue v = .error fault) ↔ isMapping v = false ∨
      ∃ fields, v = .object fields ∧ (Refused fields ∨
        ∃ key ∈ parameterKeys, ∃ w, Fields.get? key fields = some w ∧ isList w = false) := by
  refine ⟨fun fields m hd h => ofFields_lossless hd h, fun v => ?_⟩
  cases v with
  | null => simp [ofValue, isMapping]
  | bool b => simp [ofValue, isMapping]
  | number n => simp [ofValue, isMapping]
  | string s => simp [ofValue, isMapping]
  | array items => simp [ofValue, isMapping]
  | object fields =>
    have hfails : (∃ fault, ofFields fields = .error fault) ↔ ¬ ∃ m, ofFields fields = .ok m := by
      cases ofFields fields <;> simp
    rw [ofValue, hfails, exists_ofFields_iff]
    simp only [isMapping, Bool.true_eq_false, false_or, Value.object.injEq, exists_eq_left']
    rw [Classical.not_and_iff_not_or_not, not_not]
    simp

/-- Nulls, numbers and booleans at two depths, with keys that are reserved for the block alone. -/
def layeredFields : Fields :=
  [("arguments".toList, .array [.string "size: how large".toList]),
    ("capture".toList, .null),
    ("description".toList, .null),
    ("examples".toList, .array [.null, .number (.int 3), .object
      [("capture".toList, .null), ("example".toList, .object [("afterEach".toList, .number (.int 1))]),
        ("locals".toList, .null), ("name".toList, .bool true)]]),
    ("name".toList, .number (.int 7)),
    ("status".toList, .null)]

theorem ofValue_lossless_layeredFields :
    DistinctKeys (.object layeredFields) ∧
    normBlock layeredFields =
      [("arguments".toList, .array [.string "size: how large".toList]),
        ("examples".toList, .array [.string "3".toList, .object
          [("capture".toList, .null),
            ("example".toList, .object [("afterEach".toList, .string "1".toList)]),
            ("name".toList, .string "true".toList)]]),
        ("name".toList, .string "7".toList),
        ("status".toList, .null)] ∧
    (∃ m, ofValue (.object layeredFields) = .ok m ∧ DistinctKeys m.record ∧
      Same (withoutParameters m.record) (withoutParameters (.object (normBlock layeredFields)))) ∧
    ∃ fault, ofValue (.object [("examples".toList,
      .array [.object layeredFields, .object [("locals".toList, .bool true)]])]) = .error fault := by
  have hd : DistinctKeys (.object layeredFields) := by
    have hinner : DistinctKeys (.object [("afterEach".toList, .number (.int 1))]) :=
      .object (by decide) (by simp [DistinctKeys.number])
    have hitem : DistinctKeys (.object
        [("capture".toList, .null), ("example".toList, .object [("afterEach".toList, .number (.int 1))]),
          ("locals".toList, .null), ("name".toList, .bool true)]) :=
      .object (by decide) (by simpa [DistinctKeys.null, DistinctKeys.bool] using hinner)
    have hexamples := DistinctKeys.array (List.forall_mem_cons.mpr ⟨.null,
      List.forall_mem_cons.mpr ⟨.number (.int 3), List.forall_mem_singleton.mpr hitem⟩⟩)
    have harguments := DistinctKeys.array (List.forall_mem_singleton.mpr
      (DistinctKeys.string "size: how large".toList))
    refine .object (by decide) ?_
    simp only [layeredFields, List.forall_mem_cons]
    exact ⟨harguments, .null, .null, hexamples, .number _, .null, by simp⟩
  have hok : (ofValue (.object layeredFields)).isOk = true := by decide +kernel
  refine ⟨hd, rfl, ?_, ?_⟩
  · cases h : ofValue (.object layeredFields) with
    | error fault => rw [h] at hok; cases hok
    | ok m => exact ⟨m, rfl, ofValue_lossless.1 layeredFields m hd h⟩
  · have hinner : Refused [("locals".toList, .bool true)] :=
      @Refused.here _ "locals".toList (.bool true) rfl (by decide)
    have hget : Fields.get? "examples".toList [("examples".toList,
        .array [.object layeredFields, .object [("locals".toList, .bool true)]])] =
      some (.array [.object layeredFields, .object [("locals".toList, .bool true)]]) := rfl
    refine (ofValue_lossless.2 _).mpr (.inr ⟨_, rfl, .inl ?_⟩)
    exact .within (by decide) hget (List.mem_cons_of_mem _ List.mem_cons_self) hinner

end Metadata

end TemplateDocs
