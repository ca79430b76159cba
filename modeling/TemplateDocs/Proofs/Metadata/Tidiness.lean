import Mathlib
import TemplateDocs.Proofs.Metadata.Lossless
import TemplateDocs.Proofs.Outline.Values
import TemplateDocs.Variant

/-!
# What metadata is made of

The metadata of a block is written without repeated keys, and the numbers in it are numbers of the
annotation. The locals of a block and the override objects of its examples are parts of what is
written.
-/
namespace TemplateDocs

open Json (Value Fields Number DistinctKeys Inside Tidy sheet)

namespace Metadata

/-! ### Numbers -/

/-- Every number in `w` is a number in `v`. -/
def NumbersOf (v w : Value) : Prop :=
  ∀ n, Inside (.number n) w → Inside (.number n) v

theorem numbersOf_string (v : Value) (s : Text) : NumbersOf v (.string s) := fun _ h => nomatch h

theorem numbersOf_bool (v : Value) (b : Bool) : NumbersOf v (.bool b) := fun _ h => nomatch h

theorem numbersOf_null (v : Value) : NumbersOf v .null := fun _ h => nomatch h

theorem NumbersOf.array {v : Value} {items : List Value} (h : ∀ w ∈ items, NumbersOf v w) :
    NumbersOf v (.array items) := by
  intro n hn
  cases hn with
  | item hw hn => exact h _ hw n hn

theorem NumbersOf.object {v : Value} {fields : Fields} (h : ∀ f ∈ fields, NumbersOf v f.2) :
    NumbersOf v (.object fields) := by
  intro n hn
  cases hn with
  | field hf hn => exact h _ hf n hn

theorem NumbersOf.of_inside {v w : Value} (h : Inside w v) : NumbersOf v w := fun _ hn => hn.trans h

theorem inside_of_get? {key : Text} {fields : Fields} {v : Value}
    (h : Fields.get? key fields = some v) : Inside v (.object fields) :=
  .field (Fields.mem_of_get? h) .whole

theorem numbersOf_text {v : Value} {t : Option Text} : ∀ w ∈ t.map Value.string, NumbersOf v w := by
  intro w hw
  obtain ⟨s, -, rfl⟩ := Option.map_eq_some_iff.mp hw
  exact numbersOf_string v s

theorem inside_locals {fields : Fields} {locals : Option Locals} (h : locals? fields = .ok locals) :
    ∀ w ∈ locals.map Value.object, Inside w (.object fields) := by
  unfold locals? at h
  -- nothing below depends on how the key is spelled
  generalize "locals".toList = key at h
  intro w hw
  cases hget : Fields.get? key fields with
  | none =>
    simp only [hget, Except.ok.injEq] at h
    subst h
    cases hw
  | some v =>
    cases v <;> simp only [hget, Except.ok.injEq, reduceCtorEq] at h <;> subst h
    · cases hw
    · cases hw
      exact inside_of_get? hget

/-- Decoded as an example and written again, the value has no new numbers. -/
def KeepsNumbers (v : Value) : Prop :=
  ∀ f, fieldOf v = .ok f → ∀ w ∈ f.value?, NumbersOf v w

theorem numbersOf_entry {key : String} {fields : Fields} {f : ExampleField}
    (hinner : ∀ f ∈ fields, KeepsNumbers f.2) (h : entryOf key fields = .ok f) :
    ∀ w ∈ f.value?, NumbersOf (.object fields) w := by
  intro w hw
  cases hget : Fields.get? key.toList fields with
  | none =>
    rw [entryOf_absent hget] at h
    cases h
    cases hw
  | some v =>
    rw [entryOf_of_get? hget] at h
    have hkeeps := hinner _ (Fields.mem_of_get? hget) f h w hw
    exact fun n hn => (hkeeps n hn).trans (inside_of_get? hget)

theorem Decoded.numbersOf {fields : Fields} {s : Settings} {e es : ExampleField}
    (h : Decoded fields s e es) (hinner : ∀ f ∈ fields, KeepsNumbers f.2) :
    ∀ slot ∈ s.slots e es, ∀ w ∈ slot.2, NumbersOf (.object fields) w := by
  simp only [Settings.slots, List.forall_mem_cons]
  exact ⟨numbersOf_text, numbersOf_text, numbersOf_entry hinner h.example_,
    numbersOf_entry hinner h.examples, numbersOf_text, numbersOf_text,
    fun w hw => .of_inside (inside_locals h.locals w hw), by simp⟩

theorem numbersOf_sheet {fields : Fields} {slots : List (Text × Option Value)} {reserved : List Text}
    (h : ∀ slot ∈ slots, ∀ w ∈ slot.2, NumbersOf (.object fields) w) :
    NumbersOf (.object fields) (.object (sheet slots ++ extraOf reserved fields)) := by
  apply NumbersOf.object
  intro f hf
  rcases List.mem_append.mp hf with hf | hf
  · exact h _ (sheet.mem_iff.mp hf) _ rfl
  · exact .of_inside (.field ((mem_extraOf _).mp hf).1 .whole)

theorem keepsNumbers_object {fields : Fields} (hinner : ∀ f ∈ fields, KeepsNumbers f.2) :
    KeepsNumbers (.object fields) := by
  intro f h
  rw [fieldOf] at h
  cases ho : overrideOf fields with
  | error fault => simp [ho, Except.map] at h
  | ok o =>
    simp only [ho, Except.map, Except.ok.injEq] at h
    subst h
    obtain ⟨hdecoded, hextra⟩ := overrideOf_eq_ok_iff.mp ho
    have hrecord := o.record_eq
    rw [hextra] at hrecord
    intro w hw
    cases hw
    rw [Example.record, hrecord]
    exact numbersOf_sheet (hdecoded.numbersOf hinner)

theorem keepsNumbers_items {items : List Value} {es : List Example}
    (hinner : ∀ v ∈ items, KeepsNumbers v) (h : examplesOf items = .ok es) :
    ∀ w ∈ Example.records es, ∃ v ∈ items, NumbersOf v w := by
  induction items generalizing es with
  | nil =>
    rw [examplesOf] at h
    cases h
    simp [Example.records]
  | cons v rest ih =>
    have hrest : ∀ w ∈ rest, KeepsNumbers w := fun w hw => hinner w (List.mem_cons_of_mem _ hw)
    rcases examplesOf_cons_eq_ok_iff.mp h with ⟨rfl, hr⟩ | ⟨e, es', rfl, hv, hr⟩
    · intro w hw
      obtain ⟨v, hv, hnumbers⟩ := ih hrest hr w hw
      exact ⟨v, List.mem_cons_of_mem _ hv, hnumbers⟩
    · intro w hw
      rw [Example.records] at hw
      rcases List.mem_cons.mp hw with rfl | hw
      · exact ⟨v, List.mem_cons_self, hinner v List.mem_cons_self _ hv _ rfl⟩
      · obtain ⟨v, hv, hnumbers⟩ := ih hrest hr w hw
        exact ⟨v, List.mem_cons_of_mem _ hv, hnumbers⟩

theorem keepsNumbers_of_eq {v : Value} {f : ExampleField} (h : fieldOf v = .ok f)
    (hnumbers : ∀ w ∈ f.value?, NumbersOf v w) : KeepsNumbers v := by
  intro f' hf
  rw [h] at hf
  cases hf
  exact hnumbers

theorem keepsNumbers {v : Value} (h : Tidy v) : KeepsNumbers v := by
  -- as for the keys, the evidence has a case for each form of value and reaches every field
  induction h with
  | null =>
    refine keepsNumbers_of_eq (by rw [fieldOf]) fun w hw => ?_
    cases hw
  | bool b =>
    refine keepsNumbers_of_eq (by rw [fieldOf]) fun w hw => ?_
    cases hw
    exact numbersOf_bool _ b
  | int h =>
    refine keepsNumbers_of_eq (by rw [fieldOf]) fun w hw => ?_
    cases hw
    exact numbersOf_string _ _
  | float x =>
    refine keepsNumbers_of_eq (by rw [fieldOf]) fun w hw => ?_
    cases hw
    exact numbersOf_string _ _
  | string s =>
    refine keepsNumbers_of_eq (by rw [fieldOf]) fun w hw => ?_
    cases hw
    exact numbersOf_string _ s
  | @array items _ ih =>
    intro f hf
    rw [fieldOf] at hf
    cases hi : examplesOf items with
    | error fault => simp [hi, Except.map] at hf
    | ok es =>
      simp only [hi, Except.map, Except.ok.injEq] at hf
      subst hf
      intro w hw
      cases hw
      apply NumbersOf.array
      intro w hw
      obtain ⟨v, hv, hnumbers⟩ := keepsNumbers_items ih hi w hw
      exact fun n hn => .item hv (hnumbers n hn)
  | object _ _ ih => exact keepsNumbers_object ih

theorem numbersOf_parameter (v : Value) (p : Parameter) : NumbersOf v p.record := by
  apply NumbersOf.object
  have hnames : NumbersOf v p.names.record := by
    cases p.names with
    | single name => exact numbersOf_string v name
    | union names =>
      apply NumbersOf.array
      intro w hw
      obtain ⟨name, -, rfl⟩ := List.mem_map.mp hw
      exact numbersOf_string v name
  have hdefault : NumbersOf v ((p.default.map Value.string).getD .null) := by
    cases p.default with
    | none => exact numbersOf_null v
    | some t => exact numbersOf_string v t
  simp [entry, hnames, hdefault, numbersOf_string, numbersOf_bool]

theorem numbersOf_parameterSlots (v : Value) (m : Metadata) :
    ∀ slot ∈ m.parameterSlots, ∀ w ∈ slot.2, NumbersOf v w := by
  have hlist : ∀ ps : Option (List Parameter),
      ∀ w ∈ ps.map (fun ps => Value.array (ps.map Parameter.record)), NumbersOf v w := by
    intro ps w hw
    obtain ⟨ps, -, rfl⟩ := Option.map_eq_some_iff.mp hw
    apply NumbersOf.array
    intro w hw
    obtain ⟨p, -, rfl⟩ := List.mem_map.mp hw
    exact numbersOf_parameter v p
  simp only [parameterSlots, List.forall_mem_cons]
  exact ⟨hlist _, hlist _, by simp⟩

theorem inside_capture {fields : Fields} : ∀ w ∈ capture? fields, Inside w (.object fields) := by
  intro w hw
  unfold capture? at hw
  split at hw
  · cases hw
  · cases hw
  · next hget =>
    cases hw
    exact inside_of_get? hget

theorem ofFields_numbersOf {fields : Fields} {m : Metadata} (ht : Tidy (.object fields))
    (h : ofFields fields = .ok m) : NumbersOf (.object fields) m.record := by
  obtain ⟨-, -, -, -, hdecoded, hextra, hcapture, -⟩ := ofFields_eq_ok_iff.mp h
  have hinner : ∀ f ∈ fields, KeepsNumbers f.2 :=
    fun f hf => keepsNumbers (ht.inside (.field hf .whole))
  rw [m.record_eq, hextra]
  apply numbersOf_sheet
  intro slot hslot
  rcases mem_slots.mp hslot with hslot | hslot | rfl
  · exact hdecoded.numbersOf hinner slot hslot
  · exact numbersOf_parameterSlots _ m slot hslot
  · rw [hcapture]
    exact fun w hw => .of_inside (inside_capture w hw)

/-! ### The metadata of a block -/

theorem ofBlock_cases {b : Block} {m : Metadata} (h : ofBlock b = .ok m) :
    m = {} ∨ ∃ fields, Tidy (.object fields) ∧ ofFields fields = .ok m := by
  obtain ⟨v, hread, hvalue⟩ := ofBlock_eq_ok h
  have ht := Outline.read_tidy hread
  cases v with
  | object fields => exact .inr ⟨fields, ht, hvalue⟩
  | null => cases hvalue; exact .inl rfl
  | _ => cases hvalue

theorem distinctKeys_record {b : Block} {m : Metadata} (h : ofBlock b = .ok m) :
    DistinctKeys m.record := by
  rcases ofBlock_cases h with rfl | ⟨fields, ht, hm⟩
  · exact .object .nil nofun
  · exact (ofFields_lossless ht.distinctKeys hm).1

theorem sorted_locals {b : Block} {m : Metadata} (h : ofBlock b = .ok m) :
    Fields.Sorted (m.settings.locals.getD []) := by
  rcases ofBlock_cases h with rfl | ⟨fields, ht, hm⟩
  · exact .nil
  · obtain ⟨-, -, -, -, hdecoded, -⟩ := ofFields_eq_ok_iff.mp hm
    cases hlocals : m.settings.locals with
    | none => exact .nil
    | some locals =>
      have hinside := inside_locals hdecoded.locals (.object locals) (by simp [hlocals])
      cases ht.inside hinside with
      | object sorted _ => exact sorted

/-- The whole numbers of the metadata fit into 64 bits with a sign. -/
theorem int_bounds {b : Block} {m : Metadata} (h : ofBlock b = .ok m) {i : Int}
    (hi : Inside (.number (.int i)) m.record) : -(twoTo 63 : Int) ≤ i ∧ i < twoTo 63 := by
  rcases ofBlock_cases h with rfl | ⟨fields, ht, hm⟩
  · cases hi with
    | field hf _ => cases hf
  · cases ht.inside (ofFields_numbersOf ht hm _ hi) with
    | int h => exact h

end Metadata

/-! ### Override objects -/

def Example.override? : Example → Option Override
  | .source _ => none
  | .object o => some o

/-- The examples of an override object: those of `example`, then those of `examples`. -/
def Override.entries (o : Override) : List Example := o.example_.toList ++ o.examples.toList

namespace Metadata

/-- The examples of a block: those of `example`, then those of `examples`. -/
def entries (m : Metadata) : List Example := m.example_.toList ++ m.examples.toList

/-- The override objects among the examples of a block. -/
def overrides (m : Metadata) : List Override := m.entries.filterMap Example.override?

theorem record_mem_records {e : Example} {es : List Example} (h : e ∈ es) :
    e.record ∈ Example.records es := by
  induction es with
  | nil => cases h
  | cons first es ih =>
    rw [Example.records]
    rcases List.mem_cons.mp h with rfl | h
    · exact List.mem_cons_self
    · exact List.mem_cons_of_mem _ (ih h)

theorem inside_exampleField {f : ExampleField} {e : Example} (h : e ∈ f.toList) :
    ∃ w, f.value? = some w ∧ Inside e.record w := by
  cases f with
  | absent => cases h
  | flag b => cases h
  | one e' =>
    rw [List.mem_singleton.mp h]
    exact ⟨_, rfl, .whole⟩
  | many es => exact ⟨_, rfl, .item (record_mem_records h) .whole⟩

theorem inside_sheet {slots : List (Text × Option Value)} {extra : Fields} {key : Text} {w : Value}
    (h : (key, some w) ∈ slots) : Inside w (.object (sheet slots ++ extra)) := by
  have hmem : (key, w) ∈ sheet slots := sheet.mem_iff.mpr h
  exact .field (List.mem_append_left _ hmem) .whole

theorem override_inside {m : Metadata} {o : Override} (h : o ∈ m.overrides) :
    Inside o.record m.record := by
  obtain ⟨e, he, ho⟩ := List.mem_filterMap.mp h
  have hrecord : o.record = e.record := by
    cases e with
    | source s => cases ho
    | object o' =>
      cases ho
      rfl
  rw [hrecord, m.record_eq]
  rcases List.mem_append.mp he with he | he
  · obtain ⟨w, hw, hinside⟩ := inside_exampleField he
    have hslot : ("example".toList, some w) ∈ m.slots :=
      mem_slots.mpr (.inl (by simp [Settings.slots, hw]))
    exact hinside.trans (inside_sheet hslot)
  · obtain ⟨w, hw, hinside⟩ := inside_exampleField he
    have hslot : ("examples".toList, some w) ∈ m.slots :=
      mem_slots.mpr (.inl (by simp [Settings.slots, hw]))
    exact hinside.trans (inside_sheet hslot)

end Metadata

namespace Override

def locals (o : Override) : Locals := o.settings.locals.getD []

theorem locals_nodup {o : Override} (h : DistinctKeys o.record) :
    (o.locals.map Prod.fst).Nodup := by
  unfold locals
  cases hlocals : o.settings.locals with
  | none => exact .nil
  | some locals =>
    rw [o.record_eq] at h
    have hslot : ("locals".toList, some (Value.object locals)) ∈
        o.settings.slots o.example_ o.examples := by
      simp [Settings.slots, hlocals]
    cases h.inside (Metadata.inside_sheet hslot) with
    | object keys _ => exact keys

end Override

end TemplateDocs
