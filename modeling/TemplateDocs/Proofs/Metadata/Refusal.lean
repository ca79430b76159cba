import Mathlib
import TemplateDocs.Proofs.Metadata.Decoding

/-!
# Which mappings are refused

A mapping cannot be decoded exactly where a reserved key has a value of a shape that its field does
not take. Override objects under `example` and `examples` are mappings of their own.
-/
namespace TemplateDocs.Metadata

open Json (Value Fields)

/-! ### Shapes -/

def isText : Value → Bool
  | .array _ | .object _ => false
  | _ => true

def isMapping : Value → Bool
  | .null | .object _ => true
  | _ => false

def isList : Value → Bool
  | .null | .string _ | .array _ => true
  | _ => false

def isExample : Value → Bool
  | .bool _ | .array _ => false
  | _ => true

def isExamples : Value → Bool
  | .array items => items.all isExample
  | _ => true

/-- Whether the field of a key takes a value of this shape. -/
def admits (key : Text) (v : Value) : Bool :=
  if textKeys.contains key then isText v
  else if exampleKeys.contains key then isExamples v
  else if key = "locals".toList then isMapping v
  else true

/-- The override objects of an example entry, alone or in a list. -/
def Holds : Value → Fields → Prop
  | .object fields, inner => fields = inner
  | .array items, inner => .object inner ∈ items
  | _, _ => False

/-- A reserved key has a value of the wrong shape, here or in an override object further in. -/
inductive Refused : Fields → Prop
  | here {fields : Fields} {key : Text} {v : Value} (hget : Fields.get? key fields = some v)
      (h : admits key v = false) : Refused fields
  | within {fields inner : Fields} {key : Text} {v : Value} (hkey : key ∈ exampleKeys)
      (hget : Fields.get? key fields = some v) (hholds : Holds v inner) (h : Refused inner) :
      Refused fields

/-! ### Single fields -/

theorem text?_ok_iff {key : String} {fields : Fields} : (∃ t, text? key fields = .ok t) ↔
    ∀ v, Fields.get? key.toList fields = some v → isText v = true := by
  unfold text?
  cases Fields.get? key.toList fields with
  | none => simp
  | some v => cases v <;> simp [isText]

theorem locals?_ok_iff {fields : Fields} : (∃ locals, locals? fields = .ok locals) ↔
    ∀ v, Fields.get? "locals".toList fields = some v → isMapping v = true := by
  unfold locals?
  cases Fields.get? "locals".toList fields with
  | none => simp
  | some v => cases v <;> simp [isMapping]

theorem parameters?_ok_iff {key : String} {fields : Fields} :
    (∃ r, parameters? key fields = .ok r) ↔
      ∀ v, Fields.get? key.toList fields = some v → isList v = true := by
  unfold parameters?
  cases Fields.get? key.toList fields with
  | none => simp
  | some v => cases v <;> simp [isList]

theorem entryOf_ok_iff {key : String} {fields : Fields} : (∃ f, entryOf key fields = .ok f) ↔
    ∀ v, Fields.get? key.toList fields = some v → ∃ f, fieldOf v = .ok f := by
  cases hget : Fields.get? key.toList fields with
  | none => simp [entryOf_absent hget]
  | some v => simp [entryOf_of_get? hget]

theorem fieldOf_one_iff {v : Value} : (v = .null ∨ ∃ e, fieldOf v = .ok (.one e)) ↔
    isExample v = true ∧ ∀ inner, v = .object inner → ∃ o, overrideOf inner = .ok o := by
  cases v with
  | null => simp [isExample]
  | bool b => simp [isExample, fieldOf]
  | number n => simp [isExample, fieldOf]
  | string s => simp [isExample, fieldOf]
  | array items => cases hi : examplesOf items <;> simp [isExample, fieldOf, hi, Except.map]
  | object fields => cases ho : overrideOf fields <;> simp [isExample, fieldOf, ho, Except.map]

theorem examplesOf_ok_iff {items : List Value} : (∃ es, examplesOf items = .ok es) ↔
    ∀ v ∈ items, isExample v = true ∧ ∀ inner, v = .object inner → ∃ o, overrideOf inner = .ok o := by
  simp only [← fieldOf_one_iff]
  induction items with
  | nil => simp [examplesOf]
  | cons v rest ih =>
    rw [List.forall_mem_cons, ← ih]
    simp only [examplesOf_cons_eq_ok_iff]
    constructor
    · rintro ⟨es, ⟨hv, hr⟩ | ⟨e, es', -, hv, hr⟩⟩
      · exact ⟨.inl hv, es, hr⟩
      · exact ⟨.inr ⟨e, hv⟩, es', hr⟩
    · rintro ⟨hv | ⟨e, hv⟩, es, hr⟩
      · exact ⟨es, .inl ⟨hv, hr⟩⟩
      · exact ⟨e :: es, .inr ⟨e, es, rfl, hv, hr⟩⟩

theorem fieldOf_ok_iff {v : Value} : (∃ f, fieldOf v = .ok f) ↔
    isExamples v = true ∧ ∀ inner, Holds v inner → ∃ o, overrideOf inner = .ok o := by
  cases v with
  | null => simp [fieldOf, isExamples, Holds]
  | bool b => simp [fieldOf, isExamples, Holds]
  | number n => simp [fieldOf, isExamples, Holds]
  | string s => simp [fieldOf, isExamples, Holds]
  | object fields =>
    cases ho : overrideOf fields <;> simp [fieldOf, isExamples, Holds, ho, Except.map]
  | array items =>
    have hitems : (∃ f, fieldOf (.array items) = .ok f) ↔ ∃ es, examplesOf items = .ok es := by
      rw [fieldOf]
      cases examplesOf items <;> simp [Except.map]
    rw [hitems, examplesOf_ok_iff, isExamples, List.all_eq_true]
    constructor
    · intro h
      exact ⟨fun v hv => (h v hv).1, fun inner hmem => (h _ hmem).2 inner rfl⟩
    · rintro ⟨hshape, hheld⟩ v hv
      refine ⟨hshape v hv, ?_⟩
      rintro inner rfl
      exact hheld inner hv

/-! ### The shared fields -/

theorem Decoded.fieldOf_ok {fields : Fields} {s : Settings} {e es : ExampleField}
    (h : Decoded fields s e es) {key : Text} (hkey : key ∈ exampleKeys) {v : Value}
    (hget : Fields.get? key fields = some v) : ∃ f, fieldOf v = .ok f := by
  rcases mem_exampleKeys.mp hkey with rfl | rfl
  · exact entryOf_ok_iff.mp ⟨_, h.example_⟩ v hget
  · exact entryOf_ok_iff.mp ⟨_, h.examples⟩ v hget

theorem Decoded.admits {fields : Fields} {s : Settings} {e es : ExampleField}
    (h : Decoded fields s e es) {key : Text} {v : Value} (hget : Fields.get? key fields = some v) :
    Metadata.admits key v = true := by
  unfold Metadata.admits
  split_ifs with htext hexample hlocals
  · rcases mem_textKeys.mp (List.contains_iff_mem.mp htext) with rfl | rfl | rfl | rfl
    · exact text?_ok_iff.mp ⟨_, h.name⟩ v hget
    · exact text?_ok_iff.mp ⟨_, h.description⟩ v hget
    · exact text?_ok_iff.mp ⟨_, h.before⟩ v hget
    · exact text?_ok_iff.mp ⟨_, h.after⟩ v hget
  · exact (fieldOf_ok_iff.mp (h.fieldOf_ok (List.contains_iff_mem.mp hexample) hget)).1
  · subst hlocals
    exact locals?_ok_iff.mp ⟨_, h.locals⟩ v hget
  · rfl

/-- The shared fields can be decoded if every value has the shape of its field and every override
object directly inside can be decoded. -/
theorem exists_decoded {fields : Fields}
    (hshape : ∀ key v, Fields.get? key fields = some v → admits key v = true)
    (hheld : ∀ key ∈ exampleKeys, ∀ v, Fields.get? key fields = some v →
      ∀ inner, Holds v inner → ∃ o, overrideOf inner = .ok o) : ∃ s e es, Decoded fields s e es := by
  have htext : ∀ key : String, key.toList ∈ textKeys → ∃ t, text? key fields = .ok t := by
    intro key hkey
    refine text?_ok_iff.mpr fun v hget => ?_
    have hadmits := hshape _ v hget
    rwa [admits, if_pos (List.contains_iff_mem.mpr hkey)] at hadmits
  have hentry : ∀ key : String, key.toList ∈ exampleKeys → ∃ f, entryOf key fields = .ok f := by
    intro key hkey
    have hother : ∀ key ∈ exampleKeys, ¬ textKeys.contains key = true := by decide
    refine entryOf_ok_iff.mpr fun v hget => fieldOf_ok_iff.mpr ⟨?_, hheld _ hkey v hget⟩
    have hadmits := hshape _ v hget
    rwa [admits, if_neg (hother _ hkey), if_pos (List.contains_iff_mem.mpr hkey)] at hadmits
  obtain ⟨name, hname⟩ := htext "name" (by decide)
  obtain ⟨description, hdescription⟩ := htext "description" (by decide)
  obtain ⟨before, hbefore⟩ := htext "beforeEach" (by decide)
  obtain ⟨after, hafter⟩ := htext "afterEach" (by decide)
  obtain ⟨e, he⟩ := hentry "example" (by decide)
  obtain ⟨es, hes⟩ := hentry "examples" (by decide)
  obtain ⟨locals, hlocals⟩ := locals?_ok_iff.mpr fun v hget => hshape "locals".toList v hget
  exact ⟨⟨name, description, before, after, locals, []⟩, e, es,
    ⟨hname, hdescription, he, hes, hbefore, hafter, hlocals⟩⟩

theorem exists_overrideOf_iff_decoded {fields : Fields} :
    (∃ o, overrideOf fields = .ok o) ↔ ∃ s e es, Decoded fields s e es := by
  constructor
  · rintro ⟨o, h⟩
    exact ⟨_, _, _, (overrideOf_eq_ok_iff.mp h).1⟩
  · rintro ⟨s, e, es, ⟨h1, h2, h3, h4, h5, h6, h7⟩⟩
    exact ⟨.mk { s with extra := extraOf overrideKeys fields } e es,
      overrideOf_eq_ok_iff.mpr ⟨⟨h1, h2, h3, h4, h5, h6, h7⟩, rfl⟩⟩

theorem Holds.sizeOf_lt {v : Value} {inner : Fields} (h : Holds v inner) :
    sizeOf inner < sizeOf v := by
  cases v with
  | object fields =>
    cases h
    simp
  | array items =>
    have hlt := List.sizeOf_lt_of_mem h
    simp at hlt ⊢
    omega
  | _ => cases h

/-! ### Refusal -/

theorem Refused.not_overrideOf {fields : Fields} (h : Refused fields) (o : Override) :
    overrideOf fields ≠ .ok o := by
  induction h generalizing o with
  | here hget h =>
    intro ho
    have hadmits := (overrideOf_eq_ok_iff.mp ho).1.admits hget
    rw [h] at hadmits
    cases hadmits
  | within hkey hget hholds _ ih =>
    intro ho
    have hfield := (overrideOf_eq_ok_iff.mp ho).1.fieldOf_ok hkey hget
    obtain ⟨o', ho'⟩ := (fieldOf_ok_iff.mp hfield).2 _ hholds
    exact ih o' ho'

theorem exists_overrideOf {fields : Fields} (h : ¬ Refused fields) :
    ∃ o, overrideOf fields = .ok o := by
  refine exists_overrideOf_iff_decoded.mpr (exists_decoded (fun key v hget => ?_) ?_)
  · by_contra hshape
    exact h (.here hget (by simpa using hshape))
  · intro key hkey v hget inner hholds
    -- an override object is smaller than the mapping that holds it
    have hsize := sizeOf_get? hget
    have hinner := hholds.sizeOf_lt
    exact exists_overrideOf fun hr => h (.within hkey hget hholds hr)
termination_by sizeOf fields

theorem exists_ofFields_iff {fields : Fields} : (∃ m, ofFields fields = .ok m) ↔ ¬ Refused fields ∧
    ∀ key ∈ parameterKeys, ∀ v, Fields.get? key fields = some v → isList v = true := by
  constructor
  · rintro ⟨m, h⟩
    obtain ⟨r, r', ha, hb, hdecoded, -⟩ := ofFields_eq_ok_iff.mp h
    obtain ⟨o, ho⟩ := exists_overrideOf_iff_decoded.mpr ⟨_, _, _, hdecoded⟩
    refine ⟨fun hr => hr.not_overrideOf o ho, ?_⟩
    simp only [parameterKeys, List.forall_mem_cons]
    exact ⟨parameters?_ok_iff.mp ⟨_, ha⟩, parameters?_ok_iff.mp ⟨_, hb⟩, by simp⟩
  · rintro ⟨hrefused, hlists⟩
    obtain ⟨⟨arguments, r⟩, ha⟩ := parameters?_ok_iff.mpr (hlists "arguments".toList (by decide))
    obtain ⟨⟨attributes, r'⟩, hb⟩ := parameters?_ok_iff.mpr (hlists "attributes".toList (by decide))
    obtain ⟨s, e, es, ⟨h1, h2, h3, h4, h5, h6, h7⟩⟩ :=
      exists_overrideOf_iff_decoded.mp (exists_overrideOf hrefused)
    exact ⟨⟨{ s with extra := extraOf blockKeys fields }, arguments, attributes, e, es,
      capture? fields, r ++ r'⟩, ofFields_eq_ok_iff.mpr
        ⟨r, r', ha, hb, ⟨h1, h2, h3, h4, h5, h6, h7⟩, rfl, rfl, rfl⟩⟩

end TemplateDocs.Metadata
