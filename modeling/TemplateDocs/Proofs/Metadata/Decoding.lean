import Mathlib
import TemplateDocs.Metadata.Decode
import TemplateDocs.Proofs.Basic
import TemplateDocs.Proofs.Outline.Entries
import TemplateDocs.Proofs.Text

/-!
# What decoding makes of an annotation

Metadata is decoded field by field from the value that the annotation's lines are read as.
-/
namespace TemplateDocs

/-- The lines of the annotation as they are read. -/
def Block.noteLines (b : Block) : List Outline.Line :=
  Outline.document (b.line + 1) (Metadata.escapeParameterLists (Lines.toText b.notes))

namespace Metadata

open Json (Value Fields)
open Text (trim)

/-! ### Fields -/

def textKeys : List Text := ["name", "description", "beforeEach", "afterEach"].map String.toList

def exampleKeys : List Text := ["example", "examples"].map String.toList

theorem mem_textKeys {key : Text} : key ∈ textKeys ↔ key = "name".toList ∨
    key = "description".toList ∨ key = "beforeEach".toList ∨ key = "afterEach".toList := by
  simp only [textKeys, List.map_cons, List.map_nil, List.mem_cons, List.not_mem_nil, or_false]

theorem mem_exampleKeys {key : Text} :
    key ∈ exampleKeys ↔ key = "example".toList ∨ key = "examples".toList := by
  simp only [exampleKeys, List.map_cons, List.map_nil, List.mem_cons, List.not_mem_nil, or_false]

theorem entryOf_absent {key : String} {fields : Fields} (h : Fields.get? key.toList fields = none) :
    entryOf key fields = .ok .absent := by
  rw [entryOf]
  split
  · rfl
  · next hv =>
    rw [h] at hv
    cases hv

theorem entryOf_of_get? {key : String} {fields : Fields} {v : Value}
    (h : Fields.get? key.toList fields = some v) : entryOf key fields = fieldOf v := by
  rw [entryOf]
  split
  · next hnone =>
    rw [h] at hnone
    cases hnone
  · next hv =>
    rw [h] at hv
    cases hv
    rfl

/-- An item that is no null is decoded as it would be on its own. -/
theorem examplesOf_cons_eq_ok_iff {v : Value} {rest : List Value} {es : List Example} :
    examplesOf (v :: rest) = .ok es ↔ v = .null ∧ examplesOf rest = .ok es ∨
      ∃ e es', es = e :: es' ∧ fieldOf v = .ok (.one e) ∧ examplesOf rest = .ok es' := by
  have hmap : ∀ e : Example, (examplesOf rest).map (e :: ·) = .ok es ↔
      ∃ es', es = e :: es' ∧ examplesOf rest = .ok es' := by
    intro e
    cases examplesOf rest <;> simp [Except.map, eq_comm]
  cases v with
  | null => simp [examplesOf, fieldOf]
  | bool b => simp [examplesOf, fieldOf]
  | array items =>
    cases hi : examplesOf items <;> simp [examplesOf, fieldOf, hi, Except.map]
  | string s => simp [examplesOf, fieldOf, hmap]
  | number n => simp [examplesOf, fieldOf, hmap]
  | object fields =>
    cases ho : overrideOf fields with
    | error fault => simp [examplesOf, fieldOf, ho, Except.map]
    | ok o =>
      have hfield : fieldOf (.object fields) = .ok (.one (.object o)) := by rw [fieldOf, ho]; rfl
      simp [examplesOf, hfield, ho, hmap]

/-- The fields that blocks and override objects both have, decoded. -/
structure Decoded (fields : Fields) (s : Settings) (e es : ExampleField) : Prop where
  name : text? "name" fields = .ok s.name
  description : text? "description" fields = .ok s.description
  example_ : entryOf "example" fields = .ok e
  examples : entryOf "examples" fields = .ok es
  before : text? "beforeEach" fields = .ok s.before
  after : text? "afterEach" fields = .ok s.after
  locals : locals? fields = .ok s.locals

theorem overrideOf_eq_ok_iff {fields : Fields} {o : Override} : overrideOf fields = .ok o ↔
    Decoded fields o.settings o.example_ o.examples ∧
      o.settings.extra = extraOf overrideKeys fields := by
  rw [overrideOf]
  simp only [Except.bind_eq_bind, Except.bind_eq_ok_iff]
  constructor
  · rintro ⟨_, h1, _, h2, _, h3, _, h4, _, h5, _, h6, _, h7, h⟩
    cases h
    exact ⟨⟨h1, h2, h3, h4, h5, h6, h7⟩, rfl⟩
  · rintro ⟨⟨h1, h2, h3, h4, h5, h6, h7⟩, hextra⟩
    obtain ⟨⟨name, description, before, after, locals, extra⟩, e, es⟩ := o
    refine ⟨_, h1, _, h2, _, h3, _, h4, _, h5, _, h6, _, h7, ?_⟩
    rw [← hextra]
    rfl

theorem ofFields_eq_ok_iff {fields : Fields} {m : Metadata} : ofFields fields = .ok m ↔
    ∃ rejected rejected', parameters? "arguments" fields = .ok (m.arguments, rejected) ∧
      parameters? "attributes" fields = .ok (m.attributes, rejected') ∧
      Decoded fields m.settings m.example_ m.examples ∧
      m.settings.extra = extraOf blockKeys fields ∧ m.capture = capture? fields ∧
      m.rejected = rejected ++ rejected' := by
  unfold ofFields
  simp only [Except.bind_eq_bind, Except.bind_eq_ok_iff]
  constructor
  · rintro ⟨⟨_, r⟩, ha, ⟨_, r'⟩, hb, _, h1, _, h2, _, h3, _, h4, _, h5, _, h6, _, h7, h⟩
    cases h
    exact ⟨r, r', ha, hb, ⟨h1, h2, h3, h4, h5, h6, h7⟩, rfl, rfl, rfl⟩
  · rintro ⟨r, r', ha, hb, ⟨h1, h2, h3, h4, h5, h6, h7⟩, hextra, hcapture, hrejected⟩
    obtain ⟨⟨name, description, before, after, locals, extra⟩, _, _, _, _, _, _⟩ := m
    refine ⟨_, ha, _, hb, _, h1, _, h2, _, h3, _, h4, _, h5, _, h6, _, h7, ?_⟩
    rw [← hextra, ← hcapture, ← hrejected]
    rfl

theorem ofFields_capture {fields : Json.Fields} {m : Metadata} (h : ofFields fields = .ok m) :
    m.capture = capture? fields := by
  obtain ⟨-, -, -, -, -, -, hcapture, -⟩ := ofFields_eq_ok_iff.mp h
  exact hcapture

/-- Parameter lists are decoded on their own where nothing else but a name is stated. -/
theorem ofFields_lists {fields : Fields} {name : Text}
    {arguments attributes : Option (List Parameter) × List RejectedParameter}
    (hname : Fields.get? "name".toList fields = some (.string name))
    (habsent : ∀ key ∈ ["description", "example", "examples", "beforeEach", "afterEach", "locals"],
      Fields.get? key.toList fields = none)
    (harguments : parameters? "arguments" fields = .ok arguments)
    (hattributes : parameters? "attributes" fields = .ok attributes) :
    ∃ m, ofFields fields = .ok m ∧ m.arguments = arguments.1 ∧ m.attributes = attributes.1 ∧
      m.rejected = arguments.2 ++ attributes.2 := by
  have htext : ∀ key ∈ ["description", "beforeEach", "afterEach"], text? key fields = .ok none := by
    intro key hkey
    rw [text?, habsent key (by simp_all; tauto)]
  have hlocals : locals? fields = .ok none := by
    rw [locals?, habsent "locals" (by simp)]
  have htextName : text? "name" fields = .ok (some name) := by rw [text?, hname]
  unfold ofFields
  rw [harguments, hattributes, htextName, htext "description" (by simp),
    entryOf_absent (habsent "example" (by simp)), entryOf_absent (habsent "examples" (by simp)),
    htext "beforeEach" (by simp), htext "afterEach" (by simp), hlocals]
  exact ⟨_, rfl, rfl, rfl, rfl⟩

/-! ### Blocks -/

theorem ofBlock_eq_ok {b : Block} {m : Metadata} (h : ofBlock b = .ok m) :
    ∃ v, Outline.readLines b.noteLines = .ok v ∧ ofValue v = .ok m := by
  have hread : Outline.read (escapeParameterLists (Lines.toText b.notes)) (b.line + 1) =
      Outline.readLines b.noteLines := rfl
  unfold ofBlock at h
  rw [hread] at h
  cases hr : Outline.readLines b.noteLines with
  | error e => simp [hr] at h
  | ok v =>
    cases hv : ofValue v with
    | error fault => simp [hr, hv] at h
    | ok m' =>
      simp only [hr, hv, Except.ok.injEq] at h
      exact ⟨v, rfl, h ▸ hv⟩

theorem ofBlock_of_readLines {b : Block} {fields : Fields} {m : Metadata}
    (h : Outline.readLines b.noteLines = .ok (.object fields)) (hm : ofFields fields = .ok m) :
    ofBlock b = .ok m := by
  have hread : Outline.read (escapeParameterLists (Lines.toText b.notes)) (b.line + 1) =
      .ok (.object fields) := h
  have hvalue : ofValue (.object fields) = .ok m := hm
  rw [ofBlock, hread]
  simp only [hvalue]

/-! ### Parameters -/

/-- Whether a text is a parameter. -/
def accepts (t : Text) : Bool := (Parameter.parse t).isOk

theorem parseTrimmed_written {t : Text} {p : Parameter} (h : Parameter.parseTrimmed t = .ok p) :
    p.written = t := by
  unfold Parameter.parseTrimmed at h
  obtain ⟨⟨_, _⟩, -, h⟩ := Except.bind_eq_ok_iff.mp h
  obtain ⟨named, -, h⟩ := Except.bind_eq_ok_iff.mp h
  dsimp only at h
  split_ifs at h
  · cases h
  · obtain ⟨_, -, h⟩ := Except.bind_eq_ok_iff.mp h
    cases h
    rfl

theorem parse_written {t : Text} {p : Parameter} (h : Parameter.parse t = .ok p) :
    p.written = trim t := by
  unfold Parameter.parse at h
  split at h
  · next hp =>
    cases h
    exact parseTrimmed_written hp
  · cases h

theorem parse_rejected {t : Text} {r : Parameter.Rejection} (h : Parameter.parse t = .error r) :
    r.text = trim t := by
  unfold Parameter.parse at h
  split at h
  · cases h
  · cases h
    rfl

/-- Every text of a list is accepted or rejected, in order. -/
theorem parametersOf_strings (key : Text) {ts : List Text} (hts : ∀ t ∈ ts, Text.Tight t) :
    (parametersOf key (ts.map .string)).1 = ts.filterMap (fun t => (Parameter.parse t).toOption) ∧
      (parametersOf key (ts.map .string)).1.map Parameter.written = ts.filter accepts ∧
      (parametersOf key (ts.map .string)).2.map (fun r => (r.key, r.rejection.text)) =
        (ts.filter fun t => !accepts t).map fun t => (key, t) := by
  induction ts with
  | nil => exact ⟨rfl, rfl, rfl⟩
  | cons t ts ih =>
    obtain ⟨hp, hw, hr⟩ := ih fun t ht => hts t (by simp [ht])
    have htrim : trim t = t := Text.trim_of_tight (hts t (by simp))
    rw [List.map_cons, parametersOf]
    cases ht : Parameter.parse t with
    | ok p =>
      have haccepts : accepts t = true := by rw [accepts, ht]; rfl
      refine ⟨?_, ?_, ?_⟩
      · simp [hp, ht, Except.toOption]
      · simp [hw, parse_written ht, htrim, haccepts]
      · simp [hr, haccepts]
    | error r =>
      have haccepts : accepts t = false := by rw [accepts, ht]; rfl
      refine ⟨?_, ?_, ?_⟩
      · simp [hp, ht, Except.toOption]
      · simp [hw, haccepts]
      · simp [hr, parse_rejected ht, htrim, haccepts]

end Metadata
end TemplateDocs
