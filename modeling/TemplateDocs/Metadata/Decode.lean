import TemplateDocs.Block
import TemplateDocs.Metadata.Basic
import TemplateDocs.Metadata.ParameterLists
import TemplateDocs.Outline.Reader

/-!
# Decoding metadata

The value that an annotation holds is taken apart into the fields of `Metadata`. A field that is
null counts as absent, a number or boolean may stand where text is expected, and a value of any
other shape is refused.
-/
namespace TemplateDocs.Metadata

open Json (Value Fields)

/-- A field whose value has the wrong shape. -/
inductive ShapeFault where
  | notMapping
  | notText (key : Text)
  | notLocals
  | notList (key : Text)
  | badExample
  deriving DecidableEq, Repr

def ShapeFault.message : ShapeFault → Text
  | .notMapping => "doc block metadata must be a mapping".toList
  | .notText key => '`' :: key ++ "` must be a string".toList
  | .notLocals => "`locals` must be a mapping".toList
  | .notList key => '`' :: key ++ "` must be a list".toList
  | .badExample => "example entries must be template source or override objects".toList

inductive Fault where
  | read (fault : Outline.Fault)
  | shape (fault : ShapeFault)
  deriving DecidableEq, Repr

def Fault.message : Fault → Text
  | .read fault => fault.message
  | .shape fault => fault.message

/-- Why an annotation cannot be used, and the line to look at. -/
structure Error where
  line : Nat
  fault : Fault
  deriving DecidableEq, Repr

def Error.message (e : Error) : Text :=
  "invalid doc block metadata at line ".toList ++ Text.ofNat e.line ++ ": ".toList ++ e.fault.message

def text? (key : String) (fields : Fields) : Except ShapeFault (Option Text) :=
  match Fields.get? key.toList fields with
  | none | some .null => .ok none
  | some (.string s) => .ok (some s)
  | some (.number n) => .ok (some n.write)
  | some (.bool b) => .ok (some (Json.scalar (.bool b)))
  | some (.array _) | some (.object _) => .error (.notText key.toList)

def locals? (fields : Fields) : Except ShapeFault (Option Locals) :=
  match Fields.get? "locals".toList fields with
  | none | some .null => .ok none
  | some (.object locals) => .ok (some locals)
  | some _ => .error .notLocals

/-- The entries whose keys have no field of their own. -/
def extraOf (reserved : List Text) (fields : Fields) : Fields :=
  fields.filter fun (k, _) => !reserved.contains k

def overrideKeys : List Text :=
  ["name", "description", "example", "examples", "beforeEach", "afterEach", "locals"].map String.toList

def blockKeys : List Text := overrideKeys ++ ["arguments", "attributes", "capture"].map String.toList

theorem sizeOf_get? {key : Text} {fields : Fields} {v : Value}
    (h : Fields.get? key fields = some v) : sizeOf v < sizeOf fields := by
  induction fields with
  | nil => simp [Fields.get?] at h
  | cons entry rest ih =>
    obtain ⟨k, w⟩ := entry
    unfold Fields.get? at h
    split at h
    · simp only [Option.some.injEq] at h
      subst h
      simp
      omega
    · have := ih h
      simp
      omega

mutual

/-- The value of an `example` or `examples` entry. -/
def fieldOf (v : Value) : Except ShapeFault ExampleField :=
  match v with
  | .null => .ok .absent
  | .bool b => .ok (.flag b)
  | .array items => (examplesOf items).map .many
  | .number n => .ok (.one (.source n.write))
  | .string s => .ok (.one (.source s))
  | .object fields => (overrideOf fields).map fun o => .one (.object o)
termination_by 2 * sizeOf v

/-- The examples of a list; null items are skipped. -/
def examplesOf (items : List Value) : Except ShapeFault (List Example) :=
  match items with
  | [] => .ok []
  | v :: rest =>
    match v with
    | .null => examplesOf rest
    | .string s => (examplesOf rest).map (.source s :: ·)
    | .number n => (examplesOf rest).map (.source n.write :: ·)
    | .object fields =>
      match overrideOf fields with
      | .error e => .error e
      | .ok o => (examplesOf rest).map (.object o :: ·)
    | .bool _ | .array _ => .error .badExample
termination_by 2 * sizeOf items

def entryOf (key : String) (fields : Fields) : Except ShapeFault ExampleField :=
  match h : Fields.get? key.toList fields with
  | none => .ok .absent
  | some v =>
    have := sizeOf_get? h
    fieldOf v
termination_by 2 * sizeOf fields

def overrideOf (fields : Fields) : Except ShapeFault Override := do
  let name ← text? "name" fields
  let description ← text? "description" fields
  let example_ ← entryOf "example" fields
  let examples ← entryOf "examples" fields
  let before ← text? "beforeEach" fields
  let after ← text? "afterEach" fields
  let locals ← locals? fields
  return .mk ⟨name, description, before, after, locals, extraOf overrideKeys fields⟩ example_ examples
termination_by 2 * sizeOf fields + 1

end

/-- Parameters and rejected entries of a list, both in order. -/
def parametersOf (key : Text) : List Value → List Parameter × List RejectedParameter
  | [] => ([], [])
  | v :: rest =>
    let parsed :=
      match v with
      | .string s => Parameter.parse s
      | v => .error ⟨Json.compact v, .notText⟩
    let (accepted, rejected) := parametersOf key rest
    match parsed with
    | .ok p => (p :: accepted, rejected)
    | .error r => (accepted, ⟨key, r⟩ :: rejected)

/-- The parameter list of a key; a single text is a list of one. -/
def parameters? (key : String) (fields : Fields) :
    Except ShapeFault (Option (List Parameter) × List RejectedParameter) :=
  let list (items : List Value) :=
    let (accepted, rejected) := parametersOf key.toList items
    (some accepted, rejected)
  match Fields.get? key.toList fields with
  | none | some .null => .ok (none, [])
  | some (.array items) => .ok (list items)
  | some (.string s) => .ok (list [.string s])
  | some _ => .error (.notList key.toList)

def capture? (fields : Fields) : Option Value :=
  match Fields.get? "capture".toList fields with
  | none | some .null => none
  | some v => some v

def ofFields (fields : Fields) : Except ShapeFault Metadata := do
  let (arguments, rejectedArguments) ← parameters? "arguments" fields
  let (attributes, rejectedAttributes) ← parameters? "attributes" fields
  let name ← text? "name" fields
  let description ← text? "description" fields
  let example_ ← entryOf "example" fields
  let examples ← entryOf "examples" fields
  let before ← text? "beforeEach" fields
  let after ← text? "afterEach" fields
  let locals ← locals? fields
  return {
    settings := ⟨name, description, before, after, locals, extraOf blockKeys fields⟩
    arguments := arguments
    attributes := attributes
    example_ := example_
    examples := examples
    capture := capture? fields
    rejected := rejectedArguments ++ rejectedAttributes }

/-- The metadata of a value, which is a mapping or nothing. -/
def ofValue : Value → Except ShapeFault Metadata
  | .null => .ok {}
  | .object fields => ofFields fields
  | _ => .error .notMapping

/-- The metadata of a block. -/
def ofBlock (b : Block) : Except Error Metadata :=
  match Outline.read (escapeParameterLists (Lines.toText b.notes)) (b.line + 1) with
  | .error e => .error ⟨e.line, .read e.fault⟩
  | .ok v =>
    match ofValue v with
    | .error fault => .error ⟨b.line, .shape fault⟩
    | .ok m => .ok m

end TemplateDocs.Metadata
