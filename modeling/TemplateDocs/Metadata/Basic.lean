import TemplateDocs.Capture
import TemplateDocs.Json.Writer
import TemplateDocs.Parameter.Basic

/-!
# Metadata

What an annotation says about its block. Keys without a field of their own are kept as they are.
-/
namespace TemplateDocs

open Json (Value Fields)

/-- Values by name, handed to a template. -/
abbrev Locals := Json.Fields

/-- What a block and an override object can both say, besides their examples. -/
structure Settings where
  name : Option Text := none
  description : Option Text := none
  before : Option Text := none
  after : Option Text := none
  locals : Option Locals := none
  extra : Fields := []

mutual

/-- One example: template source, or an object with examples and settings of its own. -/
inductive Example where
  | source (s : Text)
  | object (o : Override)

inductive Override where
  | mk (settings : Settings) (example_ examples : ExampleField)

/-- The value of an `example` or `examples` entry. -/
inductive ExampleField where
  | absent
  | flag (on : Bool)
  | one (e : Example)
  | many (es : List Example)

end

namespace Override

def settings : Override → Settings
  | .mk s _ _ => s

def example_ : Override → ExampleField
  | .mk _ e _ => e

def examples : Override → ExampleField
  | .mk _ _ es => es

end Override

namespace ExampleField

/-- The examples in order; a flag has none. -/
def toList : ExampleField → List Example
  | .absent | .flag _ => []
  | .one e => [e]
  | .many es => es

def isSuppressed : ExampleField → Bool
  | .flag false => true
  | _ => false

end ExampleField

/-- A parameter entry that was left out. -/
structure RejectedParameter where
  key : Text
  rejection : Parameter.Rejection
  deriving DecidableEq, Repr

structure Metadata where
  settings : Settings := {}
  arguments : Option (List Parameter) := none
  attributes : Option (List Parameter) := none
  example_ : ExampleField := .absent
  examples : ExampleField := .absent
  /-- The capture directive as written. -/
  capture : Option Value := none
  rejected : List RejectedParameter := []

namespace Metadata

def name (m : Metadata) : Option Text := m.settings.name

/-- Whether the block's own output is not wanted. -/
def isSuppressed (m : Metadata) : Bool := m.example_.isSuppressed

/-- The capture directive, or its text when it is none. -/
def captureMode (m : Metadata) : Except Text Capture :=
  match m.capture with
  | none => .ok .single
  | some v =>
    let text :=
      match v with
      | .string s => s
      | v => Json.compact v
    match Capture.parse? text with
    | some mode => .ok mode
    | none => .error text

end Metadata
end TemplateDocs
