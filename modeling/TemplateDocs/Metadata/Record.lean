import TemplateDocs.Metadata.Basic

/-!
# Metadata as JSON

The record that is written for a block's metadata: the fields that are there, in a fixed order, and
then the keys without a field of their own.
-/
namespace TemplateDocs

open Json (Value Fields)

def entry (key : String) (v : Value) : List (Text × Value) := [(key.toList, v)]

def optional (key : String) (v : Option Value) : List (Text × Value) :=
  match v with
  | some v => entry key v
  | none => []

def optionalText (key : String) (t : Option Text) : List (Text × Value) :=
  optional key (t.map .string)

namespace Parameter

def Names.record : Names → Value
  | .single name => .string name
  | .union names => .array (names.map .string)

def record (p : Parameter) : Value :=
  .object <|
    entry "name" (.string p.name)
    ++ entry "description" (.string p.description)
    ++ entry "type" p.names.record
    ++ entry "default" ((p.default.map Value.string).getD .null)
    ++ entry "nullable" (.bool p.nullable)
    ++ entry "optional" (.bool p.optional)
    ++ entry "original" (.string p.written)

end Parameter

mutual

def Example.record : Example → Value
  | .source s => .string s
  | .object o => o.record

def Override.record : Override → Value
  | .mk s example_ examples =>
    .object <|
      optionalText "name" s.name
      ++ optionalText "description" s.description
      ++ example_.entry "example"
      ++ examples.entry "examples"
      ++ optionalText "beforeEach" s.before
      ++ optionalText "afterEach" s.after
      ++ optional "locals" (s.locals.map .object)
      ++ s.extra

/-- The entry of an example field, if it says anything. -/
def ExampleField.entry (key : String) : ExampleField → List (Text × Value)
  | .absent => []
  | .flag b => TemplateDocs.entry key (.bool b)
  | .one e => TemplateDocs.entry key e.record
  | .many es => TemplateDocs.entry key (.array (Example.records es))

def Example.records : List Example → List Value
  | [] => []
  | e :: es => e.record :: Example.records es

end

def Metadata.record (m : Metadata) : Value :=
  .object <|
    optionalText "name" m.settings.name
    ++ optionalText "description" m.settings.description
    ++ optional "arguments" (m.arguments.map fun ps => .array (ps.map Parameter.record))
    ++ optional "attributes" (m.attributes.map fun ps => .array (ps.map Parameter.record))
    ++ m.example_.entry "example"
    ++ m.examples.entry "examples"
    ++ optionalText "beforeEach" m.settings.before
    ++ optionalText "afterEach" m.settings.after
    ++ optional "locals" (m.settings.locals.map .object)
    ++ optional "capture" m.capture
    ++ m.settings.extra

end TemplateDocs
