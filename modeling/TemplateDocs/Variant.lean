import TemplateDocs.Metadata.Basic
import TemplateDocs.Mixin

/-!
# Variants of a block

The examples of a block become sources that can be rendered on their own. An override object is a
fragment: its examples are variants of the block and are also collected under the object itself.
-/
namespace TemplateDocs

/-- Whether code declares a mixin. -/
def declaresMixin (code : Text) : Bool :=
  ((Text.feedLines code).find? fun line => !Lines.isBlank line).any fun line =>
    (Mixin.declaredName? line).isSome

/-- The line of an example that stands for the code. -/
def placeholder : Text := "block".toList

/-- The code in place of a placeholder line; its lines take over the placeholder's indentation. -/
def insertAt (line code : Text) : Lines :=
  let indentation := line.takeWhile Text.isSpace
  (Text.split '\n' code).map fun codeLine =>
    if codeLine.isEmpty then [] else indentation ++ codeLine

/-- Combines code with one example. A mixin is followed by the example, which calls it; other code
is replaced by the example, placeholder lines apart. -/
def mergeSource (code sample : Text) : Text :=
  if declaresMixin code then code ++ '\n' :: sample
  else
    Lines.toText ((Text.split '\n' sample).flatMap fun line =>
      if Text.trim line = placeholder then insertAt line code else [line])

/-- Text put around every example. -/
structure Hooks where
  before : Option Text
  after : Option Text

namespace Hooks

/-- The hooks of an override stand in for the block's where it has them. -/
def orElse (own parent : Hooks) : Hooks := ⟨own.before <|> parent.before, own.after <|> parent.after⟩

def wrap (h : Hooks) (sample : Text) : Text :=
  Lines.toText ((h.before.toList ++ sample :: h.after.toList).filter fun part => !Lines.isBlank part)

end Hooks

def Settings.hooks (s : Settings) : Hooks := ⟨s.before, s.after⟩

structure Variant where
  /-- The name that problems are reported under. -/
  label : Text
  source : Text
  locals : Locals
  /-- Which fragment the variant belongs to. -/
  fragment : Option Nat

/-- All that is rendered for one block. -/
structure Assembly where
  variants : List Variant := []
  fragments : List Override := []
  /-- The block's own output is not wanted. -/
  suppressed : Bool := false
  /-- Labels of override objects inside override objects, which are skipped. -/
  tooDeep : List Text := []

namespace Assembly

/-- The entries of `example`, then those of `examples`. -/
def entries (example_ examples : ExampleField) : List Example := example_.toList ++ examples.toList

def nestedLabel (label : Text) (o : Override) : Text :=
  label ++ " > ".toList ++ o.settings.name.getD "unnamed".toList

/-- The sources of an override's entries, or the code itself if there are none. -/
def overrideSources (code : Text) (hooks : Hooks) (o : Override) : List Text :=
  let sources := (entries o.example_ o.examples).filterMap fun
    | .source s => if Lines.isBlank s then none else some (mergeSource code (hooks.wrap s))
    | .object _ => none
  if sources.isEmpty then [code] else sources

def overrideTooDeep (label : Text) (o : Override) : List Text :=
  (entries o.example_ o.examples).filterMap fun
    | .source _ => none
    | .object nested => some (nestedLabel label nested)

/-- What the block itself says. -/
structure Frame where
  label : Text
  code : Text
  hooks : Hooks
  locals : Locals

def addSource (frame : Frame) (a : Assembly) (s : Text) : Assembly :=
  if Lines.isBlank s then a
  else
    let variant : Variant := {
      label := frame.label ++ " example ".toList ++ Text.ofNat (a.variants.length + 1)
      source := mergeSource frame.code (frame.hooks.wrap s)
      locals := frame.locals
      fragment := none }
    { a with variants := a.variants ++ [variant] }

def addOverride (frame : Frame) (a : Assembly) (o : Override) : Assembly :=
  let index := a.fragments.length
  let label := o.settings.name.getD (frame.label ++ " fragment ".toList ++ Text.ofNat (index + 1))
  let locals := Json.Fields.overlay frame.locals (o.settings.locals.getD [])
  let sources := overrideSources frame.code (o.settings.hooks.orElse frame.hooks) o
  { a with
    variants := a.variants ++ sources.map fun source => ⟨label, source, locals, some index⟩
    fragments := a.fragments ++ [o]
    tooDeep := a.tooDeep ++ overrideTooDeep label o }

def add (frame : Frame) (a : Assembly) : Example → Assembly
  | .source s => a.addSource frame s
  | .object o => a.addOverride frame o

/-- A block without examples is rendered as it is. -/
def orCode (frame : Frame) (a : Assembly) : Assembly :=
  if a.variants.isEmpty then
    { a with variants := [⟨frame.label, frame.code, frame.locals, none⟩] }
  else a

def ofMetadata (m : Metadata) (code : Text) : Assembly :=
  let frame : Frame := {
    label := m.name.getD "block".toList
    code := code
    hooks := m.settings.hooks
    locals := m.settings.locals.getD [] }
  orCode frame ((entries m.example_ m.examples).foldl (add frame) { suppressed := m.isSuppressed })

/-- Every variant after the mixins of the file that it needs. -/
def link (mixins : List Mixin) (a : Assembly) : Assembly :=
  { a with variants := a.variants.map fun v => { v with source := Mixin.link mixins v.source } }

end Assembly
end TemplateDocs
