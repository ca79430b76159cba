import TemplateDocs.Diagnostic
import TemplateDocs.Document

/-!
# Documents of one template

The blocks of a template become documents. A block without a name ends the whole run, every other
problem is a diagnostic.
-/
namespace TemplateDocs

/-- What was found in one template or in a run. -/
structure Findings where
  documents : List Document := []
  diagnostics : List Diagnostic := []
  /-- An example asked to stop the run. -/
  interrupted : Bool := false

/-- A block without a name. -/
structure MissingName where
  file : Text
  line : Nat
  deriving DecidableEq, Repr

def MissingName.message (e : MissingName) : Text :=
  "required key `name` not found in doc block at ".toList ++ e.file ++ ':' :: Text.ofNat e.line

namespace Findings

def append (a b : Findings) : Findings where
  documents := a.documents ++ b.documents
  diagnostics := a.diagnostics ++ b.diagnostics
  interrupted := a.interrupted || b.interrupted

instance : Append Findings := ⟨append⟩

end Findings

/-- What the blocks of one template share. -/
structure Setting where
  file : Text
  engine : Engine
  globals : Locals
  mixins : List Mixin

namespace Setting

/-- Problems of the metadata that leave the block usable. -/
def metadataProblems (m : Metadata) : List Problem :=
  m.rejected.map .parameter ++
    match m.captureMode with
    | .ok _ => []
    | .error value => [.capture value]

def renderProblems (m : Metadata) (r : BlockRender) : List Problem :=
  r.failures.map fun failure => .render failure (Json.pretty m.record)

/-- The findings of a block whose metadata could be read. -/
def generateBlock (s : Setting) (b : Block) (m : Metadata) : Except MissingName Findings :=
  let assembly := (Assembly.ofMetadata m b.codeText).link s.mixins
  let render := assembly.render s.engine s.globals s.file
  let problems :=
    metadataProblems m ++ assembly.tooDeep.map .nestingTooDeep ++ renderProblems m render
  match Document.ofBlock? s.file b m render with
  | none => .error ⟨s.file, b.line⟩
  | some document =>
    .ok {
      documents := if document.isEmpty then [] else [document]
      diagnostics := problems.map fun problem => ⟨s.file, m.name, b.line, problem⟩
      interrupted := assembly.wanted.any fun v => s.engine.interrupts v.source }

def generateBlocks (s : Setting) : List Block → Except MissingName Findings
  | [] => .ok {}
  | b :: rest =>
    match Metadata.ofBlock b with
    | .error error =>
      (s.generateBlocks rest).map
        (({ diagnostics := [⟨s.file, none, b.line, .metadata error⟩] } : Findings) ++ ·)
    | .ok m =>
      match s.generateBlock b m with
      | .error missing => .error missing
      | .ok found => (s.generateBlocks rest).map (found ++ ·)

end Setting

/-- The findings of one template. -/
def generateSource (engine : Engine) (keyword : Text) (globals : Locals) (file source : Text) :
    Except MissingName Findings :=
  let lines := Lines.ofText (Lines.unifyEnds source)
  Setting.generateBlocks ⟨file, engine, globals, Mixin.table lines⟩ (Block.extract keyword lines)

end TemplateDocs
