import TemplateDocs.Block
import TemplateDocs.Metadata.Record
import TemplateDocs.Render

/-!
# Documents

The record that is written for one block, and the file that holds all of them.
-/
namespace TemplateDocs

open Json (Value)

structure Document where
  /-- Path of the template below the project root. -/
  file : Text
  /-- Line of the marker; it is not written. -/
  line : Nat
  metadata : Metadata
  /-- The captured code. -/
  source : Text
  output : Option Text
  fragments : List Fragment

def Fragment.record (f : Fragment) : Value :=
  .object (entry "meta" f.spec.record ++ entry "output" (.string f.output))

namespace Document

/-- Neither output nor fragments: there is nothing to show. -/
def isEmpty (d : Document) : Bool := d.output.isNone && d.fragments.isEmpty

def name (d : Document) : Text := d.metadata.name.getD []

/-- The document of a block that has a name. -/
def ofBlock? (file : Text) (b : Block) (m : Metadata) (r : BlockRender) : Option Document :=
  if m.name.isNone then none
  else
    some {
      file := file
      line := b.line
      metadata := m
      source := b.codeText
      output := r.output
      fragments := r.fragments }

def fragmentsEntry (fragments : List Fragment) : List (Text × Value) :=
  if fragments.isEmpty then [] else entry "fragments" (.array (fragments.map Fragment.record))

def record (d : Document) : Value :=
  .object <|
    entry "file" (.string d.file)
    ++ entry "meta" d.metadata.record
    ++ entry "source" (.string d.source)
    ++ entry "output" ((d.output.map Value.string).getD .null)
    ++ fragmentsEntry d.fragments

/-- A JSON array whose records start at the beginning of a line. -/
def writeAll : List Document → Text
  | [] => "[]\n".toList
  | ds =>
    '[' :: Text.join [','] (ds.map fun d => '\n' :: Json.pretty d.record) ++ "\n]\n".toList

end Document
end TemplateDocs
