import TemplateDocs.Capture

/-!
# Annotated blocks

A block starts at a marker line, a comment that holds only the keyword. The lines indented deeper
than the marker annotate it, and the code that follows at the marker's column is what they document.
-/
namespace TemplateDocs

def defaultKeyword : Text := "@pugdoc".toList

/-- The comment line that opens a block. -/
def markerText (keyword : Text) : Text := "//- ".toList ++ keyword

structure Block where
  /-- Line number of the marker, counted from one. -/
  line : Nat
  /-- Column of the marker. -/
  column : Nat
  /-- The marker line and its annotation as they stand in the source. -/
  comment : Lines
  /-- The captured code, moved so that the marker's column is column zero. -/
  code : Lines
  capture : Capture
  deriving DecidableEq, Repr

namespace Block

/-- The lines of the comment after the marker. -/
def notes (b : Block) : Lines := b.comment.drop 1

def codeText (b : Block) : Text := Lines.toText b.code

def isMarker (marker line : Text) : Bool := Text.trim line = marker

/-- The value of a `capture` entry on one line: no trailing comment, no quotes around it. -/
def captureOf? (line : Text) : Option Capture :=
  (Text.after? "capture:".toList (Text.trim line)).bind fun value =>
    let value := (Text.cut? " #".toList value).elim value Prod.fst
    Capture.parse? (Text.trimMatches (fun c => c = '"' || c = '\'') (Text.trim value))

/-- The least indentation of a line that is not blank. -/
def baseIndent (notes : Lines) : Nat :=
  (((notes.filter fun l => !Lines.isBlank l).map Lines.indent).min?).getD 0

/-- The capture mode that the annotation asks for, found without reading it as a whole. -/
def announcedCapture (notes : Lines) : Capture :=
  let base := baseIndent notes
  let top := notes.filter fun l => !Lines.isBlank l && Lines.indent l = base
  (top.findSome? captureOf?).getD .single

/-- Code blocks at `column`, at most `bound` of them: a head line and its scope each. -/
def codeBlocks (column : Nat) (bound : Option Nat) (ls : Lines) : Lines :=
  match ls with
  | [] => []
  | head :: rest =>
    if bound = some 0 ∨ Lines.indent head < column then []
    else
      have := Lines.afterScope_length column rest
      head :: Lines.scope column rest ++
        codeBlocks column (bound.map (· - 1)) (Lines.afterScope column rest)
termination_by ls.length

/-- Characters that leave no trace in captured code. -/
def isInvisible (c : Char) : Bool := c = '\u2028' || c = '\u200b'

/-- The block of the marker on line `line`. A bare marker without code is no block. -/
def ofMarker? (marker : Text) (line : Nat) (head : Text) (rest : Lines) : Option Block :=
  let column := Lines.indent head
  let comment := Lines.dropBlankEnd (head :: Lines.scope column rest)
  let capture := announcedCapture (comment.drop 1)
  let window := codeBlocks column capture.bound? (Lines.afterScope column rest)
  let window :=
    if capture = .untilMarker then window.takeWhile fun l => !isMarker marker l else window
  let code := Lines.dropBlankEnd window
  if comment.length = 1 ∧ code = [] then none
  else
    some {
      line := line
      column := column
      comment := comment
      code := (Lines.dedent column code).map fun l => l.filter fun c => !isInvisible c
      capture := capture }

/-- The blocks of the lines that start at line number `line`. -/
def extractFrom (marker : Text) : Nat → Lines → List Block
  | _, [] => []
  | line, head :: rest =>
    if isMarker marker head then
      (ofMarker? marker line head rest).toList ++ extractFrom marker (line + 1) rest
    else extractFrom marker (line + 1) rest

/-- All annotated blocks of a template, in the order of their markers. -/
def extract (keyword : Text) (ls : Lines) : List Block := extractFrom (markerText keyword) 1 ls

end Block
end TemplateDocs
