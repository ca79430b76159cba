import TemplateDocs.Outline.Flow
import TemplateDocs.Outline.Line

/-!
# Scalars and collections that start on a line

A value that starts on a line may go on over the following lines: a literal or folded block, a quoted
scalar that is not closed yet, a flow collection, or a plain scalar with deeper lines under it. Each
reader here takes the lines it needs off the front and leaves a suffix.
-/
namespace TemplateDocs.Outline

open Json (Value)

/-- A value read off the front of the lines, with a rest that weighs no more. -/
structure Read (α : Type) (ls : List Line) where
  value : α
  rest : List Line
  le : weight rest ≤ weight ls

def Read.ofSuffix {α : Type} {ls rest : List Line} (v : α) (h : rest <:+ ls) : Read α ls :=
  ⟨v, rest, weight_suffix h⟩

/-- What becomes of the line breaks at the end of a block. -/
inductive Chomp where
  | strip | clip | keep
  deriving DecidableEq, Repr

/-- The header of a block scalar: its style, its chomping and the indentation it states. -/
structure Header where
  folded : Bool
  chomp : Chomp
  indent : Option Nat
  deriving DecidableEq, Repr

def Header.read? (h : Header) : Text → Option Header
  | [] => some h
  | c :: t =>
    if c = '-' then read? { h with chomp := .strip } t
    else if c = '+' then read? { h with chomp := .keep } t
    else if '1' ≤ c ∧ c ≤ '9' then read? { h with indent := some (Text.digitValue c) } t
    else none

def Header.parse? (t : Text) : Option Header :=
  Header.read? ⟨t.head? = some '>', .clip, none⟩ (t.drop 1)

/-- Joins the lines of a folded block: a break between two flush lines is a blank, any other break
is kept, and blank lines are breaks. -/
def foldFrom (acc : Text) (afterText : Bool) : Lines → Text
  | [] => acc
  | l :: rest =>
    if Lines.isBlank l then foldFrom (acc ++ ['\n']) false rest
    else
      let indented := (l.head?.map isGap).getD false
      let break_ :=
        if afterText && !indented then [' ']
        else if acc.getLast? = some '\n' then []
        else ['\n']
      foldFrom (acc ++ break_ ++ l) (!indented) rest

/-- Folds a block. Nothing stands before the first line but the breaks of blank lines. -/
def fold (ls : Lines) : Text :=
  match ls with
  | [] => []
  | l :: rest =>
    if Lines.isBlank l then foldFrom ['\n'] false rest
    else foldFrom l (!(l.head?.map isGap).getD false) rest

/-- The text of a block whose lines have lost their indentation. -/
def Header.body (h : Header) (ls : Lines) : Text :=
  let content := Lines.dropBlankEnd ls
  let body := if h.folded then fold content else Lines.toText content
  match h.chomp with
  | .strip => body
  | .clip => if body.isEmpty then body else body ++ ['\n']
  | .keep => body ++ '\n' :: List.replicate (ls.length - content.length) '\n'

/-- The indentation of a block under `parent`: stated, or that of its first line with content. -/
def Header.blockIndent (h : Header) (parent : Option Nat) (ls : List Line) : Nat :=
  match h.indent with
  | some digit => parent.getD 0 + digit
  | none =>
    match ls.find? fun l => !l.text.isEmpty with
    | some l => l.indent
    | none => parent.elim 0 (· + 1)

def inBlock (indent : Nat) (l : Line) : Bool := l.text.isEmpty || indent ≤ l.indent

def readBlock (header : Text) (line : Line) (parent : Option Nat) (ls : List Line) :
    Except ReadError (Read Value ls) :=
  let header := Text.trimEnd (stripComment header)
  match Header.parse? header with
  | none => .error ⟨line.number, .badScalarHeader header⟩
  | some h =>
    let indent := h.blockIndent parent ls
    if parent.elim 0 (· + 1) ≤ indent then
      let raw := (ls.takeWhile (inBlock indent)).map Line.raw
      .ok (.ofSuffix (.string (h.body (Lines.dedent indent raw))) (List.dropWhile_suffix (inBlock indent)))
    else .ok (.ofSuffix (.string (h.body [])) (List.suffix_refl ls))

/-- Adds following lines to `buffer`, a blank between them, until `complete` finds the end. -/
def gather (complete : Text → Option (Text × Text)) (buffer : Text) (ls : List Line) :
    Option (Text × Text × { rest : List Line // rest <:+ ls }) :=
  match complete buffer with
  | some (front, trailing) => some (front, trailing, ⟨ls, List.suffix_refl ls⟩)
  | none =>
    match ls with
    | [] => none
    | l :: rest =>
      (gather complete (buffer ++ ' ' :: l.text) rest).map fun (front, trailing, r) =>
        (front, trailing, ⟨r.1, r.2.trans (List.suffix_cons l rest)⟩)

/-- Only a comment may follow on the line. -/
def isTrailingComment (t : Text) : Bool := t.isEmpty || t.head? = some '#'

def readQuoted (text : Text) (line : Line) (ls : List Line) : Except ReadError (Read Value ls) :=
  match gather quoted? text ls with
  | none => .error ⟨line.number, .unterminatedQuote⟩
  | some (quoted, trailing, rest) =>
    let trailing := Text.trim trailing
    if isTrailingComment trailing then
      match unquoted quoted with
      | .ok s => .ok (.ofSuffix (.string s) rest.2)
      | .error fault => .error ⟨line.number, fault⟩
    else .error ⟨line.number, .afterQuoted trailing⟩

def readFlow (text : Text) (line : Line) (ls : List Line) : Except ReadError (Read Value ls) :=
  match gather (Flow.collection? 0) text ls with
  | none => .error ⟨line.number, .unterminatedFlow⟩
  | some (collection, trailing, rest) =>
    let trailing := Text.trim trailing
    if isTrailingComment trailing then
      match Flow.read collection with
      | .ok v => .ok (.ofSuffix v rest.2)
      | .error fault => .error ⟨line.number, fault⟩
    else .error ⟨line.number, .afterFlow trailing⟩

def plainPart (t : Text) : Text := Text.trimEnd (stripComment t)

/-- The plain parts of the lines deeper than `parent`, and the lines after them. -/
def deeperParts (parent : Option Nat) (ls : List Line) : List Text × List Line :=
  match ls with
  | [] => ([], [])
  | l :: rest =>
    if l.isIdle then deeperParts parent rest
    else if parent.all (· < l.indent) then
      (plainPart l.text :: (deeperParts parent rest).1, (deeperParts parent rest).2)
    else ([], l :: rest)

theorem deeperParts_suffix (parent : Option Nat) (ls : List Line) :
    (deeperParts parent ls).2 <:+ ls := by
  induction ls with
  | nil => simp [deeperParts]
  | cons l rest ih =>
    unfold deeperParts
    split
    · exact ih.trans (List.suffix_cons l rest)
    · split
      · exact ih.trans (List.suffix_cons l rest)
      · exact List.suffix_refl _

def readPlain (text : Text) (parent : Option Nat) (ls : List Line) : Read Value ls :=
  .ofSuffix (resolve (Text.join [' '] (plainPart text :: (deeperParts parent ls).1)))
    (deeperParts_suffix parent ls)

/-- The value that starts with `text` on `line`; `ls` are the lines after it. -/
def readInline (text : Text) (line : Line) (parent : Option Nat) (ls : List Line) :
    Except ReadError (Read Value ls) :=
  match text with
  | [] => .ok (readPlain text parent ls)
  | c :: _ =>
    if c = '|' ∨ c = '>' then readBlock text line parent ls
    else if Flow.isQuote c then readQuoted text line ls
    else if Flow.isOpening c then readFlow text line ls
    else .ok (readPlain text parent ls)

end TemplateDocs.Outline
