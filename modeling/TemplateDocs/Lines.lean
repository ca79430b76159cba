import TemplateDocs.Text.Basic

/-!
# Lines and indentation

A template is a list of lines. A line's indentation is the number of blank characters it starts
with, a tab counting as one.
-/
namespace TemplateDocs

abbrev Lines := List Text

namespace Lines

/-- The lines of a text whose line ends are line feeds. The empty text has no line. -/
def ofText : Text → Lines
  | [] => []
  | c :: t => Text.split '\n' (c :: t)

def toText (ls : Lines) : Text := Text.join ['\n'] ls

def indent (line : Text) : Nat := (line.takeWhile Text.isSpace).length

def isBlank (line : Text) : Bool := line.all Text.isSpace

/-- Every line end becomes a single line feed, whether written CR, LF or CR LF. -/
def unifyEnds : Text → Text
  | [] => []
  | '\r' :: '\n' :: t => '\n' :: unifyEnds t
  | c :: t => (if c = '\r' then '\n' else c) :: unifyEnds t

/-- The line without its first `columns` blank characters, or without all of them if it has fewer. -/
def dedentLine (columns : Nat) (line : Text) : Text := line.drop (min (indent line) columns)

def dedent (columns : Nat) (ls : Lines) : Lines := ls.map (dedentLine columns)

def dropBlankEnd (ls : Lines) : Lines := (ls.reverse.dropWhile isBlank).reverse

/-- Lines that belong to a head line at `column`: those that are blank or indented deeper. -/
def scope (column : Nat) (ls : Lines) : Lines :=
  ls.takeWhile fun line => isBlank line || column < indent line

/-- The lines from the first one on that ends the scope of a head line at `column`. -/
def afterScope (column : Nat) (ls : Lines) : Lines :=
  ls.dropWhile fun line => isBlank line || column < indent line

theorem scope_append_afterScope (column : Nat) (ls : Lines) :
    scope column ls ++ afterScope column ls = ls :=
  List.takeWhile_append_dropWhile

theorem afterScope_length (column : Nat) (ls : Lines) : (afterScope column ls).length ≤ ls.length :=
  (List.dropWhile_suffix _).length_le

end Lines
end TemplateDocs
