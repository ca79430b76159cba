import TemplateDocs.Lines

/-!
# Parameter lists in an annotation

The items of `arguments:` and `attributes:` are free text that often starts with a brace. They are
put in double quotes before the annotation is read, so that the brace opens no flow mapping.
-/
namespace TemplateDocs.Metadata

/-- Keys whose items are parameters. -/
def parameterKeys : List Text := ["arguments".toList, "attributes".toList]

/-- Whether a line without blanks around it is one of the keys with nothing after its colon. -/
def opensParameters (t : Text) : Bool :=
  parameterKeys.any fun key =>
    match Text.after? (key ++ [':']) t with
    | some rest => Lines.isBlank rest
    | none => false

/-- Whether a line without blanks around it is an item. -/
def isItem (t : Text) : Bool := t = ['-'] || Text.startsWith ['-', ' '] t

/-- Items that start like this are left as they are: they are quoted, or a block, or a comment. -/
def isProtected (c : Char) : Bool := c = '"' || c = '\'' || c = '|' || c = '>' || c = '#'

def escapeQuotes (t : Text) : Text :=
  t.flatMap fun c => if c = '\\' ∨ c = '"' then ['\\', c] else [c]

/-- An item line with its text in double quotes. -/
def quoteItem (line : Text) : Text :=
  let item := Text.trim ((Text.trim line).drop 1)
  match item with
  | [] => line
  | c :: _ =>
    if isProtected c then line
    else line.take (Lines.indent line) ++ "- \"".toList ++ escapeQuotes item ++ ['"']

/-- Quotes items line by line; `list` is the indentation of the key whose list is open. -/
def quoteItems : Option Nat → Lines → Lines
  | _, [] => []
  | list, line :: rest =>
    let t := Text.trim line
    let indent := Lines.indent line
    let inside := list.any fun key =>
      Lines.isBlank line || key < indent || (indent = key && isItem t)
    if inside && isItem t then quoteItem line :: quoteItems list rest
    else if inside then line :: quoteItems list rest
    else line :: quoteItems (if opensParameters t then some indent else none) rest

/-- The annotation with the items of its parameter lists quoted. -/
def escapeParameterLists (t : Text) : Text := Lines.toText (quoteItems none (Text.split '\n' t))

end TemplateDocs.Metadata
