import TemplateDocs.Outline.Quoted

/-!
# What can be wrong with an outline
-/
namespace TemplateDocs.Outline

inductive Fault where
  | contentAfterDocument
  | unexpectedIndent
  | expectedEntry
  | duplicateKey (key : Text)
  | unterminatedQuote
  | afterQuoted (trailing : Text)
  | unterminatedFlow
  | afterFlow (trailing : Text)
  | expectedItemEnd
  | expectedFieldEnd
  | expectedKey
  | badScalarHeader (header : Text)
  | escape (quoted : Text) (error : EscapeError)
  deriving DecidableEq, Repr

def Fault.message : Fault → Text
  | .contentAfterDocument => "unexpected content after the document".toList
  | .unexpectedIndent => "unexpected indentation".toList
  | .expectedEntry => "expected a `key: value` entry".toList
  | .duplicateKey key => "duplicate key `".toList ++ key ++ ['`']
  | .unterminatedQuote => "unterminated quoted scalar".toList
  | .afterQuoted trailing => "unexpected `".toList ++ trailing ++ "` after quoted scalar".toList
  | .unterminatedFlow => "unterminated flow collection".toList
  | .afterFlow trailing => "unexpected `".toList ++ trailing ++ "` after flow collection".toList
  | .expectedItemEnd => "expected `,` or `]` in flow sequence".toList
  | .expectedFieldEnd => "expected `,` or `\x7d` in flow mapping".toList
  | .expectedKey => "expected a key in flow mapping".toList
  | .badScalarHeader header => "invalid block scalar header `".toList ++ header ++ ['`']
  | .escape quoted error =>
    "invalid escape sequence in ".toList ++ quoted ++ ": ".toList ++ error.message quoted

/-- A fault and the number of the line it is about. -/
structure ReadError where
  line : Nat
  fault : Fault
  deriving DecidableEq, Repr

/-- The text a quoted scalar stands for, or the fault of an escape in it. -/
def unquoted (quoted : Text) : Except Fault Text :=
  match unquote quoted with
  | .ok s => .ok s
  | .error e => .error (.escape quoted e)

end TemplateDocs.Outline
