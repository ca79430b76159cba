import TemplateDocs.Text.Basic

/-!
# Faults of Jinja templates

A template fails when it is read or when it is rendered. Either way the fault names a line.
-/
namespace TemplateDocs.Jinja

inductive Cause where
  /-- The template ends where something else is expected. -/
  | endOfInput (expected : Text)
  | unexpected (found : Text)
  | mismatch (found expected : Text)
  | notStatement (found : Text)
  | unknownStatement (name : Text)
  | reservedName (name : Text)
  /-- A comment, raw block or string without an end. -/
  | unclosed (what : Text)
  | badCharacter
  | badNumber
  | numberTooLarge
  | openNumber
  | badEscape
  | emptySubscript
  | undefinedValue
  | unknownFilter (name : Text)
  | unknownTest (name : Text)
  | unknownFunction (name : Text)
  | unknownMethod (kind name : Text)
  | notCallable (kind : Text)
  | unsupported (operator left right : Text)
  /-- A result beyond the range of integers. -/
  | overflow (left operator right : Text)
  | notNumber
  | badRepetition
  | notContainer
  | notIterable (kind : Text)
  | noLength (kind : Text)
  | notJoinable (kind : Text)
  | notSequence
  | wrongLength (expected actual : Nat)
  | tooManyArguments
  | missingArgument
  deriving DecidableEq, Repr

def syntaxError (detail : Text) : Text := "syntax error: ".toList ++ detail

def invalidOperation (detail : Text) : Text := "invalid operation: ".toList ++ detail

def Cause.message : Cause → Text
  | .endOfInput expected =>
    syntaxError ("unexpected end of input, expected ".toList ++ expected)
  | .unexpected found => syntaxError ("unexpected ".toList ++ found)
  | .mismatch found expected =>
    syntaxError ("unexpected ".toList ++ found ++ ", expected ".toList ++ expected)
  | .notStatement found => syntaxError ("unknown ".toList ++ found ++ ", expected statement".toList)
  | .unknownStatement name => syntaxError ("unknown statement ".toList ++ name)
  | .reservedName name => syntaxError ("cannot assign to reserved variable name ".toList ++ name)
  | .unclosed what => syntaxError ("unexpected end of ".toList ++ what)
  | .badCharacter => syntaxError "unexpected character".toList
  | .badNumber => syntaxError "invalid float".toList
  | .numberTooLarge => syntaxError "invalid integer (too large)".toList
  | .openNumber => syntaxError "'_' may not occur at end of number".toList
  | .badEscape => "bad string escape".toList
  | .emptySubscript => syntaxError "empty subscript".toList
  | .undefinedValue => "undefined value".toList
  | .unknownFilter name => "unknown filter: filter ".toList ++ name ++ " is unknown".toList
  | .unknownTest name => "unknown test: test ".toList ++ name ++ " is unknown".toList
  | .unknownFunction name => "unknown function: ".toList ++ name ++ " is unknown".toList
  | .unknownMethod kind name =>
    "unknown method: ".toList ++ kind ++ " has no method named ".toList ++ name
  | .notCallable kind =>
    invalidOperation ("value of type ".toList ++ kind ++ " is not callable".toList)
  | .unsupported operator left right =>
    invalidOperation ("tried to use ".toList ++ operator ++ " operator on unsupported types ".toList
      ++ left ++ " and ".toList ++ right)
  | .overflow left operator right =>
    invalidOperation ("unable to calculate ".toList ++ left ++ ' ' :: operator ++ ' ' :: right)
  | .notNumber => "invalid operation".toList
  | .badRepetition => invalidOperation "strings can only be multiplied with integers".toList
  | .notContainer =>
    invalidOperation "cannot perform a containment check on this value".toList
  | .notIterable kind => invalidOperation (kind ++ " is not iterable".toList)
  | .noLength kind =>
    invalidOperation ("cannot calculate length of value of type ".toList ++ kind)
  | .notJoinable kind => invalidOperation ("cannot join value of type ".toList ++ kind)
  | .notSequence => "cannot unpack: not a sequence".toList
  | .wrongLength expected actual =>
    "cannot unpack: sequence of wrong length (expected ".toList ++ Text.ofNat expected
      ++ ", got ".toList ++ Text.ofNat actual ++ [')']
  | .tooManyArguments => "too many arguments".toList
  | .missingArgument => "missing argument".toList

structure Fault where
  cause : Cause
  line : Nat
  deriving DecidableEq, Repr

def Fault.message (file : Text) (f : Fault) : Text :=
  f.cause.message ++ " (in ".toList ++ file ++ ':' :: Text.ofNat f.line ++ [')']

end TemplateDocs.Jinja
