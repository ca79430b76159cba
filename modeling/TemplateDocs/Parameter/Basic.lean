import TemplateDocs.Parameter.Type
import TemplateDocs.Text.Word

/-!
# Parameters

An entry of a parameter list: a type in braces, a name, and a description. A name in square brackets
is optional and may carry a default.
-/
namespace TemplateDocs

structure Parameter where
  name : Text
  description : Text
  names : Parameter.Names
  default : Option Text
  nullable : Bool
  optional : Bool
  /-- The entry as it was written. -/
  written : Text
  deriving DecidableEq, Repr

namespace Parameter

inductive Fault where
  | unterminatedType
  | unterminatedName
  | missingName
  | type (fault : TypeFault)
  | notText
  deriving DecidableEq, Repr

def Fault.message : Fault → Text
  | .unterminatedType => "unterminated type annotation".toList
  | .unterminatedName => "unterminated optional parameter name".toList
  | .missingName => "missing parameter name".toList
  | .type fault => fault.message
  | .notText => "expected a text entry".toList

/-- An entry that is no parameter, and why. -/
structure Rejection where
  text : Text
  fault : Fault
  deriving DecidableEq, Repr

def Rejection.message (r : Rejection) : Text :=
  "invalid parameter annotation `".toList ++ r.text ++ "`: ".toList ++ r.fault.message

def isNameStart (c : Char) : Bool := Text.isWordChar c || c = '_' || c = '$'

def isNameChar (c : Char) : Bool := Text.isWordChar c || c = '_' || c = '-' || c = '.' || c = '$'

/-- The text up to the brace that closes `depth` open ones, and what follows the brace. -/
def bracedType? : Nat → Text → Option (Text × Text)
  | _, [] => none
  | depth, c :: t =>
    if c = '\x7b' then (bracedType? (depth + 1) t).map fun (s, r) => (c :: s, r)
    else if c = '\x7d' then
      if depth ≤ 1 then some ([], t) else (bracedType? (depth - 1) t).map fun (s, r) => (c :: s, r)
    else (bracedType? depth t).map fun (s, r) => (c :: s, r)

/-- The type in braces at the front, if there is one, and what follows it. -/
def splitType (t : Text) : Except Fault (Option Text × Text) :=
  match t with
  | '\x7b' :: r =>
    match bracedType? 1 r with
    | some (inner, rest) => .ok (some inner, rest)
    | none => .error .unterminatedType
  | _ => .ok (none, t)

structure Named where
  name : Text
  default : Option Text
  bracketed : Bool
  rest : Text

/-- The name at the front, with the default that its brackets may hold. -/
def splitName (t : Text) : Except Fault Named :=
  match t with
  | '[' :: r =>
    match Text.cut? [']'] r with
    | none => .error .unterminatedName
    | some (inner, rest) =>
      match Text.cut? ['='] inner with
      | some (name, value) => .ok ⟨Text.trim name, some (Text.trim value), true, rest⟩
      | none => .ok ⟨Text.trim inner, none, true, rest⟩
  | _ => .ok ⟨t.takeWhile isNameChar, none, false, t.dropWhile isNameChar⟩

/-- The description, after an optional dash. -/
def descriptionOf (rest : Text) : Text :=
  match Text.trimStart rest with
  | '-' :: r => Text.trim r
  | r => Text.trim r

def typeOf : Option Text → Except Fault TypeInfo
  | none => .ok (.named [])
  | some t =>
    match readType t with
    | .ok info => .ok info
    | .error fault => .error (.type fault)

def parseTrimmed (t : Text) : Except Fault Parameter := do
  let (type, rest) ← splitType t
  let named ← splitName (Text.trimStart rest)
  if !(named.name.head?.map isNameStart).getD false then throw .missingName
  let info ← typeOf type
  return {
    name := named.name
    description := descriptionOf named.rest
    names := info.names
    default := named.default
    nullable := info.nullable
    optional := info.optional || named.bracketed
    written := t }

/-- Reads one entry. -/
def parse (t : Text) : Except Rejection Parameter :=
  match parseTrimmed (Text.trim t) with
  | .ok p => .ok p
  | .error fault => .error ⟨Text.trim t, fault⟩

end Parameter
end TemplateDocs
