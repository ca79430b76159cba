import TemplateDocs.Json.Value

/-!
# Writing JSON

The compact form and the form with one entry per line, indented by two blanks.
-/
namespace TemplateDocs.Json

/-- Numbers are positional from `0.00001` up to sixteen digits before the point. -/
def numberLayout : Decimal.Layout := ⟨-5, 16, true⟩

def Number.write : Number → Text
  | .int i => Text.ofInt i
  | .float x =>
    match Decimal.Binary.ofFloat? x with
    | some b => numberLayout.write b
    | none => "null".toList

def hexDigit (n : Nat) : Char := (Nat.digitChar n)

/-- Quotes, backslashes and control characters are escaped; all else stands for itself. -/
def escapeChar (c : Char) : Text :=
  if c = '"' then ['\\', '"']
  else if c = '\\' then ['\\', '\\']
  else if c = '\n' then ['\\', 'n']
  else if c = '\r' then ['\\', 'r']
  else if c = '\t' then ['\\', 't']
  else if c = '\x08' then ['\\', 'b']
  else if c = '\x0c' then ['\\', 'f']
  else if c.toNat < 32 then ['\\', 'u', '0', '0', hexDigit (c.toNat / 16), hexDigit (c.toNat % 16)]
  else [c]

def quote (s : Text) : Text := '"' :: (s.flatMap escapeChar ++ ['"'])

def scalar : Value → Text
  | .null => "null".toList
  | .bool true => "true".toList
  | .bool false => "false".toList
  | .number n => n.write
  | .string s => quote s
  | .array _ | .object _ => []

mutual

def compact : Value → Text
  | .null => scalar .null
  | .bool b => scalar (.bool b)
  | .number n => scalar (.number n)
  | .string s => scalar (.string s)
  | .array items => '[' :: (Text.join [','] (compactItems items) ++ [']'])
  | .object fields => '\x7b' :: (Text.join [','] (compactFields fields) ++ ['\x7d'])

def compactItems : List Value → List Text
  | [] => []
  | v :: rest => compact v :: compactItems rest

def compactFields : List (Text × Value) → List Text
  | [] => []
  | (k, v) :: rest => (quote k ++ ':' :: compact v) :: compactFields rest

end

/-- A line break and the indentation of the given depth. -/
def newline (depth : Nat) : Text := '\n' :: List.replicate (2 * depth) ' '

/-- Entries between brackets, one to a line; no entries leave the brackets together. -/
def bracketed (opening closing : Char) (depth : Nat) (entries : List Text) : Text :=
  if entries.isEmpty then [opening, closing]
  else
    opening :: (newline (depth + 1) ++ Text.join (',' :: newline (depth + 1)) entries
      ++ newline depth ++ [closing])

mutual

def prettyAt (depth : Nat) : Value → Text
  | .null => scalar .null
  | .bool b => scalar (.bool b)
  | .number n => scalar (.number n)
  | .string s => scalar (.string s)
  | .array items => bracketed '[' ']' depth (prettyItems (depth + 1) items)
  | .object fields => bracketed '\x7b' '\x7d' depth (prettyFields (depth + 1) fields)

def prettyItems (depth : Nat) : List Value → List Text
  | [] => []
  | v :: rest => prettyAt depth v :: prettyItems depth rest

def prettyFields (depth : Nat) : List (Text × Value) → List Text
  | [] => []
  | (k, v) :: rest => (quote k ++ ':' :: ' ' :: prettyAt depth v) :: prettyFields depth rest

end

def pretty (v : Value) : Text := prettyAt 0 v

end TemplateDocs.Json
