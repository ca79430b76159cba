import TemplateDocs.Json.Value

/-!
# Plain scalars

A scalar without quotes ends before a comment. Its text decides whether it is null, a boolean, a
number or a string.
-/
namespace TemplateDocs.Outline

open Json (Value Number)

def isGap (c : Char) : Bool := c = ' ' || c = '\t'

def beforeComment (gap : Bool) : Text → Text
  | [] => []
  | c :: t => if c = '#' ∧ gap then [] else c :: beforeComment (isGap c) t

/-- The text before a `#` that stands at the start or after a blank or tab. -/
def stripComment (t : Text) : Text := beforeComment true t

def nullWords : List Text := ["", "~", "null", "Null", "NULL"].map String.toList

def trueWords : List Text := ["true", "True", "TRUE"].map String.toList

def falseWords : List Text := ["false", "False", "FALSE"].map String.toList

/-- Integers outside 64 bits are not integers of the notation. -/
def smallInteger? (t : Text) : Option Int :=
  (Text.integer? 10 t).bind fun i => if -(twoTo 63 : Int) ≤ i ∧ i < twoTo 63 then some i else none

def isNumeric (t : Text) : Bool :=
  t.all (fun c => Text.isDigit c || c = '.' || c = '-' || c = '+' || c = 'e' || c = 'E')
    && t.any Text.isDigit

def float? (t : Text) : Option Number :=
  if isNumeric t then (Decimal.parse? t).bind fun d => Number.ofFloat? d.toFloat else none

/-- The value of a plain scalar. -/
def resolve (t : Text) : Value :=
  if nullWords.contains t then .null
  else if trueWords.contains t then .bool true
  else if falseWords.contains t then .bool false
  else
    match smallInteger? t with
    | some i => .number (.int i)
    | none =>
      match float? t with
      | some n => .number n
      | none => .string t

end TemplateDocs.Outline
