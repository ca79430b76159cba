import TemplateDocs.Json.Value
import TemplateDocs.Jinja.Fault

/-!
# Values of Jinja templates

The values that expressions work on. An undefined value is what a missing name stands for; it prints
as nothing and counts as false.
-/
namespace TemplateDocs.Jinja

inductive Value where
  | undefined
  | none_
  | bool (b : Bool)
  | int (i : Int)
  | float (x : Float)
  | string (s : Text)
  | list (items : List Value)
  | map (entries : List (Text × Value))

instance : Inhabited Value := ⟨.undefined⟩

mutual

def ofJson : Json.Value → Value
  | .null => .none_
  | .bool b => .bool b
  | .number (.int i) => .int i
  | .number (.float x) => .float x
  | .string s => .string s
  | .array items => .list (ofJsonItems items)
  | .object fields => .map (ofJsonFields fields)

def ofJsonItems : List Json.Value → List Value
  | [] => []
  | v :: rest => ofJson v :: ofJsonItems rest

def ofJsonFields : List (Text × Json.Value) → List (Text × Value)
  | [] => []
  | (k, v) :: rest => (k, ofJson v) :: ofJsonFields rest

end

/-- The kinds of values; values of different kinds are ordered as the kinds are. -/
inductive Kind where
  | undefined | none_ | bool | number | string | list | map
  deriving DecidableEq, Repr

def Kind.rank : Kind → Nat
  | .undefined => 0
  | .none_ => 1
  | .bool => 2
  | .number => 3
  | .string => 4
  | .list => 5
  | .map => 6

def Kind.name : Kind → Text
  | .undefined => "undefined".toList
  | .none_ => "none".toList
  | .bool => "bool".toList
  | .number => "number".toList
  | .string => "string".toList
  | .list => "sequence".toList
  | .map => "map".toList

namespace Value

def kind : Value → Kind
  | .undefined => .undefined
  | .none_ => .none_
  | .bool _ => .bool
  | .int _ | .float _ => .number
  | .string _ => .string
  | .list _ => .list
  | .map _ => .map

def isUndefined (v : Value) : Bool := v.kind = .undefined

/-- Empty and zero values are false, all others true. -/
def isTrue : Value → Bool
  | .undefined | .none_ => false
  | .bool b => b
  | .int i => i ≠ 0
  | .float x => x != 0
  | .string s => !s.isEmpty
  | .list items => !items.isEmpty
  | .map entries => !entries.isEmpty

/-! ## Printing -/

/-- A number that is printed alone never has an exponent. -/
def aloneLayout : Decimal.Layout := ⟨-400, 400, false⟩

/-- A number inside a list or map. -/
def insideLayout : Decimal.Layout := ⟨-5, 16, false⟩

def showFloat (layout : Decimal.Layout) (x : Float) : Text :=
  match Decimal.Binary.ofFloat? x with
  | some b => layout.write b
  | none => if x.isNaN then "NaN".toList else if x < 0 then "-inf".toList else "inf".toList

/-- Characters that are printed by their number inside a quoted string. -/
def isUnprintable (c : Char) : Bool :=
  let n := c.toNat
  n < 32 || (0x7F ≤ n && n < 0xA0) || n == 0xAD || (0x200B ≤ n && n ≤ 0x200F)
    || (0x2028 ≤ n && n ≤ 0x202E) || (0x2060 ≤ n && n ≤ 0x206F) || n == 0xFEFF

def hex (n : Nat) : Text := Nat.toDigits 16 n

def quoteChar (c : Char) : Text :=
  if c = '"' ∨ c = '\\' then ['\\', c]
  else if c = '\n' then ['\\', 'n']
  else if c = '\r' then ['\\', 'r']
  else if c = '\t' then ['\\', 't']
  else if c.toNat = 0 then ['\\', '0']
  else if isUnprintable c then "\\u\x7b".toList ++ hex c.toNat ++ ['\x7d']
  else [c]

def quote (s : Text) : Text := '"' :: s.flatMap quoteChar ++ ['"']

def showBool (b : Bool) : Text := if b then "True".toList else "False".toList

mutual

/-- A value inside a list or map. -/
def showInside : Value → Text
  | .undefined => "undefined".toList
  | .none_ => "None".toList
  | .bool b => showBool b
  | .int i => Text.ofInt i
  | .float x => showFloat insideLayout x
  | .string s => quote s
  | .list items => '[' :: Text.join ", ".toList (showItems items) ++ [']']
  | .map entries => '\x7b' :: Text.join ", ".toList (showEntries entries) ++ ['\x7d']

def showItems : List Value → List Text
  | [] => []
  | v :: rest => showInside v :: showItems rest

def showEntries : List (Text × Value) → List Text
  | [] => []
  | (k, v) :: rest => (quote k ++ ": ".toList ++ showInside v) :: showEntries rest

end

def toText : Value → Text
  | .undefined => []
  | .float x => showFloat aloneLayout x
  | .string s => s
  | v => showInside v

/-! ## Numbers -/

/-- Integers stay within 128 bits. -/
def inRange (i : Int) : Bool := -(twoTo 127 : Int) ≤ i && i < twoTo 127

def floatOfInt (i : Int) : Float := Decimal.nearest (decide (i < 0)) i.natAbs 0

/-- Booleans count as zero and one. -/
def toInt? : Value → Option Int
  | .bool b => some (if b then 1 else 0)
  | .int i => some i
  | _ => none

def toFloat? : Value → Option Float
  | .float x => some x
  | v => v.toInt?.map floatOfInt

/-- The common form of two values on which an operator works. -/
inductive Pair where
  | ints (a b : Int)
  | floats (a b : Float)
  | strings (a b : Text)

def pair? (a b : Value) : Option Pair :=
  match a, b with
  | .string s, .string t => some (.strings s t)
  | .float _, _ | _, .float _ => do return .floats (← a.toFloat?) (← b.toFloat?)
  | _, _ => do return .ints (← a.toInt?) (← b.toInt?)

/-! ## Comparison -/

/-- A number that orders doubles from the negative ones up, zeros by their sign. -/
def orderKey (x : Float) : Int :=
  let n := x.toBits.toNat
  if n < twoTo 63 then n else -((n : Int) - twoTo 63) - 1

mutual

def equals : Value → Value → Bool
  | .undefined, .undefined => true
  | .none_, .none_ => true
  | .list as, .list bs => equalsAll as bs
  | .map as, .map bs => as.length == bs.length && equalsEntries as bs
  | a, b =>
    match pair? a b with
    | some (.ints x y) => x = y
    | some (.floats x y) => x == y
    | some (.strings s t) => s = t
    | none => false

def equalsAll : List Value → List Value → Bool
  | [], [] => true
  | a :: as, b :: bs => equals a b && equalsAll as bs
  | _, _ => false

/-- Both lists are sorted by key. -/
def equalsEntries : List (Text × Value) → List (Text × Value) → Bool
  | [], _ => true
  | _ :: _, [] => false
  | (k, a) :: as, (l, b) :: bs => k = l && equals a b && equalsEntries as bs

end

def compareText (s t : Text) : Ordering :=
  if s = t then .eq else if Text.precedes s t then .lt else .gt

mutual

def compare : Value → Value → Ordering
  | .list as, .list bs => compareAll as bs
  | .map as, .map bs => compareEntries as bs
  | a, b =>
    if a.kind ≠ b.kind then Ord.compare a.kind.rank b.kind.rank
    else
      match pair? a b with
      | some (.ints x y) => Ord.compare x y
      | some (.floats x y) => Ord.compare (orderKey x) (orderKey y)
      | some (.strings s t) => compareText s t
      | none => .eq

def compareAll : List Value → List Value → Ordering
  | [], [] => .eq
  | [], _ :: _ => .lt
  | _ :: _, [] => .gt
  | a :: as, b :: bs => (compare a b).then (compareAll as bs)

def compareEntries : List (Text × Value) → List (Text × Value) → Ordering
  | [], [] => .eq
  | [], _ :: _ => .lt
  | _ :: _, [] => .gt
  | (k, a) :: as, (l, b) :: bs => (compareText k l).then ((compare a b).then (compareEntries as bs))

end

/-! ## Parts -/

def lookup? (key : Text) : List (Text × Value) → Option Value
  | [] => none
  | (k, v) :: rest => if k = key then some v else lookup? key rest

/-- Puts an entry at its place in the order of keys. -/
def insertEntry (key : Text) (v : Value) : List (Text × Value) → List (Text × Value)
  | [] => [(key, v)]
  | (k, w) :: rest =>
    if k = key then (key, v) :: rest
    else if Text.precedes key k then (key, v) :: (k, w) :: rest
    else (k, w) :: insertEntry key v rest

/-- The attribute of a value; only maps have some. -/
def attribute? (name : Text) : Value → Option Value
  | .map entries => lookup? name entries
  | _ => none

/-- A position counted from the front, or from the end if negative. -/
def position? (length : Nat) (i : Int) : Option Nat :=
  if 0 ≤ i then some i.toNat
  else if i.natAbs ≤ length then some (length - i.natAbs)
  else none

def wholeNumber? : Value → Option Int
  | .float x =>
    (Decimal.Binary.ofFloat? x).bind fun b =>
      let m := b.significand * twoTo b.exponent.toNat
      let d := twoTo (-b.exponent).toNat
      if m % d = 0 then some (if b.negative then -((m / d : Nat) : Int) else ((m / d : Nat) : Int))
      else none
  | v => v.toInt?

/-- The part of a value under an index. -/
def item? (v index : Value) : Option Value :=
  match v, index with
  | .map entries, .string key => lookup? key entries
  | .list items, i => do
    let n ← position? items.length (← i.wholeNumber?)
    items[n]?
  | .string s, i => do
    let n ← position? s.length (← i.wholeNumber?)
    return .string [← s[n]?]
  | _, _ => none

def length? : Value → Option Nat
  | .string s => some s.length
  | .list items => some items.length
  | .map entries => some entries.length
  | _ => none

/-- What a loop over the value runs through. -/
def items? : Value → Option (List Value)
  | .undefined | .none_ => some []
  | .string s => some (s.map fun c => .string [c])
  | .list items => some items
  | .map entries => some (entries.map fun (k, _) => .string k)
  | _ => none

/-- Whether a container holds a value. -/
def holds (container v : Value) : Except Cause Bool :=
  match container with
  | .undefined => .ok false
  | .string s => .ok (Text.contains v.toText s)
  | .list items => .ok (items.any fun item => item.equals v)
  | .map entries =>
    match v with
    | .string key => .ok (lookup? key entries).isSome
    | _ => .ok false
  | _ => .error .notContainer

/-! ## Arithmetic -/

def checked (op : Text) (a b : Value) (result : Int) : Except Cause Value :=
  if inRange result then .ok (.int result) else .error (.overflow a.toText op b.toText)

def unsupported (op : Text) (a b : Value) : Cause := .unsupported op a.kind.name b.kind.name

def add (a b : Value) : Except Cause Value :=
  match a, b with
  | .list as, .list bs => .ok (.list (as ++ bs))
  | _, _ =>
    match pair? a b with
    | some (.ints x y) => checked ['+'] a b (x + y)
    | some (.floats x y) => .ok (.float (x + y))
    | some (.strings s t) => .ok (.string (s ++ t))
    | none => .error (unsupported ['+'] a b)

def subtract (a b : Value) : Except Cause Value :=
  match pair? a b with
  | some (.ints x y) => checked ['-'] a b (x - y)
  | some (.floats x y) => .ok (.float (x - y))
  | some (.strings _ _) | none => .error (unsupported ['-'] a b)

/-- A text several times over. -/
def repeated (s : Text) (count : Value) : Except Cause Value :=
  match count.wholeNumber? with
  | some n =>
    if 0 ≤ n then .ok (.string (List.replicate n.toNat s).flatten) else .error .badRepetition
  | none => .error .badRepetition

def multiply (a b : Value) : Except Cause Value :=
  match a, b with
  | .string s, n => repeated s n
  | n, .string s => repeated s n
  | _, _ =>
    match pair? a b with
    | some (.ints x y) => checked ['*'] a b (x * y)
    | some (.floats x y) => .ok (.float (x * y))
    | some (.strings _ _) | none => .error (unsupported ['*'] a b)

/-- Division always gives a double. -/
def divide (a b : Value) : Except Cause Value :=
  match a.toFloat?, b.toFloat? with
  | some x, some y => .ok (.float (x / y))
  | _, _ => .error (unsupported ['/'] a b)

def negate : Value → Except Cause Value
  | .int i => .ok (.int (-i))
  | .float x => .ok (.float (-x))
  | _ => .error .notNumber

end Value
end TemplateDocs.Jinja
