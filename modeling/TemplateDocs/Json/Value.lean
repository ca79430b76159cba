import TemplateDocs.Decimal.Shortest

/-!
# JSON values

The dynamic values of the library: what annotations, configuration and data files hold, and what
is written out. The fields of a value that was read are sorted by key without repetition; a record
that is about to be written may list its fields in an order of its own.
-/
namespace TemplateDocs.Json

inductive Number where
  | int (i : Int)
  | float (x : Float)

inductive Value where
  | null
  | bool (b : Bool)
  | number (n : Number)
  | string (s : Text)
  | array (items : List Value)
  | object (fields : List (Text × Value))

abbrev Fields := List (Text × Value)

instance : Inhabited Value := ⟨.null⟩

namespace Fields

def get? (key : Text) : Fields → Option Value
  | [] => none
  | (k, v) :: rest => if k = key then some v else get? key rest

def has (key : Text) (fields : Fields) : Bool := (fields.get? key).isSome

/-- Puts an entry at its place in the order of keys, replacing an entry of the same key. -/
def insert (key : Text) (value : Value) : Fields → Fields
  | [] => [(key, value)]
  | (k, v) :: rest =>
    if k = key then (key, value) :: rest
    else if Text.precedes key k then (key, value) :: (k, v) :: rest
    else (k, v) :: insert key value rest

def erase (key : Text) : Fields → Fields
  | [] => []
  | (k, v) :: rest => if k = key then erase key rest else (k, v) :: erase key rest

/-- The entries of `upper` on top of those of `lower`. -/
def overlay (lower upper : Fields) : Fields :=
  upper.foldl (fun acc (k, v) => insert k v acc) lower

def ofList (entries : List (Text × Value)) : Fields := overlay [] entries

end Fields

/-- A finite double as a number; there is no number for NaN and the infinities. -/
def Number.ofFloat? (x : Float) : Option Number :=
  if Decimal.isFinite x then some (.float x) else none

def Value.ofNat (n : Nat) : Value := .number (.int n)

def Value.text (s : String) : Value := .string s.toList

end TemplateDocs.Json
