import TemplateDocs.Decimal.Double

/-!
# Shortest decimals

`shortest` gives the fewest digits that read back as the same double, and of those the nearest. A
`Layout` says where positional writing ends.
-/
namespace TemplateDocs.Decimal

/-- A positive double between the two ends of the interval that rounds to it, all three over one
denominator. The ends belong to the interval when the significand is even. -/
structure Interval where
  low : Nat
  value : Nat
  high : Nat
  den : Nat
  closed : Bool

def Interval.of (significand : Nat) (exponent : Int) : Interval :=
  let low := if significand = twoTo 52 ∧ exponent > -1074 then 4 * significand - 1 else 4 * significand - 2
  let (up, den) := scaled 1 1 (2 - exponent)
  ⟨low * up, 4 * significand * up, (4 * significand + 2) * up, den, significand % 2 == 0⟩

/-- Both sides of a comparison between `c * 10 ^ k` and `x / den`, cleared of fractions. -/
def sides (c : Nat) (k : Int) (x den : Nat) : Nat × Nat :=
  if k < 0 then (c * den, x * tenTo k.natAbs) else (c * tenTo k.natAbs * den, x)

def Interval.holds (i : Interval) (c : Nat) (k : Int) : Bool :=
  let (a, low) := sides c k i.low i.den
  let (b, high) := sides c k i.high i.den
  if i.closed then low ≤ a && b ≤ high else low < a && b < high

/-- How often a ratio below one is multiplied by ten to reach one. -/
def tensToOne (num den : Nat) : Nat → Nat
  | 0 => 0
  | fuel + 1 => if num ≥ den then 0 else tensToOne (num * 10) den fuel + 1

/-- The decimal exponent of a positive ratio. -/
def order (num den : Nat) : Int :=
  if num ≥ den then (Text.ofNat (num / den)).length - 1 else -(tensToOne num den 400 : Int)

/-- The point of the grid `10 ^ k` nearest to the value, among the two around it that read back. -/
def Interval.onGrid (i : Interval) (k : Int) : Option Nat :=
  let (num, den) := if k < 0 then (i.value * tenTo k.natAbs, i.den) else (i.value, i.den * tenTo k.natAbs)
  let c := num / den
  match i.holds c k && c != 0, i.holds (c + 1) k with
  | true, true =>
    let twice := 2 * (num % den)
    some (if twice < den ∨ (twice = den ∧ c % 2 = 0) then c else c + 1)
  | true, false => some c
  | false, true => some (c + 1)
  | false, false => none

def dropZeros : Nat → Nat → Int → Nat × Int
  | 0, c, k => (c, k)
  | fuel + 1, c, k => if c % 10 = 0 then dropZeros fuel (c / 10) (k + 1) else (c, k)

def search (i : Interval) (top : Int) : Nat → Nat → Nat × Int
  | 0, _ => (0, 0)
  | fuel + 1, places =>
    let k := top - places
    match i.onGrid k with
    | some c => dropZeros 400 c k
    | none => search i top fuel (places + 1)

/-- The shortest coefficient and power of ten for a positive significand. -/
def shortest (significand : Nat) (exponent : Int) : Nat × Int :=
  let i := Interval.of significand exponent
  search i (order i.value i.den) 20 0

/-- Decimal exponents from `lowest` on and below `limit` are written positionally. A positive
exponent has a plus sign if `plus` says so. -/
structure Layout where
  lowest : Int
  limit : Int
  plus : Bool
  deriving DecidableEq, Repr

def positional (digits : Text) (e : Int) : Text :=
  if e < 0 then '0' :: '.' :: List.replicate (e.natAbs - 1) '0' ++ digits
  else
    let whole := e.natAbs + 1
    if digits.length ≤ whole then
      digits ++ List.replicate (whole - digits.length) '0' ++ ['.', '0']
    else digits.take whole ++ '.' :: digits.drop whole

def scientific (plus : Bool) (digits : Text) (e : Int) : Text :=
  let mantissa :=
    match digits with
    | d :: r@(_ :: _) => d :: '.' :: r
    | _ => digits
  let sign := if e < 0 then ['-'] else if plus then ['+'] else []
  mantissa ++ 'e' :: sign ++ Text.ofNat e.natAbs

/-- A finite double in its shortest form, always with a point or an exponent. -/
def Layout.write (layout : Layout) (b : Binary) : Text :=
  let body :=
    if b.significand = 0 then ['0', '.', '0']
    else
      let (c, k) := shortest b.significand b.exponent
      let digits := Text.ofNat c
      let e := k + digits.length - 1
      if layout.lowest ≤ e ∧ e < layout.limit then positional digits e
      else scientific layout.plus digits e
  if b.negative then '-' :: body else body

end TemplateDocs.Decimal
