import TemplateDocs.Power
import TemplateDocs.Text.Basic

/-!
# Doubles as binary fractions

A finite double is `significand * 2 ^ exponent`. `nearest` rounds a ratio of naturals to a double in
exact arithmetic, a half going to the even neighbour, and `parse?` reads a written decimal.
-/
namespace TemplateDocs.Decimal

structure Binary where
  negative : Bool
  significand : Nat
  exponent : Int
  deriving DecidableEq, Repr

/-- The parts of a finite double; infinities and NaN have none. -/
def Binary.ofFloat? (x : Float) : Option Binary :=
  let bits := x.toBits.toNat
  let negative := bits / twoTo 63 == 1
  let field : Nat := bits / twoTo 52 % twoTo 11
  let fraction : Nat := bits % twoTo 52
  if field = 2047 then none
  else if field = 0 then some ⟨negative, fraction, -1074⟩
  else some ⟨negative, fraction + twoTo 52, (field : Int) - 1075⟩

def isFinite (x : Float) : Bool := (Binary.ofFloat? x).isSome

/-- The quotient rounded to the nearest natural, a half to the even one. -/
def roundDiv (num den : Nat) : Nat :=
  let q := num / den
  let twice := 2 * (num % den)
  if twice > den ∨ (twice = den ∧ q % 2 = 1) then q + 1 else q

/-- `num / den` scaled by `2 ^ -exponent`, as a ratio again. -/
def scaled (num den : Nat) (exponent : Int) : Nat × Nat :=
  if exponent < 0 then (num * twoTo exponent.natAbs, den) else (num, den * twoTo exponent.natAbs)

/-- The bits, sign apart, of the double nearest to a positive ratio. -/
def nearestBits (num den : Nat) : Nat :=
  let guess : Int := (num.log2 : Int) - den.log2 - 53
  let (n, d) := scaled num den guess
  let exponent := max (if n / d < twoTo 53 then guess else guess + 1) (-1074)
  let (n, d) := scaled num den exponent
  let m := roundDiv n d
  if m < twoTo 52 then m
  else if exponent + 1075 ≥ 2047 then 2047 * twoTo 52
  else min ((exponent + 1075).toNat * twoTo 52 + (m - twoTo 52)) (2047 * twoTo 52)

/-- The double nearest to `coefficient * 10 ^ exponent`. -/
def nearest (negative : Bool) (coefficient : Nat) (exponent : Int) : Float :=
  let magnitude : Int := (Text.ofNat coefficient).length + exponent
  let bits :=
    if coefficient = 0 ∨ magnitude < -400 then 0
    else if magnitude > 400 then 2047 * twoTo 52
    else if exponent < 0 then nearestBits coefficient (tenTo exponent.natAbs)
    else nearestBits (coefficient * tenTo exponent.natAbs) 1
  Float.ofBits (UInt64.ofNat (if negative then twoTo 63 + bits else bits))

/-- A decimal as it is written: sign, all digits as one number, and a power of ten. -/
structure Written where
  negative : Bool
  coefficient : Nat
  exponent : Int
  deriving DecidableEq, Repr

def Written.toFloat (w : Written) : Float := nearest w.negative w.coefficient w.exponent

def unsigned? (negative : Bool) (t : Text) : Option Written := do
  let whole := t.takeWhile Text.isDigit
  let rest := t.dropWhile Text.isDigit
  let (fraction, rest) :=
    match rest with
    | '.' :: r => (r.takeWhile Text.isDigit, r.dropWhile Text.isDigit)
    | _ => ([], rest)
  let coefficient ← Text.digits? 10 (whole ++ fraction)
  let exponent ←
    match rest with
    | [] => some 0
    | c :: r => if c = 'e' ∨ c = 'E' then Text.integer? 10 r else none
  return ⟨negative, coefficient, exponent - fraction.length⟩

/-- Reads digits with an optional sign, point and exponent; some digit must stand before the
exponent, on either side of the point. -/
def parse? : Text → Option Written
  | '-' :: t => unsigned? true t
  | '+' :: t => unsigned? false t
  | t => unsigned? false t

end TemplateDocs.Decimal
