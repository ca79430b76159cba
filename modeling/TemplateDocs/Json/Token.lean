import TemplateDocs.Json.Value

/-!
# JSON tokens

A text is JSON's tokens with blanks between them. A number without fraction and exponent that fits
64 bits is an integer. Any other is a double, computed from its first twenty digits or so by one
multiplication or division with a power of ten.
-/
namespace TemplateDocs.Json

inductive Token where
  | openArray | closeArray | openObject | closeObject | comma | colon
  | scalar (v : Value)

/-- A string is kept apart from other scalars where it can be a key. -/
def Token.string? : Token → Option Text
  | .scalar (.string s) => some s
  | _ => none

def hex4? (a b c d : Char) : Option Nat := Text.digits? 16 [a, b, c, d]

def isHighSurrogate (n : Nat) : Bool := 0xD800 ≤ n && n < 0xDC00

def isLowSurrogate (n : Nat) : Bool := 0xDC00 ≤ n && n < 0xE000

/-- The character of an escape of one letter. -/
def shortEscape? (c : Char) : Option Char :=
  if c = '"' then some '"'
  else if c = '\\' then some '\\'
  else if c = '/' then some '/'
  else if c = 'b' then some '\x08'
  else if c = 'f' then some '\x0c'
  else if c = 'n' then some '\n'
  else if c = 'r' then some '\r'
  else if c = 't' then some '\t'
  else none

/-- The low half of a character above the basic plane, as a further escape. -/
def lowSurrogate? : Text → Option (Nat × Text)
  | '\\' :: 'u' :: a :: b :: c :: d :: rest =>
    (hex4? a b c d).bind fun n => if isLowSurrogate n then some (n, rest) else none
  | _ => none

/-- The character of the escape whose backslash was read. -/
def escape? : Text → Option (Char × Text)
  | 'u' :: a :: b :: c :: d :: rest =>
    (hex4? a b c d).bind fun n =>
      if isLowSurrogate n then none
      else if isHighSurrogate n then
        (lowSurrogate? rest).map fun (m, r) =>
          (Char.ofNat (0x10000 + (n - 0xD800) * 0x400 + (m - 0xDC00)), r)
      else some (Char.ofNat n, rest)
  | c :: rest => (shortEscape? c).map fun e => (e, rest)
  | [] => none

theorem lowSurrogate?_length {t r : Text} {n : Nat} (h : lowSurrogate? t = some (n, r)) :
    r.length < t.length := by
  unfold lowSurrogate? at h
  split at h
  · simp only [Option.bind_eq_some_iff] at h
    obtain ⟨m, _, h⟩ := h
    split at h
    · simp only [Option.some.injEq, Prod.mk.injEq] at h
      simp [← h.2]
      omega
    · simp at h
  · simp at h

theorem escape?_length {t r : Text} {e : Char} (h : escape? t = some (e, r)) :
    r.length < t.length := by
  unfold escape? at h
  split at h
  · simp only [Option.bind_eq_some_iff] at h
    obtain ⟨n, _, h⟩ := h
    split at h
    · simp at h
    · split at h
      · simp only [Option.map_eq_some_iff] at h
        obtain ⟨⟨m, s⟩, hs, h⟩ := h
        simp only [Prod.mk.injEq] at h
        have := lowSurrogate?_length hs
        simp only [h.2] at this
        simp
        omega
      · simp only [Option.some.injEq, Prod.mk.injEq] at h
        simp [← h.2]
        omega
  · simp only [Option.map_eq_some_iff] at h
    obtain ⟨_, _, h⟩ := h
    simp only [Prod.mk.injEq] at h
    simp [← h.2]
  · simp at h

/-- The characters up to the closing quote, and what follows it. -/
def stringBody? (t : Text) : Option (Text × Text) :=
  match t with
  | [] => none
  | c :: rest =>
    if c = '"' then some ([], rest)
    else if c = '\\' then
      match h : escape? rest with
      | none => none
      | some (e, r) =>
        have := escape?_length h
        (stringBody? r).map fun (s, r) => (e :: s, r)
    else if c.toNat < 32 then none
    else (stringBody? rest).map fun (s, r) => (c :: s, r)
termination_by t.length

theorem stringBody?_length {t s r : Text} (h : stringBody? t = some (s, r)) :
    r.length < t.length := by
  fun_induction stringBody? t generalizing s r with
  | case1 => simp at h
  | case2 rest => simp_all
  | case3 => simp at h
  | case4 rest _ e r' hr hlen ih =>
    obtain ⟨⟨s', r''⟩, hs, hr'⟩ := Option.map_eq_some_iff.1 h
    simp only [Prod.mk.injEq] at hr'
    have := ih hs
    simp only [hr'.2] at this
    simp
    omega
  | case5 => simp at h
  | case6 c rest _ _ _ ih =>
    obtain ⟨⟨s', r''⟩, hs, hr'⟩ := Option.map_eq_some_iff.1 h
    simp only [Prod.mk.injEq] at hr'
    have := ih hs
    simp only [hr'.2] at this
    simp
    omega

/-- The largest whole number a significand holds. -/
def maxSignificand : Nat := twoTo 64 - 1

/-- Appends digits while the significand can hold them; the rest of the digits is left. -/
def appendDigits : Nat → Text → Nat × Text
  | acc, [] => (acc, [])
  | acc, c :: t =>
    let next := acc * 10 + Text.digitValue c
    if next > maxSignificand then (acc, c :: t) else appendDigits next t

/-- Divides by `1e308` until the power of ten that is left is one a double can hold. -/
def divideDown : Nat → Float → Int → Float × Int
  | 0, f, e => (f, e)
  | fuel + 1, f, e =>
    if e < -308 then if f == 0.0 then (f, 0) else divideDown fuel (f / 1e308) (e + 308) else (f, e)

/-- A significand times a power of ten; none when it is too large for a double. -/
def scale? (significand : Nat) (exponent : Int) : Option Float :=
  let f := (UInt64.ofNat significand).toFloat
  if exponent > 308 then if significand = 0 then some f else none
  else
    let (f, e) := divideDown 8 f exponent
    let f := if e < 0 then f / Decimal.nearest false 1 (e.natAbs : Int)
      else f * Decimal.nearest false 1 e
    if Decimal.isFinite f then some f else none

/-- The parts of a written number: sign, whole digits, fraction digits and exponent. -/
structure Numeral where
  negative : Bool
  whole : Text
  fraction : Option Text
  exponent : Option Int

def maxExponent : Nat := twoTo 31 - 1

/-- Adds exponents within the range of 32 bits. -/
def saturate (e : Int) : Int := max (-(maxExponent : Int) - 1) (min e maxExponent)

/-- The double of a significand and the exponent written after it. -/
def withExponent? (significand : Nat) (scaleBy : Int) : Option Int → Option Float
  | none => scale? significand scaleBy
  | some e =>
    if e.natAbs > maxExponent then
      if significand ≠ 0 ∧ 0 < e then none else some 0.0
    else scale? significand (saturate (scaleBy + e))

def Numeral.number? (n : Numeral) : Option Number :=
  let (significand, dropped) := appendDigits 0 n.whole
  let signed (f : Float) : Number := .float (if n.negative then -f else f)
  match n.fraction, n.exponent with
  | none, none =>
    if dropped.isEmpty then
      if n.negative then
        if 0 < significand ∧ significand ≤ twoTo 63 then some (.int (-(significand : Int)))
        else some (signed (UInt64.ofNat significand).toFloat)
      else some (.int significand)
    else (scale? significand dropped.length).map signed
  | fraction, exponent =>
    let digits := fraction.getD []
    let (full, left) := appendDigits significand digits
    let taken : Int := (digits.length : Int) - left.length
    (withExponent? full (dropped.length - taken) exponent).map signed

/-- The run of digits at the front, and what follows it. -/
def digitRun (t : Text) : Text × Text := (t.takeWhile Text.isDigit, t.dropWhile Text.isDigit)

theorem digitRun_length (t : Text) : (digitRun t).1.length + (digitRun t).2.length = t.length := by
  rw [← List.length_append]
  simp [digitRun, List.takeWhile_append_dropWhile]

/-- A minus sign at the front, and what follows it. -/
def minus (t : Text) : Bool × Text :=
  match t with
  | '-' :: r => (true, r)
  | _ => (false, t)

theorem minus_length (t : Text) : (minus t).2.length ≤ t.length := by
  unfold minus
  split <;> simp

/-- The digits after a point, which must be there if the point is. -/
def fraction? (t : Text) : Option (Option Text × Text) :=
  match t with
  | '.' :: r => if (digitRun r).1.isEmpty then none else some (some (digitRun r).1, (digitRun r).2)
  | _ => some (none, t)

theorem fraction?_length {t r : Text} {f : Option Text} (h : fraction? t = some (f, r)) :
    r.length ≤ t.length := by
  unfold fraction? at h
  split at h
  · rename_i s
    split at h
    · simp at h
    · simp only [Option.some.injEq, Prod.mk.injEq] at h
      have := digitRun_length s
      simp only [h.2] at this
      simp
      omega
  · simp_all

/-- The signed digits after an exponent mark. -/
def signedRun? (t : Text) : Option (Int × Text) :=
  let (negative, s) :=
    match t with
    | '+' :: r => (false, r)
    | _ => minus t
  (Text.digits? 10 (digitRun s).1).map fun (n : Nat) =>
    (if negative then -(n : Int) else n, (digitRun s).2)

theorem signedRun?_length {t r : Text} {e : Int} (h : signedRun? t = some (e, r)) :
    r.length ≤ t.length := by
  unfold signedRun? at h
  simp only [Option.map_eq_some_iff] at h
  obtain ⟨n, _, h⟩ := h
  simp only [Prod.mk.injEq] at h
  rw [← h.2]
  split
  · rename_i s _
    have := digitRun_length s
    simp
    omega
  · have := digitRun_length (minus t).2
    have := minus_length t
    omega

def exponent? (t : Text) : Option (Option Int × Text) :=
  match t with
  | c :: r =>
    if c = 'e' ∨ c = 'E' then (signedRun? r).map fun (e, r) => (some e, r) else some (none, t)
  | [] => some (none, t)

theorem exponent?_length {t r : Text} {e : Option Int} (h : exponent? t = some (e, r)) :
    r.length ≤ t.length := by
  unfold exponent? at h
  split at h
  · split at h
    · obtain ⟨⟨e', r'⟩, hs, h⟩ := Option.map_eq_some_iff.1 h
      simp only [Prod.mk.injEq] at h
      have := signedRun?_length hs
      simp only [h.2] at this
      simp
      omega
    · simp_all
  · simp_all

/-- The longest numeral at the front of a text. A numeral has no superfluous leading zero, and its
point and exponent mark are followed by a digit. -/
def numeral? (t : Text) : Option (Numeral × Text) :=
  let (negative, s) := minus t
  let (whole, s) := digitRun s
  if whole.isEmpty ∨ (whole.length > 1 ∧ whole.head? = some '0') then none
  else
    (fraction? s).bind fun (fraction, s) =>
      (exponent? s).map fun (exponent, s) => (⟨negative, whole, fraction, exponent⟩, s)

theorem numeral?_length {t r : Text} {n : Numeral} (h : numeral? t = some (n, r)) :
    r.length < t.length := by
  unfold numeral? at h
  simp only at h
  split at h
  · simp at h
  · rename_i hw
    obtain ⟨⟨f, s⟩, hf, h⟩ := Option.bind_eq_some_iff.1 h
    obtain ⟨⟨e, s'⟩, he, h⟩ := Option.map_eq_some_iff.1 h
    simp only [Prod.mk.injEq] at h
    have h1 := fraction?_length hf
    have h2 := exponent?_length he
    have h3 := digitRun_length (minus t).2
    have h4 := minus_length t
    simp only [h.2] at h2
    have h5 : 0 < (digitRun (minus t).2).1.length := by
      rcases hd : (digitRun (minus t).2).1 with _ | _ <;> simp_all
    omega

end TemplateDocs.Json
