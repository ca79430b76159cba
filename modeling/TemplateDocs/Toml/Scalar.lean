import TemplateDocs.Text.Taken
import TemplateDocs.Toml.Value

/-!
# TOML scalars

Strings in four kinds of quotes, and what stands without quotes: booleans, numbers, dates and times.
-/
namespace TemplateDocs.Toml

def isBlank (c : Char) : Bool := c = ' ' || c = '\t'

/-- Control characters may stand nowhere, tabs apart. -/
def isControl (c : Char) : Bool := (c.toNat < 32 && c ≠ '\t') || c.toNat = 0x7F

theorem dropWhile_length (p : Char → Bool) (t : Text) : (t.dropWhile p).length ≤ t.length :=
  (List.dropWhile_suffix p).length_le

/-! ## Strings -/

def shortEscape? : Char → Option Char
  | 'b' => some '\x08'
  | 't' => some '\t'
  | 'n' => some '\n'
  | 'f' => some '\x0c'
  | 'r' => some '\r'
  | 'e' => some '\x1b'
  | '"' => some '"'
  | '\\' => some '\\'
  | _ => none

/-- The number of hexadecimal digits after an escape letter. -/
def hexCount? : Char → Option Nat
  | 'x' => some 2
  | 'u' => some 4
  | 'U' => some 8
  | _ => none

def hexChar? (digits : Text) : Option Char :=
  (Text.digits? 16 digits).bind fun n => if n.isValidChar then some (Char.ofNat n) else none

/-- The character of the escape whose backslash was read. -/
def escape? (t : Text) : Option (Taken Char t) :=
  match t with
  | [] => none
  | c :: rest =>
    match hexCount? c with
    | some count =>
      if (rest.take count).length = count then
        (hexChar? (rest.take count)).map fun e =>
          ⟨e, rest.drop count, Nat.lt_succ_of_le (List.drop_sublist count rest).length_le⟩
      else none
    | none => (shortEscape? c).map .step

/-- The rest of a string in double quotes on one line. -/
def basic? (t : Text) : Option (Taken Text t) :=
  match t with
  | [] => none
  | c :: rest =>
    if c = '"' then some (.step [])
    else if c = '\\' then
      match escape? rest with
      | none => none
      | some e =>
        have := e.shorter
        (basic? e.rest).map fun r => ⟨e.value :: r.value, r.rest, by have := r.shorter; simp; omega⟩
    else if isControl c then none
    else (basic? rest).map fun r => ⟨c :: r.value, r.rest, by have := r.shorter; simp; omega⟩
termination_by t.length

/-- The rest of a string in single quotes on one line. -/
def literal? (t : Text) : Option (Taken Text t) :=
  match t with
  | [] => none
  | c :: rest =>
    if c = '\'' then some (.step [])
    else if isControl c then none
    else (literal? rest).map fun r => ⟨c :: r.value, r.rest, by have := r.shorter; simp; omega⟩

def isGap (c : Char) : Bool := isBlank c || c = '\n' || c = '\r'

/-- The line end at the front of a text, and what follows it. -/
def lineFeed? : Text → Option Text
  | '\n' :: rest => some rest
  | '\r' :: '\n' :: rest => some rest
  | _ => none

theorem lineFeed?_length {t r : Text} (h : lineFeed? t = some r) : r.length < t.length := by
  unfold lineFeed? at h
  split at h
  · simp_all
  · simp only [Option.some.injEq] at h
    rw [← h, List.length_cons, List.length_cons]
    omega
  · simp at h

/-- The blanks to skip after a backslash at the end of a line. -/
def continuation? (t : Text) : Option Text :=
  (lineFeed? (t.dropWhile isBlank)).map fun rest => rest.dropWhile isGap

theorem continuation?_length {t r : Text} (h : continuation? t = some r) :
    r.length < t.length := by
  obtain ⟨s, hs, hr⟩ := Option.map_eq_some_iff.1 h
  have := lineFeed?_length hs
  have := dropWhile_length isBlank t
  have := dropWhile_length isGap s
  rw [← hr]
  omega

/-- The rest of a string in tripled quotes; up to two quotes may stand before the closing ones. -/
def long? (quote : Char) (escapes : Bool) (t : Text) : Option (Taken Text t) :=
  match t with
  | [] => none
  | c :: rest =>
    if c = quote then
      let more := (rest.takeWhile (· = quote)).length
      if 2 ≤ more then
        if more ≤ 4 then
          some ⟨List.replicate (more - 2) quote, rest.dropWhile (· = quote),
            Nat.lt_succ_of_le (dropWhile_length _ _)⟩
        else none
      else
        (long? quote escapes rest).map fun r => (r.map (c :: ·)).widen (Nat.le_succ _)
    else if c = '\\' ∧ escapes then
      match h : continuation? rest with
      | some after =>
        have := continuation?_length h
        (long? quote escapes after).map fun r => r.widen (Nat.le_of_lt (Nat.lt_succ_of_lt this))
      | none =>
        match escape? rest with
        | none => none
        | some e =>
          have := e.shorter
          (long? quote escapes e.rest).map fun r =>
            (r.map (e.value :: ·)).widen (Nat.le_of_lt (Nat.lt_succ_of_lt this))
    else
      match h : lineFeed? (c :: rest) with
      | some after =>
        have := lineFeed?_length h
        (long? quote escapes after).map fun r =>
          ⟨'\n' :: r.value, r.rest, Nat.lt_trans r.shorter this⟩
      | none =>
        if isControl c then none
        else
          (long? quote escapes rest).map fun r => (r.map (c :: ·)).widen (Nat.le_succ _)
termination_by t.length
decreasing_by all_goals (simp at *; try omega)

/-- The rest of a string in tripled quotes, without a line end right after them. -/
def longBody? (quote : Char) (escapes : Bool) (t : Text) : Option (Taken Text t) :=
  match h : lineFeed? t with
  | some after => (long? quote escapes after).map fun r => r.widen (Nat.le_of_lt (lineFeed?_length h))
  | none => long? quote escapes t

/-- A string after its first quote. -/
def string? (quote : Char) (t : Text) : Option (Taken Text t) :=
  match h : Text.after? [quote, quote] t with
  | some rest =>
    (longBody? quote (quote = '"') rest).map fun r => r.widen (Text.after?_le h)
  | none => if quote = '"' then basic? t else literal? t

/-! ## Numbers -/

/-- Digits with single underscores between them. -/
def isGrouped (p : Char → Bool) (t : Text) : Bool :=
  (Text.split '_' t).all fun piece => !piece.isEmpty && piece.all p

def ungroup (t : Text) : Text := t.filter (· ≠ '_')

def signed (t : Text) : Bool × Text :=
  match t with
  | '-' :: rest => (true, rest)
  | '+' :: rest => (false, rest)
  | rest => (false, rest)

/-- A whole number in decimal has no zero in front. -/
def isWhole (t : Text) : Bool :=
  isGrouped Text.isDigit t && (t.length = 1 || t.head? ≠ some '0')

def inRange (i : Int) : Bool := -(twoTo 63 : Int) ≤ i && i < twoTo 63

def radixInteger? (t : Text) : Option Int :=
  let read (radix : Nat) (digits : Text) : Option Int :=
    if isGrouped (fun c => Text.digitValue c < radix) digits then
      (Text.digits? radix (ungroup digits)).map Int.ofNat
    else none
  match t with
  | '0' :: 'x' :: digits => read 16 digits
  | '0' :: 'o' :: digits => read 8 digits
  | '0' :: 'b' :: digits => read 2 digits
  | _ => none

def integer? (t : Text) : Option Int :=
  let (negative, digits) := signed t
  if isWhole digits then
    (Text.digits? 10 (ungroup digits)).map fun (n : Nat) => if negative then -(n : Int) else n
  else radixInteger? t

/-- Whether an exponent, if there is one, is well written. -/
def isExponent (t : Text) : Bool := isGrouped Text.isDigit (signed t).2

def isExponentMark (c : Char) : Bool := c = 'e' || c = 'E'

def float? (t : Text) : Option Float :=
  let (negative, body) := signed t
  if body = "inf".toList then some (if negative then -(1 / 0) else 1 / 0)
  else if body = "nan".toList then some (0 / 0)
  else
    let mantissa := body.takeWhile fun c => !isExponentMark c
    let exponent := (body.dropWhile fun c => !isExponentMark c).drop 1
    let whole := mantissa.takeWhile (· ≠ '.')
    let fraction := (mantissa.dropWhile (· ≠ '.')).drop 1
    let hasPoint := mantissa.contains '.'
    let hasExponent := body.any isExponentMark
    if isWhole whole && (hasPoint || hasExponent) && (!hasPoint || isGrouped Text.isDigit fraction)
        && (!hasExponent || isExponent exponent) then
      ((Decimal.parse? (ungroup t)).map Decimal.Written.toFloat).bind fun x =>
        if Decimal.isFinite x then some x else none
    else none

/-! ## Dates and times -/

/-- Exactly `count` digits off the front, with their number. -/
def fixed? (count : Nat) (t : Text) : Option (Nat × Text) :=
  let digits := t.take count
  if digits.length = count ∧ digits.all Text.isDigit then
    (Text.digits? 10 digits).map fun n => (n, t.drop count)
  else none

def isLeap (year : Nat) : Bool := (year % 4 = 0 && year % 100 ≠ 0) || year % 400 = 0

def daysIn (year month : Nat) : Nat :=
  if month = 2 then if isLeap year then 29 else 28
  else if month = 4 ∨ month = 6 ∨ month = 9 ∨ month = 11 then 30
  else 31

/-- A date off the front, as it is written. -/
def date? (t : Text) : Option (Text × Text) := do
  let (year, rest) ← fixed? 4 t
  let rest ← Text.after? ['-'] rest
  let (month, rest) ← fixed? 2 rest
  let rest ← Text.after? ['-'] rest
  let (day, rest) ← fixed? 2 rest
  if 1 ≤ month ∧ month ≤ 12 ∧ 1 ≤ day ∧ day ≤ daysIn year month then return (t.take 10, rest) else none

/-- The digits after the point of a second, without zeros at the end. -/
def fraction? (t : Text) : Option (Text × Text) :=
  match t with
  | '.' :: rest =>
    let digits := rest.takeWhile Text.isDigit
    if digits.isEmpty then none
    else
      let kept := ((digits.take 9).reverse.dropWhile (· = '0')).reverse
      some (if kept.isEmpty then [] else '.' :: kept, rest.dropWhile Text.isDigit)
  | rest => some ([], rest)

/-- A time off the front; seconds may be left out. -/
def time? (t : Text) : Option (Text × Text) := do
  let (hour, rest) ← fixed? 2 t
  let rest ← Text.after? [':'] rest
  let (minute, rest) ← fixed? 2 rest
  if 23 < hour ∨ 59 < minute then none
  else
    match rest with
    | ':' :: more =>
      let (second, rest) ← fixed? 2 more
      if 60 < second then none
      else
        let (fraction, rest) ← fraction? rest
        return (t.take 8 ++ fraction, rest)
    | rest => return (t.take 5, rest)

/-- The offset of a time from universal time. -/
def offset? (t : Text) : Option Text :=
  match t with
  | [] => some []
  | ['Z'] | ['z'] => some ['Z']
  | sign :: rest =>
    if sign = '+' ∨ sign = '-' then do
      let (hour, more) ← fixed? 2 rest
      let more ← Text.after? [':'] more
      let (minute, left) ← fixed? 2 more
      if hour ≤ 23 ∧ minute ≤ 59 ∧ left = [] then return t else none
    else none

def isTimeMark (c : Char) : Bool := c = 'T' || c = 't' || c = ' '

def datetime? (t : Text) : Option Text :=
  match date? t with
  | some (date, []) => some date
  | some (date, mark :: rest) =>
    if isTimeMark mark then do
      let (time, rest) ← time? rest
      let offset ← offset? rest
      return date ++ 'T' :: time ++ offset
    else none
  | none =>
    match time? t with
    | some (time, []) => some time
    | _ => none

/-! ## Without quotes -/

def isBare (c : Char) : Bool :=
  c.isAlpha || Text.isDigit c || c = '+' || c = '-' || c = '.' || c = ':' || c = '_'

/-- Whether a time follows a date after a blank. -/
def timeFollows (date rest : Text) : Bool :=
  match date? date, rest with
  | some (_, []), ' ' :: a :: b :: ':' :: _ => Text.isDigit a && Text.isDigit b
  | _, _ => false

def ofBare? (t : Text) : Option Value :=
  if t = "true".toList then some (.boolean true)
  else if t = "false".toList then some (.boolean false)
  else
    match integer? t with
    | some i => if inRange i then some (.integer i) else none
    | none =>
      match float? t with
      | some x => some (.float x)
      | none => (datetime? t).map .datetime

/-- What stands without quotes at the front; a date takes the time after a blank with it. -/
def bareText (t : Text) : Text :=
  let first := t.takeWhile isBare
  let rest := t.dropWhile isBare
  if timeFollows first rest then first ++ ' ' :: (rest.drop 1).takeWhile isBare else first

/-- A value without quotes off the front. -/
def bare? (t : Text) : Option (Taken Value t) :=
  if h : 0 < (bareText t).length ∧ (bareText t).length ≤ t.length then
    (ofBare? (bareText t)).map fun v =>
      ⟨v, t.drop (bareText t).length, by rw [List.length_drop]; omega⟩
  else none

end TemplateDocs.Toml
