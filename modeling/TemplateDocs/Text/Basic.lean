/-!
# Text as a list of characters

Every scan of the library is a recursion on the characters that are left, so text is a list. The
operations here are the ones that all notations share: trimming, splitting, joining and the order
of keys. Those that only compare characters serve for bytes as well.
-/
namespace TemplateDocs

abbrev Text := List Char

namespace Text

/-- The Unicode property White_Space. -/
def isSpace (c : Char) : Bool :=
  let n := c.toNat
  (9 ≤ n && n ≤ 13) || n == 32 || n == 0x85 || n == 0xA0 || n == 0x1680
    || (0x2000 ≤ n && n ≤ 0x200A) || n == 0x2028 || n == 0x2029 || n == 0x202F || n == 0x205F
    || n == 0x3000

def trimStart (t : Text) : Text := t.dropWhile isSpace

def trimEnd (t : Text) : Text := (t.reverse.dropWhile isSpace).reverse

def trim (t : Text) : Text := trimEnd (trimStart t)

/-- Drop every leading and trailing character that `p` accepts. -/
def trimMatches (p : Char → Bool) (t : Text) : Text :=
  ((t.dropWhile p).reverse.dropWhile p).reverse

/-- What follows `start` in a text that begins with it. -/
def after? {α : Type} [DecidableEq α] : List α → List α → Option (List α)
  | [], t => some t
  | _ :: _, [] => none
  | a :: start, b :: t => if a = b then after? start t else none

theorem after?_length {α : Type} [DecidableEq α] {start t r : List α} (h : after? start t = some r) :
    r.length + start.length = t.length := by
  induction start generalizing t with
  | nil => simp_all [after?]
  | cons a start ih =>
    cases t with
    | nil => simp [after?] at h
    | cons b t =>
      simp only [after?] at h
      split at h
      · have := ih h
        simp
        omega
      · simp at h

theorem after?_le {α : Type} [DecidableEq α] {start t r : List α} (h : after? start t = some r) :
    r.length ≤ t.length := by
  have := after?_length h
  omega

def startsWith (start t : Text) : Bool := (after? start t).isSome

def endsWith (tail t : Text) : Bool := startsWith tail.reverse t.reverse

/-- The parts of a text around its first occurrence of `mark`. -/
def cut? (mark : Text) : Text → Option (Text × Text)
  | [] => (after? mark []).map fun rest => ([], rest)
  | c :: t =>
    match after? mark (c :: t) with
    | some rest => some ([], rest)
    | none => (cut? mark t).map fun (front, rest) => (c :: front, rest)

theorem cut?_length {mark t a r : Text} (h : cut? mark t = some (a, r)) :
    r.length + mark.length ≤ t.length := by
  induction t generalizing a r with
  | nil =>
    obtain ⟨s, hs, he⟩ := Option.map_eq_some_iff.1 (show (after? mark []).map _ = _ from h)
    simp only [Prod.mk.injEq] at he
    have := after?_length hs
    rw [← he.2]
    omega
  | cons c t ih =>
    unfold cut? at h
    split at h
    · rename_i rest hr
      have := after?_length hr
      simp only [Option.some.injEq, Prod.mk.injEq] at h
      rw [← h.2]
      omega
    · obtain ⟨⟨front, rest⟩, hs, he⟩ := Option.map_eq_some_iff.1 h
      simp only [Prod.mk.injEq] at he
      have := ih hs
      rw [← he.2, List.length_cons]
      omega

def contains (mark t : Text) : Bool := (cut? mark t).isSome

/-- The pieces between separators; a text without separators is its own single piece. -/
def split {α : Type} [DecidableEq α] (sep : α) : List α → List (List α)
  | [] => [[]]
  | c :: t =>
    if c = sep then [] :: split sep t
    else
      match split sep t with
      | [] => [[c]]
      | piece :: pieces => (c :: piece) :: pieces

def join {α : Type} (sep : List α) (pieces : List (List α)) : List α := sep.intercalate pieces

/-- Lines that end in a line feed, with or without a carriage return before it. Text after the
last line feed is a line too unless it is empty. -/
def feedLines (t : Text) : List Text :=
  let pieces := split '\n' t
  let ended := pieces.dropLast.map fun line =>
    if line.getLast? = some '\r' then line.dropLast else line
  match pieces.getLast? with
  | none | some [] => ended
  | some open_ => ended ++ [open_]

/-- Replace each occurrence of one character by a text. -/
def replaceChar (c : Char) (by_ : Text) (t : Text) : Text :=
  t.flatMap fun d => if d = c then by_ else [d]

/-- The order of texts by code points. -/
def precedes : Text → Text → Bool
  | _, [] => false
  | [], _ :: _ => true
  | a :: s, b :: t => if a.toNat < b.toNat then true else if a = b then precedes s t else false

/-- The value of a digit, letters counting from ten. -/
def digitValue (c : Char) : Nat :=
  if '0' ≤ c ∧ c ≤ '9' then c.toNat - '0'.toNat
  else if 'a' ≤ c ∧ c ≤ 'z' then c.toNat - 'a'.toNat + 10
  else if 'A' ≤ c ∧ c ≤ 'Z' then c.toNat - 'A'.toNat + 10
  else 36

def isDigit (c : Char) : Bool := '0' ≤ c && c ≤ '9'

/-- The number written by the digits of `t` in base `radix`, with `acc` read already. -/
def digitsFrom? (radix : Nat) : Nat → Text → Option Nat
  | acc, [] => some acc
  | acc, c :: t => if digitValue c < radix then digitsFrom? radix (acc * radix + digitValue c) t else none

/-- A non-empty run of digits. -/
def digits? (radix : Nat) (t : Text) : Option Nat :=
  if t.isEmpty then none else digitsFrom? radix 0 t

/-- A natural number, optionally after a plus sign. -/
def natural? (radix : Nat) : Text → Option Nat
  | '+' :: t => digits? radix t
  | t => digits? radix t

/-- An integer with an optional sign. -/
def integer? (radix : Nat) : Text → Option Int
  | '-' :: t => (digits? radix t).map fun (n : Nat) => -(n : Int)
  | t => (natural? radix t).map Int.ofNat

def ofNat (n : Nat) : Text := (toString n).toList

def ofInt (i : Int) : Text := if i < 0 then '-' :: ofNat i.natAbs else ofNat i.natAbs

/-- ASCII letters in lower case; every other character is kept. -/
def lowerAscii (t : Text) : Text := t.map Char.toLower

end Text
end TemplateDocs
