import TemplateDocs.Power
import TemplateDocs.Text.Basic

/-!
# Quoted scalars

In double quotes a backslash escapes; in single quotes a quote is written twice and nothing else is
special.
-/
namespace TemplateDocs.Outline

/-- Why the digits of a character escape are refused. -/
inductive HexFault where
  | empty | notHex | tooLarge
  deriving DecidableEq, Repr

inductive EscapeFault where
  | unknown (c : Char)
  | noBrace
  | hex (digits : Text) (fault : HexFault)
  | notChar (code : Nat)
  deriving DecidableEq, Repr

def HexFault.message : HexFault → Text
  | .empty => "cannot parse integer from empty string".toList
  | .notHex => "invalid digit found in string".toList
  | .tooLarge => "number too large to fit in target type".toList

/-- An escape that cannot be resolved, at a character position of the quoted text. -/
structure EscapeError where
  index : Nat
  fault : EscapeFault
  deriving DecidableEq, Repr

def EscapeError.message (quoted : Text) (e : EscapeError) : Text :=
  let place := " at ".toList ++ Text.ofNat e.index ++ " in ".toList ++ quoted
  let unicode (reason : Text) := "\\u could not be parsed".toList ++ place ++ ": ".toList ++ reason
  match e.fault with
  | .unknown c => "invalid escape \\".toList ++ c :: place
  | .noBrace => unicode "expected '\x7b' character in unicode escape".toList
  | .hex digits fault =>
    unicode ("could not parse ".toList ++ digits ++ " as u32 hex: ".toList ++ fault.message)
  | .notChar code =>
    unicode ("could not parse ".toList ++ Text.ofNat code ++ " as a unicode char".toList)

/-- The text up to and with the closing double quote, and what follows it. -/
def closeDouble? : Text → Option (Text × Text)
  | [] => none
  | '"' :: t => some (['"'], t)
  | '\\' :: c :: t => (closeDouble? t).map fun (s, r) => ('\\' :: c :: s, r)
  | c :: t => (closeDouble? t).map fun (s, r) => (c :: s, r)

/-- The text up to and with the closing single quote, and what follows it. -/
def closeSingle? : Text → Option (Text × Text)
  | [] => none
  | '\'' :: '\'' :: t => (closeSingle? t).map fun (s, r) => ('\'' :: '\'' :: s, r)
  | '\'' :: t => some (['\''], t)
  | c :: t => (closeSingle? t).map fun (s, r) => (c :: s, r)

/-- The quoted scalar at the front, quotes included, and what follows it. -/
def quoted? : Text → Option (Text × Text)
  | '"' :: t => (closeDouble? t).map fun (s, r) => ('"' :: s, r)
  | '\'' :: t => (closeSingle? t).map fun (s, r) => ('\'' :: s, r)
  | _ => none

theorem closeDouble?_append {t s r : Text} (h : closeDouble? t = some (s, r)) :
    s ++ r = t ∧ s ≠ [] := by
  fun_induction closeDouble? t generalizing s r with
  | case1 => simp at h
  | case2 t => simp at h; simp [← h.1, ← h.2]
  | case3 c t ih =>
    obtain ⟨⟨s', r'⟩, hs, h⟩ := Option.map_eq_some_iff.1 h
    simp only [Prod.mk.injEq] at h
    have := (ih hs).1
    simp [← h.1, ← h.2, this]
  | case4 c t _ _ ih =>
    obtain ⟨⟨s', r'⟩, hs, h⟩ := Option.map_eq_some_iff.1 h
    simp only [Prod.mk.injEq] at h
    have := (ih hs).1
    simp [← h.1, ← h.2, this]

theorem closeSingle?_append {t s r : Text} (h : closeSingle? t = some (s, r)) :
    s ++ r = t ∧ s ≠ [] := by
  fun_induction closeSingle? t generalizing s r with
  | case1 => simp at h
  | case2 t ih =>
    obtain ⟨⟨s', r'⟩, hs, h⟩ := Option.map_eq_some_iff.1 h
    simp only [Prod.mk.injEq] at h
    have := (ih hs).1
    simp [← h.1, ← h.2, this]
  | case3 t => simp at h; simp [← h.1, ← h.2]
  | case4 c t _ _ ih =>
    obtain ⟨⟨s', r'⟩, hs, h⟩ := Option.map_eq_some_iff.1 h
    simp only [Prod.mk.injEq] at h
    have := (ih hs).1
    simp [← h.1, ← h.2, this]

/-- A quoted scalar and what follows it make up the text. -/
theorem quoted?_append {t s r : Text} (h : quoted? t = some (s, r)) : s ++ r = t ∧ s ≠ [] := by
  unfold quoted? at h
  split at h
  · obtain ⟨⟨s', r'⟩, hs, h⟩ := Option.map_eq_some_iff.1 h
    simp only [Prod.mk.injEq] at h
    simp [← h.1, ← h.2, (closeDouble?_append hs).1]
  · obtain ⟨⟨s', r'⟩, hs, h⟩ := Option.map_eq_some_iff.1 h
    simp only [Prod.mk.injEq] at h
    simp [← h.1, ← h.2, (closeSingle?_append hs).1]
  · simp at h

theorem quoted?_length {t s r : Text} (h : quoted? t = some (s, r)) : r.length < t.length := by
  obtain ⟨ha, hs⟩ := quoted?_append h
  have := List.length_pos_iff.2 hs
  simp [← ha]
  omega

/-- The character that a backslash and one more character stand for. -/
def escaped? (c : Char) : Option Char :=
  if c = 'a' then some '\x07'
  else if c = 'b' then some '\x08'
  else if c = 'v' then some '\x0b'
  else if c = 'f' then some '\x0c'
  else if c = 'n' then some '\n'
  else if c = 'r' then some '\r'
  else if c = 't' then some '\t'
  else if c = 'e' ∨ c = 'E' then some '\x1b'
  else if c = '\\' ∨ c = '\'' ∨ c = '"' ∨ c = '$' ∨ c = '`' ∨ c = ' ' then some c
  else none

/-- Hexadecimal digits below `2 ^ 32`, read from the left until one is refused. -/
def hexFrom : Nat → Text → Except HexFault Nat
  | acc, [] => .ok acc
  | acc, c :: t =>
    if Text.digitValue c ≥ 16 then .error .notHex
    else
      let next := acc * 16 + Text.digitValue c
      if next ≥ twoTo 32 then .error .tooLarge else hexFrom next t

def hexNumber : Text → Except HexFault Nat
  | [] => .error .empty
  | ['+'] => .error .notHex
  | '+' :: t => hexFrom 0 t
  | t => hexFrom 0 t

/-- The character written as hexadecimal digits. -/
def hexChar (digits : Text) : Except EscapeFault Char :=
  match hexNumber digits with
  | .error fault => .error (.hex digits fault)
  | .ok n =>
    if n < 0xD800 ∨ (0xDFFF < n ∧ n < 0x110000) then .ok (Char.ofNat n) else .error (.notChar n)

/-- What follows the next closing brace; nothing follows when there is none. -/
def afterBrace (t : Text) : Text := (t.dropWhile (· ≠ '\x7d')).drop 1

theorem afterBrace_length (t : Text) : (afterBrace t).length ≤ t.length :=
  Nat.le_trans (List.drop_suffix 1 _).length_le (List.dropWhile_suffix _).length_le

/-- Resolves the escapes of a double-quoted scalar whose opening quote was read; `index` is the
position of the next character. -/
def unescapeFrom (index : Nat) (t : Text) : Except EscapeError Text :=
  match t with
  | [] => .ok []
  | '"' :: _ => .ok []
  | '\\' :: 'u' :: '\x7b' :: t =>
    have := afterBrace_length t
    let digits := t.takeWhile (· ≠ '\x7d')
    match hexChar digits with
    | .error fault => .error ⟨index + 1, fault⟩
    | .ok c => (unescapeFrom (index + digits.length + 4) (afterBrace t)).map (c :: ·)
  | '\\' :: c :: t =>
    if c = 'u' then .error ⟨index + 1, .noBrace⟩
    else
      match escaped? c with
      | some e => (unescapeFrom (index + 2) t).map (e :: ·)
      | none => .error ⟨index + 1, .unknown c⟩
  | c :: t => (unescapeFrom (index + 1) t).map (c :: ·)
termination_by t.length

/-- Every pair of single quotes becomes one. -/
def undouble : Text → Text
  | [] => []
  | '\'' :: '\'' :: t => '\'' :: undouble t
  | c :: t => c :: undouble t

/-- The text that a quoted scalar stands for. -/
def unquote : Text → Except EscapeError Text
  | '\'' :: t => .ok (undouble t.dropLast)
  | t => unescapeFrom 1 (t.drop 1)

end TemplateDocs.Outline
