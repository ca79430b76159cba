import TemplateDocs.Text.Taken

/-!
# Words of a shell script

A word is made of pieces: text, and parameters that are replaced when the command runs. Quotes
around a piece keep blanks and patterns in it from counting.
-/
namespace TemplateDocs.Shell

inductive Piece where
  | text (t : Text) (quoted : Bool)
  | parameter (name : Text) (quoted : Bool)
  deriving DecidableEq, Repr

abbrev Word := List Piece

/-- Where output goes. -/
inductive Sink where
  | output | errors | nowhere
  deriving DecidableEq, Repr

inductive Token where
  | word (w : Word)
  /-- A control operator. -/
  | mark (m : Text)
  /-- The output of channel `from_` goes where that of channel `to` goes, or nowhere. -/
  | redirect (from_ : Nat) (target : Option Nat)
  deriving DecidableEq, Repr

def isBlank (c : Char) : Bool := c = ' ' || c = '\t'

/-- Characters that end an unquoted word. -/
def isBoundary (c : Char) : Bool :=
  isBlank c || c = '\n' || c = ';' || c = '&' || c = '|' || c = '(' || c = ')' || c = '<' || c = '>'

def isNameStart (c : Char) : Bool := c = '_' || c.isAlpha

def isNameChar (c : Char) : Bool := isNameStart c || Text.isDigit c

def isSpecial (c : Char) : Bool := c = '@' || c = '*' || c = '#' || c = '?' || Text.isDigit c

theorem dropWhile_length (p : Char → Bool) (t : Text) : (t.dropWhile p).length ≤ t.length :=
  (List.dropWhile_suffix p).length_le

/-- The parameter after a dollar sign; a lone dollar sign is text. -/
def parameter (quoted : Bool) (t : Text) : Passed Piece t :=
  match t with
  | [] => .stay (.text ['$'] quoted)
  | c :: rest =>
    if isSpecial c then ⟨.parameter [c] quoted, rest, Nat.le_succ _⟩
    else if isNameStart c then
      ⟨.parameter (c :: rest.takeWhile isNameChar) quoted, rest.dropWhile isNameChar,
        Nat.le_succ_of_le (dropWhile_length _ _)⟩
    else if c = '\x7b' then
      match h : Text.cut? ['\x7d'] rest with
      | some (name, after) =>
        ⟨.parameter name quoted, after,
          Nat.le_succ_of_le (Nat.le_trans (Nat.le_add_right _ _) (Text.cut?_length h))⟩
      | none => .stay (.text ['$'] quoted)
    else .stay (.text ['$'] quoted)

/-- The pieces up to a closing double quote, or nothing if there is none. -/
def doubleQuoted? (t : Text) : Option (Passed Word t) :=
  match t with
  | [] => none
  | c :: rest =>
    if c = '"' then some ⟨[], rest, Nat.le_succ _⟩
    else if c = '$' then
      have := (parameter true rest).bound
      (doubleQuoted? (parameter true rest).rest).map fun r =>
        (r.map ((parameter true rest).value :: ·)).widen (Nat.le_succ_of_le this)
    else if c = '\\' then
      match rest with
      | [] => none
      | d :: more =>
        let kept := if d = '$' ∨ d = '`' ∨ d = '"' ∨ d = '\\' then [d] else ['\\', d]
        (doubleQuoted? more).map fun r =>
          (r.map (.text kept true :: ·)).widen (Nat.le_succ_of_le (Nat.le_succ _))
    else
      (doubleQuoted? rest).map fun r => (r.map (.text [c] true :: ·)).widen (Nat.le_succ _)
termination_by t.length
decreasing_by all_goals (simp only [List.length_cons]; omega)

/-- The pieces of a word, or nothing if a quote is open. -/
def wordPieces? (t : Text) : Option (Passed Word t) :=
  match t with
  | [] => some (.stay [])
  | c :: rest =>
    if isBoundary c then some (.stay [])
    else if c = '\'' then
      match h : Text.cut? ['\''] rest with
      | none => none
      | some (inner, after) =>
        have : after.length ≤ rest.length :=
          Nat.le_trans (Nat.le_add_right _ _) (Text.cut?_length h)
        (wordPieces? after).map fun r =>
          (r.map (.text inner true :: ·)).widen (Nat.le_succ_of_le this)
    else if c = '"' then
      match doubleQuoted? rest with
      | none => none
      | some inner =>
        have := inner.bound
        (wordPieces? inner.rest).map fun r =>
          (r.map (.text [] true :: inner.value ++ ·)).widen (Nat.le_succ_of_le this)
    else if c = '$' then
      have := (parameter false rest).bound
      (wordPieces? (parameter false rest).rest).map fun r =>
        (r.map ((parameter false rest).value :: ·)).widen (Nat.le_succ_of_le this)
    else if c = '\\' then
      match rest with
      | [] => some ⟨[.text ['\\'] true], [], Nat.zero_le _⟩
      | d :: more =>
        (wordPieces? more).map fun r =>
          (r.map (.text [d] true :: ·)).widen (Nat.le_succ_of_le (Nat.le_succ _))
    else
      (wordPieces? rest).map fun r => (r.map (.text [c] false :: ·)).widen (Nat.le_succ _)
termination_by t.length
decreasing_by all_goals (simp at *; try omega)

def doubleMarks : List Text := [";;", "&&", "||"].map String.toList

def singleMarks : Text := ";|()\n".toList

/-- A redirection after its arrow: to another channel, or to the file that keeps nothing. -/
def redirection? (from_ : Nat) (t : Text) : Option (Passed Token t) :=
  match t with
  | '&' :: c :: rest =>
    if Text.isDigit c then
      some ⟨.redirect from_ (some (Text.digitValue c)), rest, by simp only [List.length_cons]; omega⟩
    else none
  | t =>
    have trimmed := dropWhile_length isBlank t
    match h : Text.after? "/dev/null".toList (t.dropWhile isBlank) with
    | some rest =>
      some ⟨.redirect from_ none, rest, by have := Text.after?_length h; omega⟩
    | none => none

/-- The tokens of a script, or nothing if it cannot be read. -/
def tokens? (t : Text) : Option (List Token) :=
  match t with
  | [] => some []
  | c :: rest =>
    if isBlank c then tokens? rest
    else if c = '#' then
      have := dropWhile_length (· ≠ '\n') rest
      tokens? (rest.dropWhile (· ≠ '\n'))
    else if c = '>' then
      match redirection? 1 rest with
      | none => none
      | some r =>
        have := r.bound
        (tokens? r.rest).map (r.value :: ·)
    else if Text.isDigit c ∧ rest.head? = some '>' then
      match redirection? (Text.digitValue c) (rest.drop 1) with
      | none => none
      | some r =>
        have := r.bound
        have : (rest.drop 1).length ≤ rest.length := by simp
        (tokens? r.rest).map (r.value :: ·)
    else if doubleMarks.contains ((c :: rest).take 2) then
      have : (rest.drop 1).length ≤ rest.length := by simp
      (tokens? (rest.drop 1)).map (.mark ((c :: rest).take 2) :: ·)
    else if singleMarks.elem c then (tokens? rest).map (.mark [c] :: ·)
    else
      match wordPieces? (c :: rest) with
      | none => none
      | some w =>
        if h : w.rest.length < (c :: rest).length then (tokens? w.rest).map (.word w.value :: ·)
        else none
termination_by t.length
decreasing_by all_goals (simp at *; try omega)

end TemplateDocs.Shell
