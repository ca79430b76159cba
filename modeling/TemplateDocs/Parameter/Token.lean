import TemplateDocs.Text.Basic

/-!
# Tokens of type expressions

The lexer takes the longest token at each point. Where none fits it reports the longest run of
characters that could still have become one.
-/
namespace TemplateDocs.Parameter

inductive Kind where
  | parenOpen | parenClose | braceOpen | braceClose | angleOpen | angleClose
  | arrayMark | pipe | comma | colon | question | bang | equals | ellipsis | star
  | function | name | literal
  deriving DecidableEq, Repr

structure Token where
  kind : Kind
  text : Text
  deriving DecidableEq, Repr

/-- Blanks between tokens. -/
def isSeparator (c : Char) : Bool := c = ' ' || c = '\t' || c = '\r' || c = '\n'

/-- Tokens of a single character that start no longer one. -/
def singleKind? (c : Char) : Option Kind :=
  if c = '(' then some .parenOpen
  else if c = ')' then some .parenClose
  else if c = '\x7b' then some .braceOpen
  else if c = '\x7d' then some .braceClose
  else if c = '<' then some .angleOpen
  else if c = '>' then some .angleClose
  else if c = '|' then some .pipe
  else if c = ',' then some .comma
  else if c = ':' then some .colon
  else if c = '?' then some .question
  else if c = '!' then some .bang
  else if c = '=' then some .equals
  else if c = '*' then some .star
  else none

def isNameHead (c : Char) : Bool := c.isAlpha || c = '_' || c = '$'

def isNameTail (c : Char) : Bool := c.isAlphanum || c = '_' || c = '$'

/-- The characters of a dotted name after its first one, and what follows them. A dot belongs to the
name when a further part starts after it. -/
def nameRun : Text → Text × Text
  | [] => ([], [])
  | [c] => if isNameTail c then ([c], []) else ([], [c])
  | c :: d :: t =>
    if isNameTail c ∨ (c = '.' ∧ isNameHead d) then
      (c :: (nameRun (d :: t)).1, (nameRun (d :: t)).2)
    else ([], c :: d :: t)

theorem nameRun_length (t : Text) : (nameRun t).2.length ≤ t.length := by
  fun_induction nameRun t with
  | case1 => simp
  | case2 => simp
  | case3 => simp
  | case4 => simp_all; omega
  | case5 => simp

/-- A string literal after its opening quote: its characters with the closing quote, or the run that
never closes. A backslash keeps the next character from closing it, unless that is a line feed. -/
def stringRun (quote : Char) : Text → Except Text (Text × Text)
  | [] => .error []
  | '\\' :: c :: t =>
    if c = '\n' then .error ['\\']
    else
      match stringRun quote t with
      | .ok (s, r) => .ok ('\\' :: c :: s, r)
      | .error s => .error ('\\' :: c :: s)
  | c :: t =>
    if c = quote then .ok ([c], t)
    else
      match stringRun quote t with
      | .ok (s, r) => .ok (c :: s, r)
      | .error s => .error (c :: s)

theorem stringRun_length {quote : Char} {t s r : Text} (h : stringRun quote t = .ok (s, r)) :
    r.length < t.length := by
  fun_induction stringRun quote t generalizing s r with
  | case1 => simp at h
  | case2 => simp at h
  | case3 c t _ s' r' hs ih =>
    simp only [Except.ok.injEq, Prod.mk.injEq] at h
    have := ih hs
    rw [h.2] at this
    simp
    omega
  | case4 => simp at h
  | case5 => simp_all
  | case6 c t _ _ s' r' hs ih =>
    simp only [Except.ok.injEq, Prod.mk.injEq] at h
    have := ih hs
    rw [h.2] at this
    simp
    omega
  | case7 => simp at h

/-- The rest of a number after its whole part: a point counts when a digit follows it. -/
def fractionRun (t : Text) : Text × Text :=
  match t with
  | '.' :: r =>
    if (r.head?.map Text.isDigit).getD false then
      ('.' :: r.takeWhile Text.isDigit, r.dropWhile Text.isDigit)
    else ([], t)
  | _ => ([], t)

theorem fractionRun_length (t : Text) : (fractionRun t).2.length ≤ t.length := by
  unfold fractionRun
  split
  · split
    · have := (List.dropWhile_suffix (l := ‹Text›) Text.isDigit).length_le
      simp
      omega
    · simp
  · simp

/-- The longest token at a character `c` before `t`, and what follows it. -/
def next (c : Char) (t : Text) : Except Text (Token × Text) :=
  match singleKind? c with
  | some kind => .ok (⟨kind, [c]⟩, t)
  | none =>
    if c = '.' then
      match t with
      | '<' :: r => .ok (⟨.angleOpen, ['.', '<']⟩, r)
      | '.' :: '.' :: r => .ok (⟨.ellipsis, ['.', '.', '.']⟩, r)
      | '.' :: _ => .error ['.', '.']
      | _ => .error ['.']
    else if c = '[' then
      match t with
      | ']' :: r => .ok (⟨.arrayMark, ['[', ']']⟩, r)
      | _ => .error ['[']
    else if isNameHead c then
      let text := c :: (nameRun t).1
      .ok (⟨if text = "function".toList then .function else .name, text⟩, (nameRun t).2)
    else if c = '"' ∨ c = '\'' then
      match stringRun c t with
      | .ok (s, r) => .ok (⟨.literal, c :: s⟩, r)
      | .error s => .error (c :: s)
    else if Text.isDigit c ∨ (c = '-' ∧ (t.head?.map Text.isDigit).getD false) then
      let whole := t.takeWhile Text.isDigit
      let after := fractionRun (t.dropWhile Text.isDigit)
      .ok (⟨.literal, c :: whole ++ after.1⟩, after.2)
    else .error [c]

theorem next_length {c : Char} {t r : Text} {k : Token} (h : next c t = .ok (k, r)) :
    r.length ≤ t.length := by
  unfold next at h
  repeat' split at h
  all_goals simp only [Except.ok.injEq, Prod.mk.injEq, reduceCtorEq] at h
  all_goals try rw [← h.2]
  all_goals try (simp; done)
  all_goals try (simp; omega)
  · exact nameRun_length t
  · have := stringRun_length ‹_›
    omega
  · have h1 := fractionRun_length (t.dropWhile Text.isDigit)
    have h2 := (List.dropWhile_suffix (l := t) Text.isDigit).length_le
    omega

/-- The tokens of a type expression, or the run of characters that is none. -/
def tokens (t : Text) : Except Text (List Token) :=
  match t with
  | [] => .ok []
  | c :: t =>
    if isSeparator c then tokens t
    else
      match h : next c t with
      | .error s => .error s
      | .ok (k, r) =>
        have := next_length h
        (tokens r).map (k :: ·)
termination_by t.length

end TemplateDocs.Parameter
