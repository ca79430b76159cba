import TemplateDocs.Json.Value

/-!
# YAML scalars

Scalars in quotes, plain ones and indented blocks. A line end inside a scalar is a blank; each empty
line after it is a line end.
-/
namespace TemplateDocs.Yaml

def isBlank (c : Char) : Bool := c = ' ' || c = '\t'

def isGap (c : Char) : Bool := isBlank c || c = '\n'

/-- Whether a blank, a line end or nothing stands at the front. -/
def endsHere : Text → Bool
  | [] => true
  | c :: _ => isGap c

/-- Whether a document marker stands at the front. -/
def isMarker (t : Text) : Bool :=
  match Text.after? "---".toList t, Text.after? "...".toList t with
  | some rest, _ => endsHere rest
  | none, some rest => endsHere rest
  | none, none => false

/-- Blanks and line ends that were read but not yet written. -/
inductive Pending where
  | blanks (t : Text)
  /-- A line end and so many empty lines. -/
  | folded (empty : Nat)
  /-- A line end that a backslash hides, and so many empty lines. -/
  | continued (empty : Nat)

namespace Pending

def text : Pending → Text
  | .blanks t => t
  | .folded 0 => [' ']
  | .folded n => List.replicate n '\n'
  | .continued n => List.replicate n '\n'

def addBlank (c : Char) : Pending → Pending
  | .blanks t => .blanks (t ++ [c])
  | p => p

def addLineEnd : Pending → Pending
  | .blanks _ => .folded 0
  | .folded n => .folded (n + 1)
  | .continued n => .continued (n + 1)

def crossedLine : Pending → Bool
  | .blanks _ => false
  | _ => true

def isNothing : Pending → Bool
  | .blanks t => t.isEmpty
  | _ => false

end Pending

/-! ## Plain scalars -/

def isFlowMark (c : Char) : Bool := c = ',' || c = '[' || c = ']' || c = '\x7b' || c = '\x7d'

/-- A plain scalar: its text, what follows, and whether a line end was passed after it. -/
def plain? (flow : Bool) (indent : Int) :
    Nat → Pending → Text → Option (Text × Text × Bool)
  | _, pending, [] => some ([], [], pending.crossedLine)
  | column, pending, c :: rest =>
    if c = '\n' then plain? flow indent 0 pending.addLineEnd rest
    else if isBlank c then
      if c = '\t' ∧ pending.crossedLine ∧ (column : Int) < indent then none
      else plain? flow indent (column + 1) (pending.addBlank c) rest
    else if pending.crossedLine ∧ !flow ∧ (column : Int) < indent then
      some ([], c :: rest, true)
    else if column = 0 ∧ pending.crossedLine ∧ isMarker (c :: rest) then some ([], c :: rest, true)
    else if c = '#' ∧ !pending.isNothing then some ([], c :: rest, pending.crossedLine)
    else if flow ∧ c = ':' ∧ (rest.head?.any fun d => isFlowMark d || d = '?') then none
    else if (c = ':' ∧ endsHere rest) ∨ (flow ∧ isFlowMark c) then
      some ([], c :: rest, pending.crossedLine)
    else
      (plain? flow indent (column + 1) (.blanks []) rest).map fun (t, r, crossed) =>
        (pending.text ++ c :: t, r, crossed)

/-! ## Quoted scalars -/

/-- The rest of a scalar in single quotes, where a quote is written twice. -/
def single? : Nat → Pending → Text → Option (Text × Text)
  | _, _, [] => none
  | column, pending, c :: rest =>
    if c = '\n' then single? 0 pending.addLineEnd rest
    else if isBlank c then single? (column + 1) (pending.addBlank c) rest
    else if column = 0 ∧ isMarker (c :: rest) then none
    else if c = '\'' then
      match rest with
      | '\'' :: more =>
        (single? (column + 2) (.blanks []) more).map fun (t, r) => (pending.text ++ '\'' :: t, r)
      | rest => some (pending.text, rest)
    else (single? (column + 1) (.blanks []) rest).map fun (t, r) => (pending.text ++ c :: t, r)

def shortEscape? : Char → Option Char
  | '0' => some '\x00'
  | 'a' => some '\x07'
  | 'b' => some '\x08'
  | 't' => some '\t'
  | '\t' => some '\t'
  | 'n' => some '\n'
  | 'v' => some '\x0b'
  | 'f' => some '\x0c'
  | 'r' => some '\r'
  | 'e' => some '\x1b'
  | ' ' => some ' '
  | '"' => some '"'
  | '/' => some '/'
  | '\\' => some '\\'
  | 'N' => some '\u0085'
  | '_' => some '\u00a0'
  | 'L' => some '\u2028'
  | 'P' => some '\u2029'
  | _ => none

def hexCount? : Char → Option Nat
  | 'x' => some 2
  | 'u' => some 4
  | 'U' => some 8
  | _ => none

/-- The character of the escape whose backslash was read, and what follows. -/
def escape? : Text → Option (Char × Text)
  | [] => none
  | c :: rest =>
    match hexCount? c with
    | some count =>
      if (rest.take count).length = count then
        (Text.digits? 16 (rest.take count)).bind fun n =>
          if n.isValidChar then some (Char.ofNat n, rest.drop count) else none
      else none
    | none => (shortEscape? c).map fun e => (e, rest)

theorem escape?_length {t r : Text} {e : Char} (h : escape? t = some (e, r)) :
    r.length < t.length := by
  unfold escape? at h
  split at h
  · simp at h
  · split at h
    · split at h
      · obtain ⟨n, _, h⟩ := Option.bind_eq_some_iff.1 h
        split at h
        · simp only [Option.some.injEq, Prod.mk.injEq] at h
          rw [← h.2, List.length_drop, List.length_cons]
          omega
        · simp at h
      · simp at h
    · obtain ⟨_, _, h⟩ := Option.map_eq_some_iff.1 h
      simp only [Prod.mk.injEq] at h
      simp [← h.2]

/-- The rest of a scalar in double quotes. -/
def double? (column : Nat) (pending : Pending) (t : Text) : Option (Text × Text) :=
  match t with
  | [] => none
  | c :: rest =>
    if c = '\n' then double? 0 pending.addLineEnd rest
    else if isBlank c then double? (column + 1) (pending.addBlank c) rest
    else if column = 0 ∧ isMarker (c :: rest) then none
    else if c = '"' then some (pending.text, rest)
    else if c = '\\' then
      match rest with
      | '\n' :: more =>
        (double? 0 (.continued 0) more).map fun (t, r) => (pending.text ++ t, r)
      | rest =>
        match h : escape? rest with
        | none => none
        | some (e, r) =>
          have := escape?_length h
          (double? (column + 2) (.blanks []) r).map fun (t, r) => (pending.text ++ e :: t, r)
    else (double? (column + 1) (.blanks []) rest).map fun (t, r) => (pending.text ++ c :: t, r)
termination_by t.length
decreasing_by all_goals (simp at *; try omega)

/-! ## Indented blocks -/

inductive Chomp where
  | strip | clip | keep
  deriving DecidableEq, Repr

/-- What the header of a block says. -/
structure Header where
  chomp : Chomp := .clip
  /-- The indentation on top of that of the parent. -/
  increment : Option Nat := none

def chompOf? : Char → Option Chomp
  | '+' => some .keep
  | '-' => some .strip
  | _ => none

def incrementOf? (c : Char) : Option Nat :=
  if '1' ≤ c ∧ c ≤ '9' then some (Text.digitValue c) else none

/-- The two signs of a header in either order, and what follows. -/
def headerSigns : Text → Header × Text
  | [] => ({}, [])
  | c :: rest =>
    match chompOf? c, incrementOf? c with
    | some chomp, _ =>
      match rest with
      | d :: more =>
        match incrementOf? d with
        | some n => (⟨chomp, some n⟩, more)
        | none => (⟨chomp, none⟩, rest)
      | [] => (⟨chomp, none⟩, [])
    | none, some n =>
      match rest with
      | d :: more =>
        match chompOf? d with
        | some chomp => (⟨chomp, some n⟩, more)
        | none => (⟨.clip, some n⟩, rest)
      | [] => (⟨.clip, some n⟩, [])
    | none, none => ({}, c :: rest)

/-- The header of a block up to the end of its line, a comment included. -/
def header? (t : Text) : Option (Header × Text) :=
  let (h, rest) := headerSigns t
  match rest.dropWhile isBlank with
  | [] => some (h, [])
  | '\n' :: lines => some (h, lines)
  | '#' :: comment => some (h, (comment.dropWhile (· ≠ '\n')).drop 1)
  | _ => none

def spaces (line : Text) : Nat := (line.takeWhile (· = ' ')).length

def isSpaces (line : Text) : Bool := line.all (· = ' ')

/-- The indentation of the first line that is not empty, or of longer lines of blanks before it. -/
def detected : List Text → Nat
  | [] => 0
  | line :: rest => if isSpaces line then max line.length (detected rest) else spaces line

/-- Whether a tab stands where the indentation is. -/
def hasTab (indent : Nat) (line : Text) : Bool :=
  spaces line < indent && (line.drop (spaces line)).head? = some '\t'

/-- What has been written of a block, and what is held back. -/
structure BlockState where
  text : Text := []
  /-- The end of the last line. -/
  break_ : Bool := false
  /-- Empty lines since then. -/
  empty : Nat := 0
  /-- Whether the last line started with a blank. -/
  blank : Bool := false

/-- The text between the last line and one that starts with a blank or not. -/
def BlockState.gap (s : BlockState) (literal blank : Bool) : Text :=
  let breaks := List.replicate s.empty '\n'
  if !literal && s.break_ && !s.blank && !blank then
    if s.empty = 0 then [' '] else breaks
  else (if s.break_ then ['\n'] else []) ++ breaks

/-- Adds the lines of a block; what is left starts with the first line outside it. The last line of
a text has no line end. -/
def blockLines? (literal : Bool) (indent : Nat) (s : BlockState) :
    List Text → Option (BlockState × List Text)
  | [] => some (s, [])
  | line :: rest =>
    let content := line.drop (min (spaces line) indent)
    if hasTab indent line then none
    else if content.isEmpty then
      if rest.isEmpty then some (s, [])
      else blockLines? literal indent { s with empty := s.empty + 1 } rest
    else if spaces line < indent then some (s, line :: rest)
    else
      let blank := content.head?.any isBlank
      let s : BlockState := {
        text := s.text ++ s.gap literal blank ++ content
        break_ := !rest.isEmpty
        empty := 0
        blank := blank }
      blockLines? literal indent s rest

/-- The text of a block under its header, and the lines after it. -/
def block? (literal : Bool) (parent : Int) (t : Text) : Option (Text × Text) := do
  let (h, rest) ← header? t
  let lines := Text.split '\n' rest
  let indent : Nat :=
    match h.increment with
    | some n => ((max parent 0) + n).toNat
    | none => max (max (detected lines) (parent + 1).toNat) 1
  let (s, left) ← blockLines? literal indent {} lines
  let ending :=
    match h.chomp with
    | .strip => []
    | .clip => if s.break_ then ['\n'] else []
    | .keep => (if s.break_ then ['\n'] else []) ++ List.replicate s.empty '\n'
  return (s.text ++ ending, Text.join ['\n'] left)

end TemplateDocs.Yaml
