import TemplateDocs.Files.Path

/-!
# Glob patterns

A pattern is matched against the bytes of a path. `?` stands for one byte and `*` for any number of
bytes other than a slash; `**` between slashes stands for any number of directories; brackets list
bytes and braces list alternatives. A backslash makes the next character literal.
-/
namespace TemplateDocs.Files

inductive Piece where
  | literal (c : Char)
  /-- One byte that is no slash. -/
  | any
  /-- Bytes that are no slashes. -/
  | run
  /-- `**` at the front: directories up to a slash, or none. -/
  | leading
  /-- `**` at the end: a slash and everything after it. -/
  | trailing
  /-- `**` in between: a slash, or directories between two slashes. -/
  | between
  | oneOf (negated : Bool) (ranges : List (Char × Char))
  | either (branches : List (List Piece))

abbrev Pattern := List Piece

namespace Pattern

/-! ## Matching -/

/-- What is left after each way to skip bytes that are no slashes. -/
def runEnds : Bytes → List Bytes
  | [] => [[]]
  | b :: rest => (b :: rest) :: if b = slash then [] else runEnds rest

/-- What follows each slash. -/
def afterSlashes : Bytes → List Bytes
  | [] => []
  | b :: rest => if b = slash then rest :: afterSlashes rest else afterSlashes rest

/-- Every end of a list of bytes. -/
def ends : Bytes → List Bytes
  | [] => [[]]
  | b :: rest => (b :: rest) :: ends rest

/-- The ranges of bytes that a range of characters stands for: the last byte of the first character
up to the first byte of the last one, and the other bytes of both. -/
def byteRanges (range : Char × Char) : List (UInt8 × UInt8) :=
  let single (b : UInt8) := (b, b)
  let low := Text.encodeChar range.1
  let high := Text.encodeChar range.2
  if range.1 = range.2 then low.map single
  else
    match low.getLast?, high with
    | some a, b :: others => low.dropLast.map single ++ (a, b) :: others.map single
    | _, _ => []

def inRanges (ranges : List (Char × Char)) (b : UInt8) : Bool :=
  (ranges.flatMap byteRanges).any fun r => r.1 ≤ b && b ≤ r.2

mutual

/-- Whether nothing at all is written for a piece. -/
def isVoid : Piece → Bool
  | .either branches => areVoidBranches branches
  | _ => false

def areVoid : List Piece → Bool
  | [] => true
  | p :: rest => isVoid p && areVoid rest

def areVoidBranches : List (List Piece) → Bool
  | [] => true
  | branch :: rest => areVoid branch && areVoidBranches rest

end

mutual

/-- What may be left of the bytes after a piece. -/
def pieceEnds (bytes : Bytes) : Piece → List Bytes
  | .literal c => (Text.after? (Text.encodeChar c) bytes).toList
  | .any =>
    match bytes with
    | b :: rest => if b = slash then [] else [rest]
    | [] => []
  | .run => runEnds bytes
  | .leading => bytes :: afterSlashes bytes
  | .trailing =>
    match bytes with
    | b :: rest => if b = slash then ends rest else []
    | [] => []
  | .between =>
    match bytes with
    | b :: rest => if b = slash then rest :: afterSlashes rest else []
    | [] => []
  | .oneOf negated ranges =>
    match bytes with
    | b :: rest => if inRanges ranges b != negated then [rest] else []
    | [] => []
  | .either branches => if areVoidBranches branches then [bytes] else branchEnds bytes branches

/-- What may be left after pieces in a row. -/
def rowEnds (open_ : List Bytes) : List Piece → List Bytes
  | [] => open_
  | p :: rest => rowEnds (open_.flatMap fun bytes => pieceEnds bytes p).eraseDups rest

/-- What may be left after one of several branches; an empty branch is no choice. -/
def branchEnds (bytes : Bytes) : List (List Piece) → List Bytes
  | [] => []
  | branch :: rest =>
    (if areVoid branch then [] else rowEnds [bytes] branch) ++ branchEnds bytes rest

end

/-- A pattern matches when nothing may be left. `**` alone matches everything. -/
def isMatch (pattern : Pattern) (path : Path) : Bool :=
  match pattern with
  | [.leading] => true
  | pattern => (rowEnds [path] pattern).any List.isEmpty

/-! ## Reading -/

/-- A list in brackets as far as it was read. -/
structure Listing where
  ranges : List (Char × Char) := []
  inRange : Bool := false

namespace Listing

/-- The list with the end of its last range replaced; a range must not go down. -/
def extend? (l : Listing) (c : Char) : Option Listing :=
  match l.ranges.getLast? with
  | some (low, _) =>
    if c.toNat < low.toNat then none else some ⟨l.ranges.dropLast ++ [(low, c)], false⟩
  | none => none

def add (l : Listing) (c : Char) : Listing := ⟨l.ranges ++ [(c, c)], false⟩

def next? (l : Listing) (c : Char) : Option Listing :=
  if l.inRange then l.extend? c
  else if c = '-' ∧ !l.ranges.isEmpty then some { l with inRange := true }
  else some (l.add c)

/-- The ranges of a closed list; a dash at the end is literal. -/
def close (l : Listing) : List (Char × Char) := if l.inRange then l.ranges ++ [('-', '-')] else l.ranges

end Listing

/-- How the characters after an opening bracket read. -/
inductive Bracket where
  | closed (ranges : List (Char × Char)) (rest : Text)
  | unclosed
  | badRange

/-- Reads a list up to its closing bracket, which is literal at the front. -/
def bracket (l : Listing) : Text → Bracket
  | [] => .unclosed
  | c :: rest =>
    if c = ']' ∧ !l.ranges.isEmpty then .closed l.close rest
    else
      match l.next? c with
      | some l => bracket l rest
      | none => .badRange

theorem bracket_length {l : Listing} {t rest : Text} {ranges : List (Char × Char)}
    (h : bracket l t = .closed ranges rest) : rest.length < t.length := by
  induction t generalizing l with
  | nil => simp [bracket] at h
  | cons c t ih =>
    rw [bracket] at h
    split at h
    · injection h with _ h
      subst h
      exact Nat.lt_succ_self _
    · split at h
      · have := ih h
        simp
        omega
      · simp at h

/-- A pattern as far as it was read. -/
structure Reading where
  /-- The branch being read, last piece first. -/
  branch : List Piece := []
  /-- For each open brace, innermost first, the branch around it and the branches before the current
  one. -/
  groups : List (List Piece × List (List Piece)) := []
  /-- The character before the one to be read. -/
  before : Option Char := none
  /-- Whether an unclosed bracket was met, after which brackets are literal. -/
  literalBrackets : Bool := false

namespace Reading

def push (r : Reading) (p : Piece) (c : Char) : Reading :=
  { r with branch := p :: r.branch, before := some c }

def openGroup (r : Reading) : Reading :=
  { r with branch := [], groups := (r.branch, []) :: r.groups, before := some '\x7b' }

def closeGroup? (r : Reading) : Option Reading :=
  match r.groups with
  | [] => none
  | (around, branches) :: groups =>
    some { r with
      branch := .either (branches ++ [r.branch.reverse]) :: around
      groups := groups
      before := some '\x7d' }

def comma (r : Reading) : Reading :=
  match r.groups with
  | [] => r.push (.literal ',') ','
  | (around, branches) :: groups =>
    { r with
      branch := []
      groups := (around, branches ++ [r.branch.reverse]) :: groups
      before := some ',' }

/-- Two stars that stand for two runs. -/
def runs (r : Reading) : Reading := (r.push .run '*').push .run '*'

/-- Puts `**` in place of the slash before it; two in a row are one. -/
def stretch (r : Reading) (p : Piece) : Reading :=
  match r.branch with
  | .leading :: rest => { r with branch := .leading :: rest }
  | .trailing :: rest => { r with branch := .trailing :: rest }
  | _ :: rest => { r with branch := p :: rest }
  | [] => { r with branch := [p] }

/-- Reads `**` before the given characters, and says whether it takes a slash after it. -/
def stars (r : Reading) (rest : Text) : Reading × Bool :=
  let slashNext := rest.head? = some '/'
  if r.branch.isEmpty then
    if rest.isEmpty ∨ slashNext then
      ({ r with branch := [.leading], before := some (if slashNext then '/' else '*') }, slashNext)
    else (r.runs, false)
  else if r.before ≠ some '/' ∧
      (r.groups.isEmpty ∨ (r.before ≠ some ',' ∧ r.before ≠ some '\x7b')) then
    (r.runs, false)
  else if slashNext then ({ r.stretch .between with before := some '/' }, true)
  else if rest.isEmpty ∨
      (!r.groups.isEmpty ∧ (rest.head? = some ',' ∨ rest.head? = some '\x7d')) then
    ({ r.stretch .trailing with before := some '*' }, false)
  else (r.runs, false)

/-- The pattern once all characters are read; an open group is refused. -/
def finish? (r : Reading) : Option Pattern :=
  if r.groups.isEmpty then some r.branch.reverse else none

end Reading

/-- Reads a pattern. With `lenient`, a bracket that is never closed is literal. -/
def read? (lenient : Bool) (r : Reading) (t : Text) : Option Pattern :=
  match t with
  | [] => r.finish?
  | c :: rest =>
    if c = '?' then read? lenient (r.push .any c) rest
    else if c = '*' then
      match rest with
      | '*' :: after =>
        match r.stars after with
        | (r, false) => read? lenient r after
        | (r, true) => read? lenient r (after.drop 1)
      | after => read? lenient (r.push .run c) after
    else if c = '[' ∧ !r.literalBrackets then
      let negated := rest.head? = some '!' ∨ rest.head? = some '^'
      match h : bracket {} (if negated then rest.drop 1 else rest) with
      | .closed ranges after =>
        have : after.length < rest.length := by
          have := bracket_length h
          split at this
          · simp at this
            omega
          · exact this
        read? lenient (r.push (.oneOf negated ranges) ']') after
      | .unclosed =>
        if lenient then read? lenient { r.push (.literal c) c with literalBrackets := true } rest
        else none
      | .badRange => none
    else if c = '\x7b' then read? lenient r.openGroup rest
    else if c = '\x7d' then
      match r.closeGroup? with
      | some r => read? lenient r rest
      | none => none
    else if c = ',' then read? lenient r.comma rest
    else if c = '\\' then
      match rest with
      | d :: after => read? lenient (r.push (.literal d) d) after
      | [] => none
    else read? lenient (r.push (.literal c) c) rest
termination_by t.length

def parse? (t : Text) : Option Pattern := read? false {} t

/-- Reads a pattern in which a bracket that is never closed is literal. -/
def parseLenient? (t : Text) : Option Pattern := read? true {} t

end Pattern
end TemplateDocs.Files
