import TemplateDocs.Lines
import TemplateDocs.Yaml.Scalar

/-!
# YAML tokens

Indentation is turned into tokens that open and close collections. A key is only known when its
colon is found: the place of every scalar that could be a key is remembered, and the tokens before a
key are put there afterwards.
-/
namespace TemplateDocs.Yaml

inductive Token where
  | documentStart
  | documentEnd
  | versionDirective
  | tagDirective (handle start : Text)
  | sequenceStart
  | mappingStart
  | blockEnd
  | flowSequenceStart
  | flowSequenceEnd
  | flowMappingStart
  | flowMappingEnd
  | blockEntry
  | flowEntry
  | key
  | value
  | alias (name : Text)
  | anchor (name : Text)
  | tag (handle suffix : Text)
  | scalar (text : Text) (plain : Bool)
  deriving DecidableEq, Repr

/-- A place where a key may have started. -/
structure KeyPlace where
  /-- The text cannot be anything but a key. -/
  required : Bool
  /-- How many tokens were there before it. -/
  number : Nat
  index : Nat
  line : Nat
  column : Nat

structure Scanner where
  rest : Text
  index : Nat := 0
  line : Nat := 0
  column : Nat := 0
  /-- The number of open brackets and braces. -/
  flow : Nat := 0
  indent : Int := -1
  indents : List Int := []
  /-- The possible key of each flow level, the innermost first. -/
  keys : List (Option KeyPlace) := [none]
  /-- Whether a key may start here. -/
  allowed : Bool := true
  /-- The tokens so far, the newest first. -/
  tokens : List Token := []

namespace Scanner

def inFlow (s : Scanner) : Bool := s.flow ≠ 0

def advance (s : Scanner) (c : Char) : Scanner :=
  if c = '\n' then { s with index := s.index + 1, line := s.line + 1, column := 0 }
  else { s with index := s.index + 1, column := s.column + 1 }

/-- Goes on with `rest`, which is a suffix of what was left. -/
def moveTo (s : Scanner) (rest : Text) : Scanner :=
  let read := s.rest.take (s.rest.length - rest.length)
  { read.foldl advance s with rest := rest }

def emit (s : Scanner) (t : Token) : Scanner := { s with tokens := t :: s.tokens }

/-- Puts a token before those that came after the first `number`. -/
def insert (s : Scanner) (number : Nat) (t : Token) : Scanner :=
  let later := s.tokens.length - number
  { s with tokens := s.tokens.take later ++ t :: s.tokens.drop later }

/-! ## Indentation -/

def unrollBy (column : Int) : List Int → Int → List Token → Int × List Int × List Token
  | [], indent, tokens => (indent, [], tokens)
  | outer :: indents, indent, tokens =>
    if column < indent then unrollBy column indents outer (.blockEnd :: tokens)
    else (indent, outer :: indents, tokens)

/-- Closes the collections that are indented deeper than `column`. -/
def unroll (s : Scanner) (column : Int) : Scanner :=
  if s.inFlow then s
  else
    let (indent, indents, tokens) := unrollBy column s.indents s.indent s.tokens
    { s with indent := indent, indents := indents, tokens := tokens }

/-- Opens a collection at `column` unless it is open. -/
def roll (s : Scanner) (column number : Nat) (t : Token) : Scanner :=
  if s.inFlow || (column : Int) ≤ s.indent then s
  else { s with indent := column, indents := s.indent :: s.indents }.insert number t

/-! ## Keys -/

/-- A key must fit on one line of at most so many characters. -/
def maxKeyLength : Nat := 1024

def isStale (s : Scanner) (k : KeyPlace) : Bool :=
  k.line < s.line || k.index + maxKeyLength < s.index

/-- Forgets places that can be keys no longer. -/
def dropStale? (s : Scanner) : Option Scanner :=
  if s.keys.any fun k => k.any fun k => k.required && s.isStale k then none
  else some { s with keys := s.keys.map fun k => k.filter fun k => !s.isStale k }

def key? (s : Scanner) : Option KeyPlace := s.keys.head?.join

def setKey (s : Scanner) (k : Option KeyPlace) : Scanner := { s with keys := k :: s.keys.drop 1 }

/-- Gives up the possible key of this level. -/
def dropKey? (s : Scanner) : Option Scanner :=
  if s.key?.any KeyPlace.required then none else some (s.setKey none)

/-- Remembers this place as a possible key. -/
def saveKey? (s : Scanner) : Option Scanner :=
  if s.allowed then do
    let required := !s.inFlow && s.indent = s.column
    let s ← s.dropKey?
    return s.setKey (some ⟨required, s.tokens.length, s.index, s.line, s.column⟩)
  else some s

/-! ## Gaps -/

/-- Skips blanks, comments and line ends; a key may start on a new line. A tab counts as a blank
only where no key can start. -/
def skipGap (flow : Bool) : Bool → Bool → Text → Bool × Text
  | allowed, _, [] => (allowed, [])
  | allowed, comment, c :: rest =>
    if c = '\n' then skipGap flow (allowed || !flow) false rest
    else if comment ∨ c = '#' then skipGap flow allowed true rest
    else if c = ' ' ∨ (c = '\t' ∧ (flow ∨ !allowed)) then skipGap flow allowed false rest
    else (allowed, c :: rest)

def toNextToken (s : Scanner) : Scanner :=
  let (allowed, rest) := skipGap s.inFlow s.allowed false s.rest
  { s.moveTo rest with allowed := allowed }

/-! ## One token -/

/-- Takes the next `count` characters for a token. -/
def take (s : Scanner) (count : Nat) (t : Token) : Scanner :=
  (s.moveTo (s.rest.drop count)).emit t

def openFlow? (s : Scanner) (t : Token) : Option Scanner := do
  let s ← s.saveKey?
  let s := { s with flow := s.flow + 1, keys := none :: s.keys, allowed := true }
  return s.take 1 t

def closeFlow? (s : Scanner) (t : Token) : Option Scanner := do
  let s ← s.dropKey?
  let s :=
    if s.inFlow then { s with flow := s.flow - 1, keys := s.keys.drop 1, allowed := false }
    else { s with allowed := false }
  return s.take 1 t

def flowEntry? (s : Scanner) : Option Scanner := do
  let s ← s.dropKey?
  return { s with allowed := true }.take 1 .flowEntry

def blockEntry? (s : Scanner) : Option Scanner := do
  if !s.inFlow && !s.allowed then none
  else
    let s ← (s.roll s.column s.tokens.length .sequenceStart).dropKey?
    return { s with allowed := true }.take 1 .blockEntry

def explicitKey? (s : Scanner) : Option Scanner := do
  if !s.inFlow && !s.allowed then none
  else
    let s ← (s.roll s.column s.tokens.length .mappingStart).dropKey?
    return { s with allowed := !s.inFlow }.take 1 .key

/-- A colon: the place of its key gets the tokens that go before a key. -/
def value? (s : Scanner) : Option Scanner :=
  match s.key? with
  | some k =>
    let s := (s.insert k.number .key).roll k.column k.number .mappingStart
    some ({ s.setKey none with allowed := false }.take 1 .value)
  | none =>
    if !s.inFlow && !s.allowed then none
    else
      let s := s.roll s.column s.tokens.length .mappingStart
      some ({ s with allowed := !s.inFlow }.take 1 .value)

def marker? (s : Scanner) (t : Token) : Option Scanner := do
  let s ← (s.unroll (-1)).dropKey?
  return { s with allowed := false }.take 3 t

def isWord (c : Char) : Bool := c.isAlphanum || c = '_' || c = '-'

/-- An anchor or alias, which ends where no further name could go on. -/
def named? (s : Scanner) (make : Text → Token) : Option Scanner := do
  let s ← s.saveKey?
  let body := s.rest.drop 1
  let name := body.takeWhile isWord
  let rest := body.dropWhile isWord
  let closed := endsHere rest || rest.head?.any fun c => "?:,]\x7d%@`".toList.contains c
  if name.isEmpty || !closed then none
  else return { s.moveTo rest with allowed := false }.emit (make name)

def isTagChar (c : Char) : Bool :=
  c.isAlphanum || "_-;/?:@&=+$.%!~*'()".toList.contains c

/-- The parts of a tag, and what follows it. -/
def tagParts? (t : Text) : Option (Token × Text) :=
  match t with
  | '<' :: rest =>
    let body := rest.takeWhile fun c => isTagChar c || c = ',' || c = '[' || c = ']'
    match rest.drop body.length with
    | '>' :: after => if body.isEmpty then none else some (.tag [] body, after)
    | _ => none
  | t =>
    let handle := t.takeWhile isWord
    match t.dropWhile isWord with
    | '!' :: rest =>
      let suffix := rest.takeWhile isTagChar
      if suffix.isEmpty then none
      else some (.tag ('!' :: handle ++ ['!']) suffix, rest.dropWhile isTagChar)
    | _ =>
      let suffix := t.takeWhile isTagChar
      if suffix.isEmpty then some (.tag [] ['!'], t)
      else some (.tag ['!'] suffix, t.dropWhile isTagChar)

def tag? (s : Scanner) : Option Scanner := do
  let s ← s.saveKey?
  let (t, rest) ← tagParts? (s.rest.drop 1)
  if endsHere rest || (s.inFlow && rest.head? = some ',') then
    return { s.moveTo rest with allowed := false }.emit t
  else none

def blockScalar? (s : Scanner) (literal : Bool) : Option Scanner := do
  let s ← s.dropKey?
  let (t, rest) ← block? literal s.indent (s.rest.drop 1)
  return { s.moveTo rest with allowed := true }.emit (.scalar t false)

def quotedScalar? (s : Scanner) (read : Nat → Pending → Text → Option (Text × Text)) :
    Option Scanner := do
  let s ← s.saveKey?
  let (t, rest) ← read (s.column + 1) (.blanks []) (s.rest.drop 1)
  return { s.moveTo rest with allowed := false }.emit (.scalar t false)

def plainScalar? (s : Scanner) : Option Scanner := do
  let s ← s.saveKey?
  let (t, rest, crossed) ← plain? s.inFlow (s.indent + 1) s.column (.blanks []) s.rest
  return { s.moveTo rest with allowed := crossed }.emit (.scalar t true)

/-- The versions that can be read. -/
def isVersion (t : Text) : Bool :=
  match Text.cut? ['.'] t with
  | some (major, minor) =>
    Text.digits? 10 major = some 1 &&
      (Text.digits? 10 minor = some 1 || Text.digits? 10 minor = some 2)
  | none => false

/-- The words of a directive line up to a comment. -/
def directiveWords (line : Text) : List Text :=
  ((Text.split ' ' (line.map fun c => if c = '\t' then ' ' else c)).filter fun w => !w.isEmpty)
    |>.takeWhile fun w => w.head? ≠ some '#'

def directiveToken? (words : List Text) : Option Token :=
  match words with
  | [name, version] =>
    if name = "YAML".toList ∧ isVersion version then some .versionDirective else none
  | [name, handle, start] => if name = "TAG".toList then some (.tagDirective handle start) else none
  | _ => none

def directive? (s : Scanner) : Option Scanner := do
  let s ← (s.unroll (-1)).dropKey?
  let body := s.rest.drop 1
  let t ← directiveToken? (directiveWords (body.takeWhile (· ≠ '\n')))
  return { s.moveTo (body.dropWhile (· ≠ '\n')) with allowed := false }.emit t

/-- Characters that start no plain scalar. -/
def isIndicator (c : Char) : Bool := " \t-?:,[]\x7b\x7d#&*!|>'\"%@`".toList.contains c

/-- Reads the token at the front. -/
def token? (s : Scanner) (c : Char) (rest : Text) : Option Scanner :=
  if s.column = 0 ∧ c = '%' then s.directive?
  else if s.column = 0 ∧ isMarker (c :: rest) then
    s.marker? (if c = '-' then .documentStart else .documentEnd)
  else if c = '[' then s.openFlow? .flowSequenceStart
  else if c = '\x7b' then s.openFlow? .flowMappingStart
  else if c = ']' then s.closeFlow? .flowSequenceEnd
  else if c = '\x7d' then s.closeFlow? .flowMappingEnd
  else if c = ',' then s.flowEntry?
  else if c = '-' ∧ endsHere rest then s.blockEntry?
  else if c = '?' ∧ (s.inFlow ∨ endsHere rest) then s.explicitKey?
  else if c = ':' ∧ (s.inFlow ∨ endsHere rest) then s.value?
  else if c = '*' then s.named? .alias
  else if c = '&' then s.named? .anchor
  else if c = '!' then s.tag?
  else if c = '|' ∧ !s.inFlow then s.blockScalar? true
  else if c = '>' ∧ !s.inFlow then s.blockScalar? false
  else if c = '\'' then s.quotedScalar? single?
  else if c = '"' then s.quotedScalar? double?
  else if !isIndicator c ∨ c = '-' ∨ (!s.inFlow ∧ (c = '?' ∨ c = ':')) then s.plainScalar?
  else none

/-- Closes everything at the end of the text. -/
def finish? (s : Scanner) : Option (List Token) := do
  let s ← (s.unroll (-1)).dropKey?
  return s.tokens.reverse

/-- Reads tokens until the text ends. Every token takes at least one character. -/
def run? (s : Scanner) : Option (List Token) := do
  let next ← s.toNextToken.dropStale?
  let next := next.unroll next.column
  match next.rest with
  | [] => next.finish?
  | c :: rest =>
    let after ← next.token? c rest
    if _h : after.rest.length < s.rest.length then after.run? else none
termination_by s.rest.length

end Scanner

/-- Characters that a document may hold. -/
def isPrintable (c : Char) : Bool :=
  let n := c.toNat
  n == 9 || n == 10 || n == 13 || (0x20 ≤ n && n ≤ 0x7E) || n == 0x85
    || (0xA0 ≤ n && n != 0xFEFF && n != 0xFFFE && n != 0xFFFF)

/-- The tokens of a document; every line end counts as a line feed. -/
def tokens? (t : Text) : Option (List Token) :=
  let t := if t.head? = some '\uFEFF' then t.drop 1 else t
  if t.all isPrintable then
    Scanner.run? { rest := (Lines.unifyEnds t).map fun c => if c = '\u0085' then '\n' else c }
  else none

end TemplateDocs.Yaml
