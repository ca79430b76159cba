import TemplateDocs.Files.Pattern

/-!
# Ignore rules

Each line of an ignore file is a rule for paths below the project root. The last rule that applies
to a path decides; a rule after an exclamation mark takes a path back in.
-/
namespace TemplateDocs.Files

structure Rule where
  pattern : Pattern
  /-- Paths are taken back in. -/
  negated : Bool
  onlyDirectories : Bool

namespace Rule

def applies (r : Rule) (path : Path) (isDirectory : Bool) : Bool :=
  (isDirectory || !r.onlyDirectories) && r.pattern.isMatch path

end Rule

/-- What a line of an ignore file is. -/
inductive RuleLine where
  | blank
  | rule (r : Rule)
  | bad

namespace RuleLine

/-- The pattern of a rule: one without a slash applies at any depth, and one for everything in a
directory leaves the directory itself alone. -/
def patternText (anchored : Bool) (body : Text) : Text :=
  let deep := Text.startsWith "**/".toList body || body = "**".toList
  let t := if anchored || body.any (· = '/') || deep then body else "**/".toList ++ body
  if Text.endsWith "/**".toList t then t ++ "/*".toList else t

/-- A body without the slash at its end, which asks for directories. -/
def trimSlash (body : Text) : Text × Bool :=
  match body.reverse with
  | '/' :: '\\' :: front => (front.reverse, true)
  | '/' :: front => (front.reverse, true)
  | _ => (body, false)

def ofBody (negated anchored : Bool) (body : Text) : RuleLine :=
  let (body, onlyDirectories) := trimSlash body
  match Pattern.parseLenient? (patternText anchored body) with
  | some pattern => .rule ⟨pattern, negated, onlyDirectories⟩
  | none => .bad

/-- A rule that may start with a slash, which anchors it at the root. -/
def ofAnchored (negated : Bool) : Text → RuleLine
  | '/' :: body => ofBody negated true body
  | body => ofBody negated false body

/-- Reads one line. Blanks at its end count only after a backslash. -/
def ofText (line : Text) : RuleLine :=
  let line := if Text.endsWith "\\ ".toList line then line else Text.trimEnd line
  match line with
  | [] => .blank
  | '#' :: _ => .blank
  | '\\' :: '!' :: rest => ofBody false false ('!' :: rest)
  | '\\' :: '#' :: rest => ofBody false false ('#' :: rest)
  | '!' :: rest => ofAnchored true rest
  | line => ofAnchored false line

end RuleLine

/-- Rules in order. -/
abbrev Rules := List Rule

namespace Rules

/-- Whether the last rule that applies leaves the path out. -/
def ignores (rules : Rules) (path : Path) (isDirectory : Bool) : Bool :=
  match rules.reverse.find? fun r => r.applies path isDirectory with
  | some r => !r.negated
  | none => false

/-- The rules of lines in which bad ones count for nothing. -/
def ofLines (lines : List Text) : Rules :=
  lines.filterMap fun line =>
    match RuleLine.ofText line with
    | .rule r => some r
    | _ => none

/-- The rules of patterns, or the first pattern that is none. -/
def ofPatterns : List Text → Except Text Rules
  | [] => .ok []
  | t :: rest =>
    match RuleLine.ofText t with
    | .bad => .error t
    | .blank => ofPatterns rest
    | .rule r => (ofPatterns rest).map (r :: ·)

def dropReturn (line : Bytes) : Bytes := if line.getLast? = some 13 then line.dropLast else line

/-- The lines of an ignore file up to the first that is not text. A byte order mark at the front
counts for nothing. -/
def fileLines (bytes : Bytes) : List Text :=
  let pieces := Text.split 10 bytes
  let lines := pieces.dropLast.map dropReturn ++ pieces.getLast?.toList
  match ((lines.map Text.ofBytes?).takeWhile Option.isSome).filterMap id with
  | [] => []
  | first :: rest => first.dropWhile (· = '\uFEFF') :: rest

/-- The rules of an ignore file. -/
def ofFile (bytes : Bytes) : Rules := ofLines (fileLines bytes)

end Rules
end TemplateDocs.Files
