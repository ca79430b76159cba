import TemplateDocs.Shell.Script
import TemplateDocs.Text.Utf8

/-!
# Running shell scripts

A script reads bytes and writes bytes to two channels. The commands it knows are the ones built in
here; any other command is not found.
-/
namespace TemplateDocs.Shell

/-- What a program leaves behind. -/
structure Outcome where
  status : Nat := 0
  output : Bytes := []
  errors : Bytes := []
  deriving DecidableEq

structure Machine where
  /-- The name of the script and its arguments. -/
  parameters : List Text
  status : Nat := 0
  input : Bytes := []
  output : Bytes := []
  errors : Bytes := []
  exited : Bool := false

/-! ## Expansion -/

def Machine.arguments (m : Machine) : List Text := m.parameters.drop 1

/-- The value of a parameter; names that are not known are empty. -/
def Machine.parameter (m : Machine) (name : Text) : Text :=
  if name = ['@'] ∨ name = ['*'] then Text.join [' '] m.arguments
  else if name = ['#'] then Text.ofNat m.arguments.length
  else if name = ['?'] then Text.ofNat m.status
  else
    match Text.digits? 10 name with
    | some n => (m.parameters[n]?).getD []
    | none => []

def isSeparator (c : Char) : Bool := c = ' ' || c = '\t' || c = '\n'

/-- Fields of a word: those that are finished, and the one being built. -/
structure Fields where
  finished : List Text := []
  current : Option Text := none

namespace Fields

def append (f : Fields) (t : Text) : Fields := { f with current := some (f.current.getD [] ++ t) }

def break_ (f : Fields) : Fields := { finished := f.finished ++ f.current.toList }

/-- Adds text whose blanks end fields. -/
def addSplit (f : Fields) : Text → Fields
  | [] => f
  | c :: t => if isSeparator c then f.break_.addSplit t else (f.append [c]).addSplit t

/-- Adds texts that are fields of their own, the first joined to what is before it. -/
def addAll (f : Fields) : List Text → Fields
  | [] => if f.current = some [] then { f with current := none } else f
  | [t] => f.append t
  | t :: ts => (f.append t).break_.addAll ts

def toList (f : Fields) : List Text := f.break_.finished

end Fields

def Machine.expandPiece (m : Machine) (f : Fields) : Piece → Fields
  | .text t _ => f.append t
  | .parameter name quoted =>
    if quoted then
      if name = ['@'] then f.addAll m.arguments else f.append (m.parameter name)
    else f.addSplit (m.parameter name)

/-- The fields that a word stands for. -/
def Machine.expand (m : Machine) (w : Word) : List Text := (w.foldl m.expandPiece {}).toList

/-- The text of a word that is not split. -/
def Machine.expandWhole (m : Machine) (w : Word) : Text :=
  w.flatMap fun
    | .text t _ => t
    | .parameter name _ => m.parameter name

/-! ## Patterns -/

inductive PatternMark where
  | any | one | exactly (c : Char)
  deriving DecidableEq

def Machine.pattern (m : Machine) (w : Word) : List PatternMark :=
  let marks (t : Text) : List PatternMark := t.map fun c =>
    if c = '*' then .any else if c = '?' then .one else .exactly c
  w.flatMap fun
    | .text t quoted => if quoted then t.map .exactly else marks t
    | .parameter name quoted =>
      if quoted then (m.parameter name).map .exactly else marks (m.parameter name)

def matchesPattern : List PatternMark → Text → Bool
  | [], t => t.isEmpty
  | .any :: rest, [] => matchesPattern rest []
  | .any :: rest, c :: t => matchesPattern rest (c :: t) || matchesPattern (.any :: rest) t
  | .one :: _, [] => false
  | .one :: rest, _ :: t => matchesPattern rest t
  | .exactly _ :: _, [] => false
  | .exactly c :: rest, d :: t => c = d && matchesPattern rest t
termination_by p t => p.length + t.length

/-! ## Built-in commands -/

def byte (n : Nat) : Bytes := [UInt8.ofNat n]

/-- The byte of a short escape. -/
def shortEscape? : Char → Option Nat
  | 'a' => some 7
  | 'b' => some 8
  | 't' => some 9
  | 'n' => some 10
  | 'v' => some 11
  | 'f' => some 12
  | 'r' => some 13
  | '\\' => some 92
  | '"' => some 34
  | _ => none

def isOctal (c : Char) : Bool := '0' ≤ c && c ≤ '7'

/-- At most `count` octal digits off the front, and the rest. -/
def octal : Nat → Nat → Text → Nat × Text
  | 0, acc, t => (acc, t)
  | _ + 1, acc, [] => (acc, [])
  | count + 1, acc, c :: t =>
    if isOctal c then octal count (acc * 8 + Text.digitValue c) t else (acc, c :: t)

theorem octal_length (count acc : Nat) (t : Text) : (octal count acc t).2.length ≤ t.length := by
  induction count generalizing acc t with
  | zero => simp [octal]
  | succ count ih =>
    cases t with
    | nil => simp [octal]
    | cons c t =>
      unfold octal
      split
      · exact Nat.le_succ_of_le (ih _ _)
      · exact Nat.le_refl _

/-- Text with its escapes resolved; an octal number follows a zero. -/
def echoBytes (t : Text) : Bytes :=
  match t with
  | [] => []
  | '\\' :: '0' :: rest =>
    have := octal_length 3 0 rest
    byte (octal 3 0 rest).1 ++ echoBytes (octal 3 0 rest).2
  | '\\' :: c :: rest =>
    match if c = '"' then none else shortEscape? c with
    | some n => byte n ++ echoBytes rest
    | none => Text.toBytes ['\\', c] ++ echoBytes rest
  | c :: rest => Text.encodeChar c ++ echoBytes rest
termination_by t.length
decreasing_by all_goals (simp only [List.length_cons]; omega)

/-- The built-in `echo` resolves escapes. -/
def echo (arguments : List Text) : Bytes :=
  match arguments with
  | ['-', 'n'] :: rest => echoBytes (Text.join [' '] rest)
  | arguments => echoBytes (Text.join [' '] arguments) ++ byte 10

/-- One pass of a format over arguments: the bytes, the arguments left, and whether one was used. -/
def formatOnce (format : Text) (arguments : List Text) : Bytes × List Text × Bool :=
  match format with
  | [] => ([], arguments, false)
  | '%' :: '%' :: rest =>
    let (bytes, left, used) := formatOnce rest arguments
    (byte 37 ++ bytes, left, used)
  | '%' :: c :: rest =>
    let argument := arguments.head?.getD []
    let piece :=
      if c = 'b' then echoBytes argument
      else if c = 'c' then Text.toBytes (argument.take 1)
      else if c = 'd' ∨ c = 'i' then
        Text.toBytes (((Text.integer? 10 argument).map Text.ofInt).getD ['0'])
      else Text.toBytes argument
    let (bytes, left, _) := formatOnce rest (arguments.drop 1)
    (piece ++ bytes, left, true)
  | '\\' :: c :: rest =>
    if isOctal c then
      have := octal_length 3 0 (c :: rest)
      let (bytes, left, used) := formatOnce (octal 3 0 (c :: rest)).2 arguments
      (byte (octal 3 0 (c :: rest)).1 ++ bytes, left, used)
    else
      let (bytes, left, used) := formatOnce rest arguments
      (((shortEscape? c).map byte).getD (Text.toBytes ['\\', c]) ++ bytes, left, used)
  | c :: rest =>
    let (bytes, left, used) := formatOnce rest arguments
    (Text.encodeChar c ++ bytes, left, used)
termination_by format.length
decreasing_by all_goals (simp at *; try omega)

/-- The format over and over until no argument is left. -/
def formatAll (format : Text) (arguments : List Text) : Bytes :=
  let (bytes, left, used) := formatOnce format arguments
  if _h : used ∧ left ≠ [] ∧ left.length < arguments.length then bytes ++ formatAll format left
  else bytes
termination_by arguments.length

/-- Runs a built-in command. -/
def Machine.builtin? (m : Machine) (name : Text) (arguments : List Text) :
    Option (Outcome × Machine) :=
  if name = "echo".toList then some ({ output := echo arguments }, m)
  else if name = "printf".toList then
    match arguments with
    | [] => some ({ status := 2 }, m)
    | format :: rest => some ({ output := formatAll format rest }, m)
  else if name = "cat".toList then some ({ output := m.input }, { m with input := [] })
  else if name = "true".toList ∨ name = ":".toList then some ({}, m)
  else if name = "false".toList then some ({ status := 1 }, m)
  else if name = "exit".toList then
    let status := ((arguments.head?.bind (Text.digits? 10)).getD m.status) % 256
    some ({ status := status }, { m with exited := true })
  else none

def Machine.notFound (m : Machine) (name : Text) : Outcome where
  status := 127
  errors := Text.toBytes ((m.parameters.head?.getD "sh".toList) ++ ": 1: ".toList ++ name
    ++ ": not found\n".toList)

/-- Where the two channels go after the redirections. -/
def sinks : Sink × Sink → List Redirection → Sink × Sink
  | s, [] => s
  | s, r :: rest =>
    let target :=
      match r.target with
      | none => Sink.nowhere
      | some 1 => s.1
      | some 2 => s.2
      | some _ => Sink.nowhere
    sinks (if r.from_ = 1 then (target, s.2) else if r.from_ = 2 then (s.1, target) else s) rest

def Machine.write (m : Machine) (sink : Sink) (bytes : Bytes) : Machine :=
  match sink with
  | .output => { m with output := m.output ++ bytes }
  | .errors => { m with errors := m.errors ++ bytes }
  | .nowhere => m

def Machine.runSimple (m : Machine) (words : List Word) (redirections : List Redirection) :
    Machine :=
  match words.flatMap m.expand with
  | [] => { m with status := 0 }
  | name :: arguments =>
    let (outcome, m) := (m.builtin? name arguments).getD (m.notFound name, m)
    let (first, second) := sinks (.output, .errors) redirections
    { (m.write first outcome.output).write second outcome.errors with status := outcome.status }

def Condition.holds (c : Condition) (status : Nat) : Bool :=
  match c with
  | .always => true
  | .onSuccess => status = 0
  | .onFailure => status ≠ 0

mutual

def Machine.runCommand (m : Machine) : Command → Machine
  | .simple words redirections => m.runSimple words redirections
  | .choose subject arms => m.runArms (m.expandWhole subject) arms

/-- Runs the first arm with a pattern that fits. -/
def Machine.runArms (m : Machine) (subject : Text) : List Arm → Machine
  | [] => { m with status := 0 }
  | .mk patterns body :: rest =>
    if patterns.any fun p => matchesPattern (m.pattern p) subject then
      { m with status := 0 }.runSteps body
    else m.runArms subject rest

def Machine.runSteps (m : Machine) : List Step → Machine
  | [] => m
  | .mk condition pipeline :: rest =>
    if m.exited then m
    else if condition.holds m.status then (m.runPipeline pipeline).runSteps rest
    else m.runSteps rest

/-- Commands of which each reads what the one before it wrote. -/
def Machine.runPipeline (m : Machine) : List Command → Machine
  | [] => m
  | [c] => m.runCommand c
  | c :: next :: rest =>
    let first := { m with output := [] }.runCommand c
    let others := { m with input := first.output, output := [], errors := first.errors }
      |>.runPipeline (next :: rest)
    { m with status := others.status, output := m.output ++ others.output, errors := others.errors }

end

/-- Runs a script under the given parameters. -/
def run (script : Text) (parameters : List Text) (input : Bytes) : Outcome :=
  match parse? script with
  | none =>
    { status := 2
      errors := Text.toBytes ((parameters.head?.getD "sh".toList) ++ ": 1: Syntax error\n".toList) }
  | some steps =>
    let m := Machine.runSteps { parameters := parameters, input := input } steps
    ⟨m.status, m.output, m.errors⟩

end TemplateDocs.Shell
