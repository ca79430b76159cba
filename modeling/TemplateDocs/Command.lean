import TemplateDocs.Engine
import TemplateDocs.Files.Fault
import TemplateDocs.Shell.Run

/-!
# Programs as engines

A program gets the source on its input and writes what was rendered; its arguments name the file and
hold the locals as JSON. The programs that can be run are the ones built in here.
-/
namespace TemplateDocs.Command

open Shell (Outcome)

abbrev Program := List Text → Bytes → Outcome

/-- Options of `echo` that stand before its text. -/
def isEchoOption : Text → Bool
  | '-' :: c :: cs => (c :: cs).all fun c => c = 'n' || c = 'e' || c = 'E'
  | _ => false

/-- Writes its arguments; escapes count only where an option says so. -/
def echo : Program := fun arguments _ =>
  let options := (arguments.takeWhile isEchoOption).flatMap (·.drop 1)
  let text := Text.join [' '] (arguments.dropWhile isEchoOption)
  let escapes := ((options.filter (· ≠ 'n')).getLast?) = some 'e'
  let body := if escapes then Shell.echoBytes text else Text.toBytes text
  { output := if options.contains 'n' then body else body ++ Shell.byte 10 }

/-- A shell that takes its script as an argument. -/
def shell : Program := fun arguments input =>
  match arguments with
  | ['-', 'c'] :: script :: rest => Shell.run script (if rest.isEmpty then ["sh".toList] else rest) input
  | first :: _ =>
    if Text.startsWith "--".toList first then
      { status := 2, errors := Text.toBytes "sh: 0: Illegal option --\n".toList }
    else
      { status := 2, errors := Text.toBytes ("sh: 0: cannot open ".toList ++ first
          ++ ": No such file\n".toList) }
  | [] => Shell.run [] ["sh".toList] input

def find? (name : Text) : Option Program :=
  if name = "sh".toList then some shell
  else if name = "echo".toList then some echo
  else if name = "true".toList then some fun _ _ => {}
  else if name = "false".toList then some fun _ _ => { status := 1 }
  else none

/-- The arguments of one run, after those from the configuration. -/
def arguments (file : Text) (locals : Locals) (debug : Bool) : List Text :=
  ["--path".toList, file, "--obj".toList, Json.compact (.object locals)]
    ++ if debug then [] else ["--no-debug".toList]

/-- What a program that failed has to say: the first line of its errors that is not blank. -/
def failure (program file : Text) (outcome : Outcome) : EngineError :=
  let errors := Text.trim (Text.ofBytesLossy outcome.errors)
  match (Text.feedLines errors).find? fun line => !(Text.trim line).isEmpty with
  | some line => ⟨file ++ ": ".toList ++ Text.trim line, some errors⟩
  | none =>
    ⟨'`' :: program ++ "` exited with exit status: ".toList ++ Text.ofNat outcome.status,
      if errors.isEmpty then none else some errors⟩

def render (program : Text) (args : List Text) (source file : Text) (debug : Bool)
    (locals : Locals) : Except EngineError Text :=
  match find? program with
  | none =>
    .error ⟨"failed to run `".toList ++ program ++ "`: ".toList ++ Files.Fault.notFound.message, none⟩
  | some run =>
    let outcome := run (args ++ arguments file locals debug) (Text.toBytes source)
    if outcome.status = 0 then .ok (Text.ofBytesLossy outcome.output)
    else .error (failure program file outcome)

/-- The program that is run when none is named. -/
def defaultProgram : Text := "pug".toList

def engine (program : Text) (args : List Text) : Engine where
  compile source file debug := .ok (render program args source file debug)

end TemplateDocs.Command
