import TemplateDocs.Config

/-!
# Command line arguments

Options have a long name and mostly a short one; short ones may be written together, and a value
may be attached. An option is settled when the next argument after its value is read, so a bad value
is reported only then, and an unknown option before it.
-/
namespace TemplateDocs.Cli

structure Arguments where
  input : List Text := []
  path : Option Text := none
  output : Option Text := none
  silent : Bool := false
  keyword : Option Text := none
  engine : Option EngineKind := none
  jobs : Option Nat := none
  watch : Bool := false
  verbose : Bool := false
  noColor : Bool := false
  deriving DecidableEq, Repr

/-- Applies what the command line says on top of a configuration. -/
def Arguments.applyTo (a : Arguments) (c : Config) : Config :=
  { c with
    input := if a.input.isEmpty then c.input else a.input
    keyword := a.keyword.getD c.keyword
    jobs := (a.jobs.map (max · 1)).getD c.jobs
    engine := { c.engine with kind := a.engine.getD c.engine.kind } }

/-- Why arguments are refused, or what they ask for instead of a run. -/
inductive Refusal where
  | unknownArgument
  /-- A value is missing, empty or none of the choices. -/
  | invalidValue
  /-- A number that is none. -/
  | badNumber
  /-- An option is given twice. -/
  | repeated
  /-- A value for an option that takes none. -/
  | unneededValue
  | help
  | version
  deriving DecidableEq, Repr

/-- Options without a value. -/
inductive Switch where
  | silent
  | watch
  | verbose
  | noColor
  | help
  | version
  deriving DecidableEq, Repr

/-- Options with a value. -/
inductive Setting where
  | path
  | output
  | keyword
  | engine
  | jobs
  deriving DecidableEq, Repr

inductive Flag where
  | switch (s : Switch)
  | setting (s : Setting)
  deriving DecidableEq, Repr

namespace Flag

def ofLong? (name : Text) : Option Flag :=
  match String.ofList name with
  | "path" => some (.setting .path)
  | "output" => some (.setting .output)
  | "keyword" => some (.setting .keyword)
  | "engine" => some (.setting .engine)
  | "jobs" => some (.setting .jobs)
  | "silent" => some (.switch .silent)
  | "watch" => some (.switch .watch)
  | "verbose" => some (.switch .verbose)
  | "no-color" => some (.switch .noColor)
  | "help" => some (.switch .help)
  | "version" => some (.switch .version)
  | _ => none

def ofShort? : Char → Option Flag
  | 'p' => some (.setting .path)
  | 'o' => some (.setting .output)
  | 'k' => some (.setting .keyword)
  | 'j' => some (.setting .jobs)
  | 's' => some (.switch .silent)
  | 'w' => some (.switch .watch)
  | 'v' => some (.switch .verbose)
  | 'h' => some (.switch .help)
  | 'V' => some (.switch .version)
  | _ => none

end Flag

/-! ## Single options -/

namespace Arguments

/-- Sets something that may be set once. -/
def once {α : Type} (current : Option α) (read : Except Refusal α) : Except Refusal (Option α) :=
  if current.isSome then .error .repeated else read.map some

/-- Turns something on that may be turned on once. -/
def turnOn (current : Bool) : Except Refusal Bool := if current then .error .repeated else .ok true

def readPath (v : Text) : Except Refusal Text := if v.isEmpty then .error .invalidValue else .ok v

def readEngine (v : Text) : Except Refusal EngineKind :=
  (EngineKind.ofName? v).elim (.error .invalidValue) .ok

/-- A number of 64 bits. -/
def readJobs (v : Text) : Except Refusal Nat :=
  match Text.natural? 10 v with
  | some n => if n < twoTo 64 then .ok n else .error .badNumber
  | none => .error .badNumber

def set (a : Arguments) (s : Setting) (v : Text) : Except Refusal Arguments :=
  match s with
  | .path => (once a.path (readPath v)).map fun x => { a with path := x }
  | .output => (once a.output (readPath v)).map fun x => { a with output := x }
  | .keyword => (once a.keyword (.ok v)).map fun x => { a with keyword := x }
  | .engine => (once a.engine (readEngine v)).map fun x => { a with engine := x }
  | .jobs => (once a.jobs (readJobs v)).map fun x => { a with jobs := x }

def flip (a : Arguments) : Switch → Except Refusal Arguments
  | .silent => (turnOn a.silent).map fun x => { a with silent := x }
  | .watch => (turnOn a.watch).map fun x => { a with watch := x }
  | .verbose => (turnOn a.verbose).map fun x => { a with verbose := x }
  | .noColor => (turnOn a.noColor).map fun x => { a with noColor := x }
  | .help => .error .help
  | .version => .error .version

end Arguments

/-! ## Argument lists -/

/-- What was read so far, with the option that is not settled yet and its value. -/
structure Progress where
  arguments : Arguments := {}
  pending : Option (Setting × Option Text) := none

namespace Progress

/-- Settles the pending option; it must have a value. -/
def settle (p : Progress) : Except Refusal Progress :=
  match p.pending with
  | none => .ok p
  | some (_, none) => .error .invalidValue
  | some (s, some v) => (p.arguments.set s v).map fun a => ⟨a, none⟩

def flip (p : Progress) (s : Switch) : Except Refusal Progress := do
  let p ← p.settle
  let a ← p.arguments.flip s
  return { p with arguments := a }

/-- An option with its value attached. -/
def set (p : Progress) (s : Setting) (v : Text) : Except Refusal Progress := do
  let p ← p.settle
  let a ← p.arguments.set s v
  return { p with arguments := a }

/-- An option whose value comes next. -/
def await (p : Progress) (s : Setting) : Except Refusal Progress := do
  let p ← p.settle
  return { p with pending := some (s, none) }

def long (p : Progress) (body : Text) : Except Refusal Progress :=
  let (name, value) :=
    match Text.cut? ['='] body with
    | some (name, value) => (name, some value)
    | none => (body, none)
  match Flag.ofLong? name, value with
  | none, _ => .error .unknownArgument
  | some (.switch s), none => p.flip s
  | some (.switch _), some _ => .error .unneededValue
  | some (.setting s), none => p.await s
  | some (.setting s), some v => p.set s v

/-- Short options written together; what follows one with a value is the value. -/
def short (p : Progress) : Text → Except Refusal Progress
  | [] => .ok p
  | c :: rest =>
    match Flag.ofShort? c with
    | none => .error .unknownArgument
    | some (.switch s) => (p.flip s).bind fun p => p.short rest
    | some (.setting s) =>
      match rest with
      | [] => p.await s
      | '=' :: v => p.set s v
      | v => p.set s v

/-- An argument that is no option: the value of the option before it, or a pattern. -/
def plain (p : Progress) (v : Text) : Except Refusal Progress :=
  match p.pending with
  | some (s, none) => .ok { p with pending := some (s, some v) }
  | _ => do
    let p ← p.settle
    return { p with arguments := { p.arguments with input := p.arguments.input ++ [v] } }

/-- After two dashes everything is a pattern. -/
def patterns (p : Progress) : List Text → Except Refusal Progress
  | [] => .ok p
  | vs => do
    let p ← p.settle
    return { p with arguments := { p.arguments with input := p.arguments.input ++ vs } }

def read (p : Progress) : List Text → Except Refusal Progress
  | [] => .ok p
  | ['-', '-'] :: rest => p.patterns rest
  | ('-' :: '-' :: body) :: rest => (p.long body).bind fun p => p.read rest
  | ['-'] :: rest => (p.plain ['-']).bind fun p => p.read rest
  | ('-' :: body) :: rest => (p.short body).bind fun p => p.read rest
  | v :: rest => (p.plain v).bind fun p => p.read rest

end Progress

/-- Reads the arguments of the program. -/
def Arguments.parse (args : List Text) : Except Refusal Arguments := do
  let p ← Progress.read {} args
  let p ← p.settle
  return p.arguments

end TemplateDocs.Cli
