import TemplateDocs.Block
import TemplateDocs.Command
import TemplateDocs.DataFile
import TemplateDocs.Files.Tree
import TemplateDocs.Jinja.Engine

/-!
# Configuration

A project is configured by a TOML file in its root. Whatever the file does not say has a default,
keys that mean nothing are passed over, and a value of the wrong type makes the file malformed.
-/
namespace TemplateDocs

open Files (Path Tree)

inductive EngineKind where
  /-- Templates are rendered here. -/
  | jinja
  /-- A program renders them. -/
  | command
  deriving DecidableEq, Repr

namespace EngineKind

def name : EngineKind → Text
  | .jinja => "jinja".toList
  | .command => "command".toList

def ofName? (t : Text) : Option EngineKind :=
  [jinja, command].find? fun kind => kind.name = t

end EngineKind

structure EngineConfig where
  kind : EngineKind := .jinja
  program : Option Text := none
  args : List Text := []
  deriving DecidableEq, Repr

/-- The engine that the configuration asks for. -/
def EngineConfig.engine (c : EngineConfig) : Engine :=
  match c.kind with
  | .jinja => Jinja.engine
  | .command => Command.engine (c.program.getD Command.defaultProgram) c.args

structure Config where
  /-- What follows the comment sign on a marker line. -/
  keyword : Text := defaultKeyword
  /-- Patterns of the templates to read. -/
  input : List Text := ["**/*.pug".toList, "**/*.jade".toList]
  /-- Where the documents are written. -/
  output : Option Text := none
  /-- Larger files are passed over. -/
  maxFileSize : Nat := 10 * 1024 * 1024
  disableGitignore : Bool := false
  jobs : Nat := 1
  /-- Patterns of what is left out. -/
  exclude : List Text := []
  /-- Locals of every example; they win over those of the locals file. -/
  locals : Toml.Entries := []
  localsFile : Option Text := none
  engine : EngineConfig := {}

namespace Config

/-! ## Reading -/

def text? : Toml.Value → Option Text
  | .string t => some t
  | _ => none

def boolean? : Toml.Value → Option Bool
  | .boolean b => some b
  | _ => none

def natural? : Toml.Value → Option Nat
  | .integer i => if 0 ≤ i then some i.toNat else none
  | _ => none

def texts? : Toml.Value → Option (List Text)
  | .array _ items => items.mapM text?
  | _ => none

def table? : Toml.Value → Option Toml.Entries
  | .table _ entries => some entries
  | _ => none

/-- The fields of a section: a table by key, or an array with the fields in their order. -/
def section? (keys : List String) : Toml.Value → Option Toml.Entries
  | .table _ entries => some entries
  | .array _ items => some ((keys.map String.toList).zip items)
  | _ => none

/-- The value of a key, or the default if there is none. -/
def field? {α : Type} (read : Toml.Value → Option α) (default : α) (key : String)
    (entries : Toml.Entries) : Option α :=
  match entries.get? key.toList with
  | some v => read v
  | none => some default

/-- The value of a key that may be missing. -/
def optional? {α : Type} (read : Toml.Value → Option α) (key : String) (entries : Toml.Entries) :
    Option (Option α) :=
  field? (fun v => (read v).map some) none key entries

def exclude? (v : Toml.Value) : Option (List Text) := do
  field? texts? [] "patterns" (← section? ["patterns"] v)

def isEmptyValue : Toml.Value → Bool
  | .array _ items => items.isEmpty
  | .table _ entries => entries.isEmpty
  | _ => false

/-- A kind of engine: its name, or a table with its name as the only key and nothing under it. -/
def kind? : Toml.Value → Option EngineKind
  | .string t => EngineKind.ofName? t
  | .table _ [(key, v)] => if isEmptyValue v then EngineKind.ofName? key else none
  | _ => none

def engine? (v : Toml.Value) : Option EngineConfig := do
  let entries ← section? ["kind", "program", "args"] v
  let kind ← field? kind? .jinja "kind" entries
  let program ← optional? text? "program" entries
  let args ← field? texts? [] "args" entries
  return ⟨kind, program, args⟩

def ofToml? (entries : Toml.Entries) : Option Config := do
  let base : Config := {}
  let keyword ← field? text? base.keyword "keyword" entries
  let input ← field? texts? base.input "input" entries
  let output ← optional? text? "output" entries
  let maxFileSize ← field? natural? base.maxFileSize "max_file_size" entries
  let disableGitignore ← field? boolean? base.disableGitignore "disable_gitignore" entries
  let jobs ← field? natural? base.jobs "jobs" entries
  let exclude ← field? exclude? base.exclude "exclude" entries
  let locals ← field? table? base.locals "locals" entries
  let localsFile ← optional? text? "locals_file" entries
  let engine ← field? engine? base.engine "engine" entries
  return {
    keyword := keyword
    input := input
    output := output
    maxFileSize := maxFileSize
    disableGitignore := disableGitignore
    jobs := jobs
    exclude := exclude
    locals := locals
    localsFile := localsFile
    engine := engine }

def parse (content : Text) : Except Error Config :=
  ((Toml.parse? content).bind ofToml?).elim (.error .malformedConfig) .ok

/-! ## Finding -/

/-- Where a configuration may stand, the first choice first. -/
def candidates : List Path :=
  ["pugdoc.toml", ".pugdoc.toml", ".config/pugdoc.toml"].map Path.of

/-- The configuration file of a project. -/
def find? (tree : Tree) (root : Path) : Option Path :=
  (candidates.map (Path.append root)).find? tree.isFile

/-- The configuration of a project, if it has one. -/
def load? (tree : Tree) (root : Path) : Except Error (Option Config) :=
  match find? tree root with
  | none => .ok none
  | some path =>
    match tree.readText path with
    | .error fault => .error (.file fault)
    | .ok content => (parse content).map some

/-- The configuration of a project, with everything at its default if it has none. -/
def load (tree : Tree) (root : Path) : Except Error Config := (load? tree root).map (·.getD {})

/-! ## Locals -/

/-- The locals of a data file; no value at all is no locals. -/
def localsOfValue (path : Text) : Json.Value → Except Error Locals
  | .object fields => .ok fields
  | .null => .ok []
  | _ => .error (.locals path .notMapping)

/-- The locals of the locals file. -/
def fileLocals (tree : Tree) (root : Path) (path : Text) : Except Error Locals :=
  let full := Path.append root (Text.toBytes path)
  match tree.readText full with
  | .error fault => .error (.locals path (.unreadable fault))
  | .ok content =>
    let format := Text.lowerAscii (((Path.extension? full).bind Text.ofBytes?).getD [])
    (DataFile.parse content format path).bind (localsOfValue path)

/-- How errors name the configuration. -/
def displayName : Text := "pugdoc.toml".toList

/-- The locals of every example: those of the file, and over them those of the configuration. -/
def loadLocals (c : Config) (tree : Tree) (root : Path) : Except Error Locals := do
  let base ← c.localsFile.elim (.ok []) (fileLocals tree root)
  let inline ← DataFile.fieldsOfToml displayName c.locals
  return inline.foldl (fun locals (key, v) => Json.Fields.insert key v locals) base

end Config
end TemplateDocs
