import TemplateDocs.Config
import TemplateDocs.Files.Collect

/-!
# Runs

A run reads the templates of a project and puts their findings together in the order of the files.
Once that order is fixed it does not matter which file was read first: names are compared only
afterwards.
-/
namespace TemplateDocs

open Files (Path Tree Selection Pattern Rules)

structure Options where
  /-- The project root; documents name their files relative to it. -/
  root : Path
  input : List Text := ({} : Config).input
  exclude : List Text := []
  disableGitignore : Bool := false
  maxFileSize : Nat := ({} : Config).maxFileSize
  keyword : Text := defaultKeyword
  locals : Locals := []
  /-- How many files may be read at a time. -/
  jobs : Nat := 1
  /-- What keeps the system from starting so many workers, if anything does. -/
  poolFault? : Nat → Option Text := fun _ => none
  /-- The run is to stop before its first file. -/
  cancelled : Bool := false

namespace Options

def ofConfig (tree : Tree) (root : Path) (c : Config) : Except Error Options :=
  (c.loadLocals tree root).map fun locals =>
    { root := root
      input := c.input
      exclude := c.exclude
      disableGitignore := c.disableGitignore
      maxFileSize := c.maxFileSize
      keyword := c.keyword
      locals := locals
      jobs := max c.jobs 1 }

/-! ## Files -/

/-- A pattern without the dots and slashes at its front that say nothing. -/
def trimHere : Text → Text
  | '.' :: '/' :: rest => trimHere rest
  | t => t

/-- The patterns of the templates, or the first that is none. -/
def inputPatterns : List Text → Except Error (List Pattern)
  | [] => .ok []
  | t :: rest =>
    match Pattern.parse? (trimHere t) with
    | none => .error (.badPattern t)
    | some p => (inputPatterns rest).map (p :: ·)

/-- The rules of the project's ignore file. -/
def ignoreRules (o : Options) (tree : Tree) : Rules :=
  if o.disableGitignore then []
  else
    match tree.readBytes (Path.append o.root (Path.of ".gitignore")) with
    | .ok bytes => Rules.ofFile bytes
    | .error _ => []

/-- Which files the run reads. -/
def selection (o : Options) (tree : Tree) : Except Error Selection := do
  let patterns ← inputPatterns o.input
  let ignored := o.ignoreRules tree
  let excluded ← (Rules.ofPatterns o.exclude).mapError .badPattern
  return {
    included := fun path => patterns.any fun p => p.isMatch path
    ignored := ignored.ignores
    excluded := excluded.ignores }

/-- The templates of the project, as the names that lead to each. -/
def collectNames (o : Options) (tree : Tree) : Except Error (List Files.Place) := do
  let s ← o.selection tree
  (tree.collect s o.root).mapError .file

/-- The templates of the project. -/
def collect (o : Options) (tree : Tree) : Except Error (List Path) :=
  (o.collectNames tree).map fun files =>
    files.map fun names => Path.append o.root (Files.namesPath names)

/-! ## Findings -/

/-- The findings of one file. A file that is too large is only reported. -/
def generateFile (o : Options) (tree : Tree) (engine : Engine) (path : Path) :
    Except Error Findings := do
  let file := Path.relativeTo o.root path
  let size ← (tree.size path).mapError .file
  if o.maxFileSize < size then
    return { diagnostics := [⟨file, none, 0, .fileTooLarge size o.maxFileSize⟩] }
  else
    let source ← (tree.readText path).mapError .file
    (generateSource engine o.keyword o.locals file source).mapError .missingName

/-- The findings of each file on its own. Once the run is to stop, no further file is read. -/
def perFile (o : Options) (tree : Tree) (engine : Engine) :
    Bool → List Path → List (Except Error Findings)
  | _, [] => []
  | true, _ :: rest => .error .cancelled :: o.perFile tree engine true rest
  | false, path :: rest =>
    match o.generateFile tree engine path with
    | .error e => .error e :: o.perFile tree engine false rest
    | .ok found => .ok found :: o.perFile tree engine found.interrupted rest

end Options

/-! ## Names -/

/-- The file of the first document with each name. -/
abbrev FirstFiles := List (Text × Text)

def FirstFiles.get? (name : Text) : FirstFiles → Option Text
  | [] => none
  | (n, file) :: rest => if n = name then some file else get? name rest

/-- The diagnostic of a document whose name is taken. -/
def Document.duplicate (d : Document) (firstFile : Text) : Diagnostic :=
  ⟨d.file, some d.name, d.line, .duplicateName d.name firstFile⟩

/-- Enters the names of documents; a name that is taken is reported. -/
def FirstFiles.register : FirstFiles → List Document → List Diagnostic × FirstFiles
  | names, [] => ([], names)
  | names, d :: rest =>
    match names.get? d.name with
    | some firstFile =>
      let (diagnostics, names) := register names rest
      (d.duplicate firstFile :: diagnostics, names)
    | none => register ((d.name, d.file) :: names) rest

/-- Puts the findings of files together: the first error, or else all documents in order, and after
the diagnostics of each file those of its names. -/
def Findings.combine (names : FirstFiles) : List (Except Error Findings) → Except Error Findings
  | [] => .ok {}
  | .error e :: _ => .error e
  | .ok found :: rest =>
    let (duplicates, names) := names.register found.documents
    (combine names rest).map fun others =>
      { found with diagnostics := found.diagnostics ++ duplicates } ++ others

namespace Options

/-- How many files are read at a time. -/
def workers (o : Options) (paths : List Path) : Nat := min (max o.jobs 1) (max paths.length 1)

/-- What keeps the workers from being started. One worker alone needs no starting. -/
def startFault? (o : Options) (paths : List Path) : Option Text :=
  if o.workers paths = 1 then none else o.poolFault? (o.workers paths)

/-- The findings of a list of files. -/
def generateFiles (o : Options) (tree : Tree) (engine : Engine) (paths : List Path) :
    Except Error Findings :=
  match o.startFault? paths with
  | some reason => .error (.threadPool reason)
  | none => Findings.combine [] (o.perFile tree engine o.cancelled paths)

/-- The findings of the project. -/
def generate (o : Options) (tree : Tree) (engine : Engine) : Except Error Findings :=
  (o.collect tree).bind (o.generateFiles tree engine)

end Options
end TemplateDocs
