import TemplateDocs.Cli.Arguments
import TemplateDocs.Run

/-!
# The program

One run of the program: what it prints, what it reports, how it ends, and the files afterwards.
-/
namespace TemplateDocs.Cli

open Files (Path Tree)

/-- A problem shown to the user. -/
structure Report where
  code : Text
  /-- The run ended because of it. -/
  fatal : Bool
  message : Text
  help : Option Text
  deriving DecidableEq, Repr

namespace Report

def ofError (e : Error) : Report := ⟨e.code, true, e.message, e.help?⟩

def problemCode : Problem → Text
  | .duplicateName _ _ => "pugdoc::duplicate_name".toList
  | .metadata _ => "pugdoc::metadata_parse".toList
  | .render _ _ => "pugdoc::render".toList
  | .nestingTooDeep _ => "pugdoc::nesting_too_deep".toList
  | .parameter _ => "pugdoc::invalid_parameter".toList
  | .capture _ => "pugdoc::invalid_capture".toList
  | .fileTooLarge _ _ => "pugdoc::file_too_large".toList

def problemHelp? : Problem → Option Text
  | .duplicateName name _ =>
    some ("both `".toList ++ name
      ++ "` blocks are kept in the output; rename one to tell them apart".toList)
  | .metadata _ => some "the block was skipped; check the indentation of its annotation".toList
  | .render failure _ => failure.error.excerpt
  | .nestingTooDeep _ =>
    some "examples inside an override object must be template source".toList
  | .parameter _ => some "parameters follow the form `\x7bType\x7d name - description`".toList
  | .capture _ => some "use `capture: all`, `capture: section` or a positive number".toList
  | .fileTooLarge _ _ =>
    some "increase `max_file_size` in pugdoc.toml or exclude this file".toList

def ofDiagnostic (d : Diagnostic) : Report where
  code := problemCode d.problem
  fatal := false
  message := '[' :: d.location ++ "] ".toList ++ d.message
  help := problemHelp? d.problem

end Report

/-- What goes to the error stream. -/
inductive Notice where
  | report (r : Report)
  | line (t : Text)
  deriving DecidableEq, Repr

structure Outcome where
  exit : Nat := 0
  output : Text := []
  notices : List Notice := []
  /-- The files after the run. -/
  tree : Tree

/-- The root of the project: the path given, or the working directory. -/
def Arguments.root (a : Arguments) (tree : Tree) : Path :=
  (a.path.map Text.toBytes).getD (Files.slash :: Files.namesPath tree.workdir)

/-- Where the documents go. A path from the command line is taken as it is, one from the
configuration is relative to the root. -/
def Arguments.outputPath? (a : Arguments) (c : Config) (root : Path) : Option Path :=
  a.output.map Text.toBytes <|> c.output.map fun t => Path.append root (Text.toBytes t)

/-- Which configuration is used, for those who want to know. -/
def configNotice (tree : Tree) (root : Path) : Text :=
  match Config.find? tree root with
  | some path => "Using config ".toList ++ Text.ofBytesLossy path
  | none => "No pugdoc.toml found, using defaults".toList

/-- The reports of a diagnostic; in detail, a failed example comes with the metadata. -/
def diagnosticNotices (verbose : Bool) (d : Diagnostic) : List Notice :=
  .report (.ofDiagnostic d) ::
    match d.problem with
    | .render _ metadata => if verbose then [.line metadata] else []
    | _ => []

def doneNotice (count : Nat) (path : Path) : Text :=
  "done: wrote ".toList ++ Text.ofNat count ++ " document(s) to ".toList ++ Text.ofBytesLossy path

def warningNotice (count : Nat) : Text :=
  "warning: ".toList ++ Text.ofNat count ++ " diagnostic(s) reported".toList

def failure (tree : Tree) (notices : List Notice) (e : Error) : Outcome :=
  { exit := 2, notices := notices ++ [.report (.ofError e)], tree := tree }

/-- Writes the documents and sums up. -/
def deliver (a : Arguments) (output : Option Path) (tree : Tree) (notices : List Notice)
    (found : Findings) : Outcome :=
  let warning : List Notice :=
    if a.silent || found.diagnostics.isEmpty then []
    else [.line (warningNotice found.diagnostics.length)]
  let written := Document.writeAll found.documents
  match output with
  | none =>
    { output := if a.silent then [] else written, notices := notices ++ warning, tree := tree }
  | some path =>
    match tree.writeBelow path (Text.toBytes written) with
    | .error fault => failure tree notices (.file fault)
    | .ok changed =>
      let done : List Notice :=
        if a.silent then [] else [.line (doneNotice found.documents.length path)]
      { notices := notices ++ done ++ warning, tree := changed }

/-- A run with arguments that were read. -/
def runOnce (a : Arguments) (tree : Tree) : Outcome :=
  let root := a.root tree
  match Config.load tree root with
  | .error e => failure tree [] e
  | .ok loaded =>
    let config := a.applyTo loaded
    let opening : List Notice := if a.verbose then [.line (configNotice tree root)] else []
    let found := (Options.ofConfig tree root config).bind fun options =>
      options.generate tree config.engine.engine
    match found with
    | .error e => failure tree opening e
    | .ok found =>
      let notices := opening ++ found.diagnostics.flatMap (diagnosticNotices a.verbose)
      deliver a (a.outputPath? config root) tree notices found

/-! ## Refused arguments -/

def versionText : Text := "pugdoc_cli 0.3.0\n".toList

def helpText : Text :=
  ("Generate JSON documentation from doc blocks embedded in pug templates.\n\n"
    ++ "Usage: pugdoc [OPTIONS] [INPUT]...\n\n"
    ++ "Arguments:\n"
    ++ "  [INPUT]...  Glob patterns of templates to scan, relative to the project root\n\n"
    ++ "Options:\n"
    ++ "  -p, --path <PATH>        Path to the project root directory\n"
    ++ "  -o, --output <OUTPUT>    Write the JSON array to this file instead of stdout\n"
    ++ "  -s, --silent             Do not print documents or the run summary\n"
    ++ "  -k, --keyword <KEYWORD>  Keyword following `//-` on doc marker lines\n"
    ++ "      --engine <ENGINE>    Template engine used to render examples "
    ++ "[possible values: jinja, command]\n"
    ++ "  -j, --jobs <JOBS>        Number of worker threads processing files\n"
    ++ "  -w, --watch              Watch for file changes and regenerate automatically\n"
    ++ "  -v, --verbose            Enable verbose output\n"
    ++ "      --no-color           Disable colored output\n"
    ++ "  -h, --help               Print help\n"
    ++ "  -V, --version            Print version\n").toList

def Refusal.message : Refusal → Text
  | .unknownArgument => "error: unexpected argument found".toList
  | .invalidValue => "error: invalid or missing value for an argument".toList
  | .badNumber => "error: invalid number for an argument".toList
  | .repeated => "error: an argument cannot be used multiple times".toList
  | .unneededValue => "error: unexpected value for an argument".toList
  | .help | .version => []

def refuse (tree : Tree) : Refusal → Outcome
  | .help => { output := helpText, tree := tree }
  | .version => { output := versionText, tree := tree }
  | r => { exit := 2, notices := [.line r.message], tree := tree }

/-- One run of the program on the given arguments. -/
def run (args : List Text) (tree : Tree) : Outcome :=
  match Arguments.parse args with
  | .error r => refuse tree r
  | .ok a => runOnce a tree

end TemplateDocs.Cli
