import TemplateDocs.Cli.Program

/-!
# The command

Reads the files of the project, runs the program on them and carries out what it decided: prints its
output, shows its reports and writes the files that changed.
-/
namespace TemplateDocs.Main

open Files (Place Node Tree)

def placeOf (path : String) : Place :=
  (Text.split Files.slash (Text.toBytes path.toList)).filter fun piece => !piece.isEmpty

def shown (path : Files.Path) : String := String.ofList (Text.ofBytesLossy path)

def pathOf (place : Place) : String := shown (Files.slash :: Files.namesPath place)

/-- Enters a place and the directories that lead to it. -/
def enter (tree : Tree) (place : Place) (node : Node) : Tree :=
  let above := (List.range place.length).map fun n => place.take n
  let tree := above.foldl (fun tree place =>
    if (tree.get? place).isSome then tree else tree.put place .directory) tree
  tree.put place node

/-- Reads what stands at an absolute path, with everything below it. A link is entered with the place
that it leads to, and that place is read too. -/
partial def readAll (path : String) (tree : Tree) : IO Tree := do
  let place := placeOf path
  if (tree.get? place).isSome && !place.isEmpty then return tree
  let here ← IO.currentDir
  let target := here / path
  if !(← target.pathExists) then return tree
  let real := toString (← IO.FS.realPath target)
  if placeOf real ≠ place then
    readAll real (enter tree place (.link (Text.toBytes real.toList)))
  else if ← target.isDir then
    let mut tree := enter tree place .directory
    for entry in ← target.readDir do
      tree ← readAll (path ++ "/" ++ entry.fileName) tree
    return tree
  else
    return enter tree place (.file (← IO.FS.readBinFile target).toList)

/-- Reads what any path leads to, if it leads anywhere. -/
def readPath (path : Files.Path) (tree : Tree) : IO Tree := do
  let target := (← IO.currentDir) / shown path
  if ← target.pathExists then readAll (toString (← IO.FS.realPath target)) tree else return tree

/-- The files that a run may read: those of the working directory and of the project root. -/
def readFiles (args : List Text) : IO Tree := do
  let here := toString (← IO.FS.realPath (← IO.currentDir))
  let tree ← readAll here { workdir := placeOf here }
  match Cli.Arguments.parse args with
  | .error _ => return tree
  | .ok a =>
    let root := a.root tree
    let tree ← readPath root tree
    match (Config.load tree root).toOption.bind Config.localsFile with
    | none => return tree
    | some file => readPath (Files.Path.append root (Text.toBytes file)) tree

def showReport (r : Cli.Report) : String :=
  let help := match r.help with
    | some help => "\n  help: " ++ String.ofList help
    | none => ""
  String.ofList r.code ++ "\n\n  " ++ (if r.fatal then "x " else "! ") ++ String.ofList r.message
    ++ help ++ "\n"

def showNotice : Cli.Notice → String
  | .report r => showReport r
  | .line t => String.ofList t

/-- Writes one change to the disk. -/
def store : Place × Node → IO Unit
  | (place, .file bytes) => IO.FS.writeBinFile (pathOf place) ⟨bytes.toArray⟩
  | (place, .directory) => IO.FS.createDirAll (pathOf place)
  | (_, .link _) => return

/-- Runs the program once and carries out what it decided. -/
def perform (args : List Text) (tree : Tree) : IO Cli.Outcome := do
  let outcome := Cli.run args tree
  for notice in outcome.notices do
    IO.eprintln (showNotice notice)
  for change in Tree.changes tree.nodes outcome.tree.nodes do
    store change
  IO.print (String.ofList outcome.output)
  (← IO.getStdout).flush
  return outcome

/-- Runs the program again whenever a file has changed. -/
partial def watch (args : List Text) (last : Tree) : IO UInt32 := do
  IO.sleep 200
  let tree ← readFiles args
  if tree.nodes = last.nodes then watch args last
  else
    IO.eprintln "\nFile change detected, regenerating..."
    watch args (← perform args tree).tree

def isWatching (args : List Text) : Bool :=
  match Cli.Arguments.parse args with
  | .ok a => a.watch
  | .error _ => false

end TemplateDocs.Main

open TemplateDocs.Main in
def main (args : List String) : IO UInt32 := do
  let args := args.map String.toList
  let outcome ← perform args (← readFiles args)
  if isWatching args && outcome.exit = 0 then
    IO.eprintln "\nWatching for file changes... (press Ctrl+C to stop)"
    watch args outcome.tree
  else return UInt32.ofNat outcome.exit
