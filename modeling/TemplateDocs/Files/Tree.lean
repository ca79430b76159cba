import TemplateDocs.Files.Fault
import TemplateDocs.Files.Path

/-!
# File trees

A tree holds files, directories and symbolic links, each at one place below the top. A path leads to
a place: names are followed from the top or from the working directory, and links on the way are
followed in turn, up to a limit.
-/
namespace TemplateDocs.Files

/-- The names that lead from the top to something. -/
abbrev Place := List Name

inductive Node where
  | file (bytes : Bytes)
  | directory
  | link (target : Path)
  deriving DecidableEq, Repr

/-- Everything below the top, and the working directory. A directory lists its entries in the order
in which they stand here. -/
structure Tree where
  nodes : List (Place × Node) := []
  workdir : Place := []
  deriving DecidableEq, Repr

namespace Tree

/-- What stands at a place; at the top there is always a directory. -/
def get? (tree : Tree) : Place → Option Node
  | [] => some .directory
  | place => (tree.nodes.find? fun n => n.1 = place).map Prod.snd

def directories (tree : Tree) : List Place :=
  [] :: (tree.nodes.filter fun n => n.2 = .directory).map Prod.fst

/-- The names in a directory. -/
def entries (tree : Tree) (place : Place) : List Name :=
  tree.nodes.filterMap fun n =>
    if n.1.dropLast = place then n.1.getLast? else none

/-! ## Following paths -/

/-- Where a path leads: to something, or to a free place in a directory. -/
inductive Target where
  | present (place : Place) (node : Node)
  | absent (place : Place)
  deriving DecidableEq, Repr

/-- The steps of a path. A slash at the end asks for a directory, as a dot would. -/
def steps (p : Path) : List Name :=
  let pieces := (Text.split slash p).filter fun piece => !piece.isEmpty
  if pieces.isEmpty ∨ p.getLast? ≠ some slash then pieces else pieces ++ [dot]

/-- The longest name, in bytes. -/
def nameLimit : Nat := 255

/-- Follows steps from a directory; `links` more links may be followed. A link at the end is
followed too if `last` says so. -/
def follow (tree : Tree) (last : Bool) (links : Nat) (at_ : Place) (todo : List Name) :
    Except Fault Target :=
  match todo with
  | [] => .ok (.present at_ .directory)
  | step :: rest =>
    if step = dot then follow tree last links at_ rest
    else if step = dotDot then follow tree last links at_.dropLast rest
    else if nameLimit < step.length then .error .nameTooLong
    else
      let place := at_ ++ [step]
      match tree.get? place with
      | none => if rest.isEmpty then .ok (.absent place) else .error .notFound
      | some .directory => follow tree last links place rest
      | some (.file bytes) =>
        if rest.isEmpty then .ok (.present place (.file bytes)) else .error .notDirectory
      | some (.link target) =>
        if rest.isEmpty ∧ !last then .ok (.present place (.link target))
        else
          match links with
          | 0 => .error .tooManyLinks
          | links + 1 =>
            follow tree last links (if Path.isAbsolute target then [] else at_)
              (steps target ++ rest)
termination_by (links, todo.length)

/-- At most this many links are followed for one path. -/
def linkLimit : Nat := 40

/-- Paths are shorter than this, in bytes. -/
def pathLimit : Nat := 4096

def locate (tree : Tree) (last : Bool) (p : Path) : Except Fault Target :=
  if p.any (· = 0) then .error .invalidName
  else if p.isEmpty then .error .notFound
  else if pathLimit ≤ p.length then .error .nameTooLong
  else follow tree last linkLimit (if Path.isAbsolute p then [] else tree.workdir) (steps p)

/-- What a path leads to, links followed. -/
def resolve (tree : Tree) (p : Path) : Except Fault (Place × Node) :=
  match tree.locate true p with
  | .ok (.present place node) => .ok (place, node)
  | .ok (.absent _) => .error .notFound
  | .error fault => .error fault

/-- The place of a directory. -/
def directory (tree : Tree) (p : Path) : Except Fault Place :=
  match tree.resolve p with
  | .ok (place, .directory) => .ok place
  | .ok _ => .error .notDirectory
  | .error fault => .error fault

def isDirectory (tree : Tree) (p : Path) : Bool := (tree.directory p).isOk

def isFile (tree : Tree) (p : Path) : Bool :=
  match tree.resolve p with
  | .ok (_, .file _) => true
  | _ => false

/-! ## Reading -/

/-- What the system reports as the size of a directory. -/
def directorySize : Nat := 4096

/-- The number of bytes behind a path. -/
def size (tree : Tree) (p : Path) : Except Fault Nat :=
  match tree.resolve p with
  | .ok (_, .file bytes) => .ok bytes.length
  | .ok _ => .ok directorySize
  | .error fault => .error fault

def readBytes (tree : Tree) (p : Path) : Except Fault Bytes :=
  match tree.resolve p with
  | .ok (_, .file bytes) => .ok bytes
  | .ok _ => .error .isDirectory
  | .error fault => .error fault

def readText (tree : Tree) (p : Path) : Except Fault Text :=
  match tree.readBytes p with
  | .ok bytes => (Text.ofBytes? bytes).elim (.error .notText) .ok
  | .error fault => .error fault

/-! ## Changing -/

def put (tree : Tree) (place : Place) (node : Node) : Tree :=
  { tree with
    nodes :=
      if tree.nodes.any fun n => n.1 = place then
        tree.nodes.map fun n => if n.1 = place then (place, node) else n
      else tree.nodes ++ [(place, node)] }

/-- Writes a file, in place of the file that is there. A path that asks for a directory is
refused. -/
def write (tree : Tree) (p : Path) (bytes : Bytes) : Except Fault Tree :=
  if p.getLast? = some slash then
    match tree.locate false (p.reverse.dropWhile (· = slash)).reverse with
    | .error fault => .error fault
    | .ok _ => .error .isDirectory
  else
    match tree.locate true p with
    | .error fault => .error fault
    | .ok (.present place (.file _)) => .ok (tree.put place (.file bytes))
    | .ok (.present _ _) => .error .isDirectory
    | .ok (.absent place) => .ok (tree.put place (.file bytes))

/-- Makes one directory. -/
def makeDirectory (tree : Tree) (p : Path) : Except Fault Tree :=
  match tree.locate false p with
  | .error fault => .error fault
  | .ok (.present _ _) => .error .exists_
  | .ok (.absent place) => .ok (tree.put place .directory)

/-- Makes a directory unless there is one. -/
def ensureDirectory (tree : Tree) (p : Path) : Except Fault Tree :=
  match tree.makeDirectory p with
  | .ok made => .ok made
  | .error fault => if tree.isDirectory p then .ok tree else .error fault

/-- Makes a directory and those above it, given its components from the last to the first. -/
def makeAll (tree : Tree) : List Component → Except Fault Tree
  | [] => .ok tree
  | c :: above =>
    let p := Path.ofComponents (c :: above).reverse
    match tree.ensureDirectory p with
    | .ok made => .ok made
    | .error .notFound => (tree.makeAll above).bind fun made => made.ensureDirectory p
    | .error fault => .error fault

def makeDirectories (tree : Tree) (p : Path) : Except Fault Tree :=
  tree.makeAll (Path.components p).reverse

/-- Writes a file, making the directories that lead to it. -/
def writeBelow (tree : Tree) (p : Path) (bytes : Bytes) : Except Fault Tree :=
  match Path.parent? p with
  | none | some [] => tree.write p bytes
  | some parent => (tree.makeDirectories parent).bind fun made => made.write p bytes

/-- Removes what a path leads to, with everything below it. A link is removed, not what it leads to. -/
def remove (tree : Tree) (p : Path) : Except Fault Tree :=
  match tree.locate false p with
  | .ok (.present place _) =>
    .ok { tree with nodes := tree.nodes.filter fun n => !place.isPrefixOf n.1 }
  | .ok (.absent _) => .error .notFound
  | .error fault => .error fault

/-- What stands in `after` and did not stand so in `before`. Both lists agree in their places as far
as the first one goes, since a tree grows at its end. -/
def changes : List (Place × Node) → List (Place × Node) → List (Place × Node)
  | _, [] => []
  | [], after => after
  | old :: before, new :: after =>
    if old = new then changes before after else new :: changes before after

end Tree
end TemplateDocs.Files
