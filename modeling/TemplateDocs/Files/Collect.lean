import TemplateDocs.Files.Ignore
import TemplateDocs.Files.Tree

/-!
# Collecting files

The files below a root directory that a selection takes, in the order of their paths. Links to
directories are followed, and every directory is listed at most once, by whatever path it was
reached first; so the walk ends even where links lead back.
-/
namespace TemplateDocs.Files

/-- Which files to take. Paths are relative to the root. -/
structure Selection where
  included : Path → Bool
  /-- What the ignore file leaves out; the flag tells a directory. -/
  ignored : Path → Bool → Bool
  /-- What the configuration leaves out. -/
  excluded : Path → Bool → Bool

/-- Directories that are never entered. A name that is not UTF-8 is none of theirs, whatever it starts
with. -/
def isSkippedName (name : Name) : Bool :=
  (Text.ofBytes? name).any fun t => t.head? = some '.' || t = "node_modules".toList

/-- The path of the names that lead from the root to something. -/
def namesPath (names : List Name) : Path := Text.join [slash] names

namespace Selection

def leavesOut (s : Selection) (names : List Name) (isDirectory : Bool) : Bool :=
  s.ignored (namesPath names) isDirectory || s.excluded (namesPath names) isDirectory

def entersDirectory (s : Selection) (names : List Name) : Bool :=
  !names.getLast?.any isSkippedName && !s.leavesOut names true

def takesFile (s : Selection) (names : List Name) : Bool :=
  !s.leavesOut names false && s.included (namesPath names)

end Selection

/-- What a walk found. -/
structure Walk where
  /-- The names that lead from the root to each file taken. -/
  files : List (List Name)
  /-- The directories listed, the last one first. -/
  listed : List Place
  deriving DecidableEq, Repr

namespace Tree

/-- The directories that were not listed yet. -/
def unlisted (tree : Tree) (listed : List Place) : List Place :=
  tree.directories.filter fun place => !listed.contains place

theorem unlisted_length_cons (tree : Tree) {listed : List Place} {place : Place}
    (h : place ∈ tree.directories) (fresh : place ∉ listed) :
    (tree.unlisted (place :: listed)).length < (tree.unlisted listed).length := by
  have mem : place ∈ tree.unlisted listed := by simp [unlisted, h, fresh]
  have sub : tree.unlisted (place :: listed) = (tree.unlisted listed).filter (· ≠ place) := by
    simp only [unlisted, List.filter_filter]
    congr 1
    funext q
    by_cases hq : q = place <;> simp [hq]
  rw [sub]
  exact List.length_filter_lt_length_iff_exists.2 ⟨place, mem, by simp⟩

/-- What stands in a directory that was reached by the given names. -/
def children (tree : Tree) (place : Place) (names : List Name) : List (List Name) :=
  (tree.entries place).map fun name => names ++ [name]

/-- Goes on with everything that is pending; what is in a directory comes before what follows it. -/
def walk (tree : Tree) (s : Selection) (root : Path) (listed : List Place) :
    List (List Name) → Walk
  | [] => ⟨[], listed⟩
  | names :: pending =>
    match tree.directory (Path.append root (namesPath names)) with
    | .ok place =>
      if _h : s.entersDirectory names ∧ place ∈ tree.directories ∧ place ∉ listed then
        walk tree s root (place :: listed) (tree.children place names ++ pending)
      else walk tree s root listed pending
    | .error _ =>
      let rest := walk tree s root listed pending
      if s.takesFile names then { rest with files := names :: rest.files } else rest
termination_by pending => ((tree.unlisted listed).length, pending.length)
decreasing_by
  · exact Prod.Lex.left _ _ (tree.unlisted_length_cons _h.2.1 _h.2.2)
  all_goals exact Prod.Lex.right _ (Nat.lt_succ_self _)

/-- The files below the root that are taken, as the names that lead to each, in the order of these
names. -/
def collect (tree : Tree) (s : Selection) (root : Path) : Except Fault (List (List Name)) :=
  match tree.directory root with
  | .error fault => .error fault
  | .ok place =>
    let found := tree.walk s root [place] (tree.children place [])
    .ok (found.files.mergeSort fun a b => a ≤ b)

end Tree
end TemplateDocs.Files
