import TemplateDocs.Text.Utf8

/-!
# Paths

A path is bytes whose components stand between slashes. Most of them are UTF-8, but none has to be.
Repeated slashes, a slash at the end and the component `.` count for nothing, except that `.` is kept
at the front.
-/
namespace TemplateDocs.Files

abbrev Path := Bytes

/-- The name of something in a directory. -/
abbrev Name := Bytes

def slash : UInt8 := 0x2F

/-- The name of the directory itself. -/
def dot : Name := [0x2E]

/-- The name of the directory above. -/
def dotDot : Name := [0x2E, 0x2E]

inductive Component where
  /-- The slash at the front. -/
  | root
  /-- A dot at the front. -/
  | here
  | parent
  | name (n : Name)
  deriving DecidableEq, Repr

namespace Component

def bytes : Component → Bytes
  | .root => [slash]
  | .here => dot
  | .parent => dotDot
  | .name n => n

/-- What a piece between slashes stands for; an empty piece and a dot stand for nothing. -/
def ofPiece? (piece : Bytes) : Option Component :=
  if piece.isEmpty ∨ piece = dot then none
  else if piece = dotDot then some .parent
  else some (.name piece)

end Component

namespace Path

/-- A path written out as text. -/
def of (s : String) : Path := Text.toBytes s.toList

def isAbsolute (p : Path) : Bool := p.head? = some slash

/-- The component at the front that is no name. -/
def front (p : Path) : List Component :=
  if isAbsolute p then [.root]
  else if (Text.split slash p).head? = some dot then [.here]
  else []

def components (p : Path) : List Component :=
  front p ++ (Text.split slash p).filterMap Component.ofPiece?

/-- The plain form of a list of components. -/
def ofComponents : List Component → Path
  | .root :: rest => slash :: Text.join [slash] (rest.map Component.bytes)
  | rest => Text.join [slash] (rest.map Component.bytes)

/-- A path read from the place that another path names. -/
def append (base p : Path) : Path :=
  if isAbsolute p ∨ base.isEmpty then p
  else if base.getLast? = some slash then base ++ p
  else base ++ slash :: p

/-- The path without its last component. -/
def parent? (p : Path) : Option Path :=
  let cs := components p
  match cs.getLast? with
  | none | some .root => none
  | some _ => some (ofComponents cs.dropLast)

/-- The last component if it is a name. -/
def fileName? (p : Path) : Option Name :=
  match (components p).getLast? with
  | some (.name n) => some n
  | _ => none

/-- What follows the last dot of the file name, unless that dot is at its front. -/
def extension? (p : Path) : Option Bytes := do
  let name ← fileName? p
  let pieces := Text.split 0x2E name
  let last ← pieces.getLast?
  if pieces.length = 1 ∨ (pieces.length = 2 ∧ pieces.head? = some []) then none else some last

/-- The path as seen from `root`, for display; a path outside of it is left as it is. -/
def relativeTo (root p : Path) : Text :=
  let cs := components p
  let below := (Text.after? (components root) cs).getD cs
  Text.join ['/'] (below.map fun c => Text.ofBytesLossy c.bytes)

end Path
end TemplateDocs.Files
