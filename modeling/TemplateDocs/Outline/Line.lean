import TemplateDocs.Lines

/-!
# Lines of an outline

A line knows its number, its indentation and its content. The weight of a list of lines counts lines
and characters together; it falls when a line is used up and when a line's content gets shorter.
-/
namespace TemplateDocs.Outline

structure Line where
  number : Nat
  indent : Nat
  /-- The content without blanks around it. -/
  text : Text
  /-- The line as it stands in the source. -/
  raw : Text
  deriving DecidableEq, Repr

namespace Line

def of (number : Nat) (raw : Text) : Line := ⟨number, Lines.indent raw, Text.trim raw, raw⟩

/-- Blank lines and lines that are a comment hold no content. -/
def isIdle (l : Line) : Bool := l.text.isEmpty || l.text.head? = some '#'

/-- Whether the line starts a sequence item. -/
def isItemText (t : Text) : Bool :=
  match t with
  | ['-'] => true
  | '-' :: c :: _ => c = ' ' || c = '\t'
  | _ => false

def numbered : Nat → Lines → List Line
  | _, [] => []
  | n, raw :: rest => of n raw :: numbered (n + 1) rest

end Line

def weight : List Line → Nat
  | [] => 0
  | l :: ls => l.text.length + 1 + weight ls

@[simp] theorem weight_nil : weight [] = 0 := rfl

theorem weight_cons (l : Line) (ls : List Line) :
    weight (l :: ls) = l.text.length + 1 + weight ls := rfl

theorem weight_suffix {s t : List Line} (h : s <:+ t) : weight s ≤ weight t := by
  obtain ⟨p, rfl⟩ := h
  induction p with
  | nil => exact Nat.le_refl _
  | cons l p ih => exact Nat.le_trans ih (Nat.le_add_left _ _)

/-- The lines from the next one with content on. -/
def active (ls : List Line) : List Line := ls.dropWhile Line.isIdle

theorem active_weight (ls : List Line) : weight (active ls) ≤ weight ls :=
  weight_suffix (List.dropWhile_suffix _)

theorem active_suffix (ls : List Line) : active ls <:+ ls := List.dropWhile_suffix _

end TemplateDocs.Outline
