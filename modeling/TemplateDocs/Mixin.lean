import TemplateDocs.Lines
import TemplateDocs.Text.Word

/-!
# Mixins of one template

A `mixin` line declares a name, a `+name` calls it. An example that calls a mixin of its file is
given the declarations it needs, each after the declarations it needs itself.
-/
namespace TemplateDocs

structure Mixin where
  name : Text
  /-- The head line and its body, moved to column zero. -/
  declaration : Text
  deriving DecidableEq, Repr

namespace Mixin

def isNameChar (c : Char) : Bool := Text.isWordChar c || c = '_' || c = '-'

/-- The name that a line declares. -/
def declaredName? (line : Text) : Option Text :=
  match Text.after? "mixin".toList (Text.trimStart line) with
  | some (' ' :: rest) =>
    let name := (rest.dropWhile (· = ' ')).takeWhile isNameChar
    if name.isEmpty then none else some name
  | _ => none

/-- A call is preceded by nothing, a blank or a colon. -/
def mayPrecedeCall : Option Char → Bool
  | none => true
  | some c => Text.isSpace c || c = ':'

/-- The names called on one line, where `last` is the character before it. -/
def callsAfter (last : Option Char) : Text → List Text
  | [] => []
  | c :: rest =>
    let name := rest.takeWhile isNameChar
    if c = '+' ∧ mayPrecedeCall last ∧ name ≠ [] then name :: callsAfter (some c) rest
    else callsAfter (some c) rest

/-- The names that a source calls, in the order of their first calls. -/
def calls (source : Text) : List Text :=
  ((Text.feedLines source).flatMap (callsAfter none)).eraseDups

/-- The names that a source declares. -/
def declaredNames (source : Text) : List Text := (Text.feedLines source).filterMap declaredName?

/-- The declaration on line `head`, which the lines of `rest` follow. -/
def ofHead? (head : Text) (rest : Lines) : Option Mixin :=
  (declaredName? head).map fun name =>
    let column := Lines.indent head
    let body := Lines.dropBlankEnd (head :: Lines.scope column rest)
    ⟨name, Lines.toText (Lines.dedent column body)⟩

/-- Every declaration of the lines, repeated names included. -/
def declarations : Lines → List Mixin
  | [] => []
  | head :: rest => (ofHead? head rest).toList ++ declarations rest

/-- The mixins with another name. -/
def without (name : Text) (mixins : List Mixin) : List Mixin :=
  mixins.filter fun m => m.name ≠ name

/-- The first declaration of every name. -/
def firsts : List Mixin → List Mixin
  | [] => []
  | m :: rest => m :: without m.name (firsts rest)

/-- The mixins of a template; of several declarations of one name the first counts. -/
def table (ls : Lines) : List Mixin := firsts (declarations ls)

/-- The declaration that a table holds for a name. -/
def get? (mixins : List Mixin) (name : Text) : Option Text :=
  (mixins.find? fun m => m.name = name).map declaration

/-- What a visit leaves to be visited, and the mixins it put in order. -/
structure Visit (pending : List Mixin) where
  left : List Mixin
  ordered : List Mixin
  shrinks : left.length ≤ pending.length

theorem without_length_lt {pending : List Mixin} {m : Mixin} (h : m ∈ pending) :
    (without m.name pending).length < pending.length := by
  refine Nat.lt_of_le_of_ne (List.length_filter_le _ _) fun same => ?_
  have := List.length_filter_eq_length_iff.1 same m h
  simp at this

mutual

/-- Visits a name: its mixin follows the ones that it calls. A name that is not pending is passed
over, so a mixin is put in order once, and recursion ends. -/
def visit (pending : List Mixin) (name : Text) : Visit pending :=
  match h : pending.find? fun m => m.name = name with
  | none => ⟨pending, [], Nat.le_refl _⟩
  | some m =>
    have less := without_length_lt (List.mem_of_find?_eq_some h)
    let inner := visitAll (without m.name pending) (calls m.declaration)
    ⟨inner.left, inner.ordered ++ [m], Nat.le_of_lt (Nat.lt_of_le_of_lt inner.shrinks less)⟩
termination_by (pending.length, 0)

def visitAll (pending : List Mixin) (names : List Text) : Visit pending :=
  match names with
  | [] => ⟨pending, [], Nat.le_refl _⟩
  | name :: rest =>
    match visit pending name with
    | ⟨left, first, shrinks⟩ =>
      let others := visitAll left rest
      ⟨others.left, first ++ others.ordered, Nat.le_trans others.shrinks shrinks⟩
termination_by (pending.length, names.length + 1)
decreasing_by
  · exact .right _ (Nat.succ_pos _)
  · rcases Nat.lt_or_eq_of_le shrinks with h | h
    · exact .left _ _ h
    · rw [h]
      exact .right _ (by simp)

end

/-- The mixins that a source needs and does not declare itself, dependencies first. -/
def dependencies (mixins : List Mixin) (source : Text) : List Mixin :=
  let own := declaredNames source
  (visitAll (mixins.filter fun m => !own.contains m.name) (calls source)).ordered

/-- The source after the declarations it needs. -/
def link (mixins : List Mixin) (source : Text) : Text :=
  Lines.toText ((dependencies mixins source).map declaration ++ [source])

end Mixin
end TemplateDocs
