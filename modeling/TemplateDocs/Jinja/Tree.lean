import TemplateDocs.Jinja.Value

/-!
# Jinja templates as trees

Names and literals keep their lines, since a fault is put on the line of the last name or literal
before the operation that fails.
-/
namespace TemplateDocs.Jinja

inductive Operator where
  | add | subtract | multiply | divide | concat
  | equal | notEqual | less | lessEqual | greater | greaterEqual
  | in_ | notIn
  | and_ | or_
  deriving DecidableEq, Repr

inductive Expr where
  | name (line : Nat) (n : Text)
  | literal (line : Nat) (v : Value)
  /-- The missing branch of a condition. -/
  | absent
  | list (items : List Expr)
  | map (keys values : List Expr)
  | not_ (e : Expr)
  | negate (e : Expr)
  | binary (op : Operator) (left right : Expr)
  | ifElse (test yes no : Expr)
  | attribute (e : Expr) (name : Text)
  | item (e index : Expr)
  | filter (name : Text) (e : Expr) (arguments : List Expr)
  | test (name : Text) (e : Expr) (arguments : List Expr)
  | call (name : Text) (arguments : List Expr)
  | method (e : Expr) (name : Text) (arguments : List Expr)
  | callValue (e : Expr) (arguments : List Expr)

mutual

/-- The line of the last name or literal of an expression, or `line` if it has none. -/
def Expr.lineAfter (line : Nat) : Expr → Nat
  | .name l _ => l
  | .literal l _ => l
  | .absent => line
  | .list items => linesAfter line items
  | .map keys values => linesAfter (linesAfter line keys) values
  | .not_ e => e.lineAfter line
  | .negate e => e.lineAfter line
  | .binary _ left right => right.lineAfter (left.lineAfter line)
  | .ifElse test yes no => no.lineAfter (yes.lineAfter (test.lineAfter line))
  | .attribute e _ => e.lineAfter line
  | .item e index => index.lineAfter (e.lineAfter line)
  | .filter _ e arguments => linesAfter (e.lineAfter line) arguments
  | .test _ e arguments => linesAfter (e.lineAfter line) arguments
  | .call _ arguments => linesAfter line arguments
  | .method e _ arguments => linesAfter (e.lineAfter line) arguments
  | .callValue e arguments => linesAfter (e.lineAfter line) arguments

def linesAfter (line : Nat) : List Expr → Nat
  | [] => line
  | e :: rest => linesAfter (e.lineAfter line) rest

end

/-- What a loop binds: one name, or several that take a sequence apart. -/
inductive Target where
  | name (n : Text)
  | names (targets : List Target)

inductive Statement where
  | data (t : Text)
  | emit (line : Nat) (e : Expr)
  | if_ (line : Nat) (test : Expr) (yes no : List Statement)
  | for_ (line : Nat) (target : Target) (source : Expr) (filter : Option Expr)
      (body otherwise : List Statement)
  | set (line : Nat) (name : Text) (value : Expr)
  /-- Binds what the body prints. -/
  | capture (name : Text) (body : List Statement)

end TemplateDocs.Jinja
