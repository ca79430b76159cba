import TemplateDocs.Jinja.Tree
import TemplateDocs.Text.Case

/-!
# Rendering Jinja templates

Names are looked up in the bindings, newest first. A missing name is undefined, and so is a missing
attribute of a value that is there; only to look into an undefined value is a fault.
-/
namespace TemplateDocs.Jinja

/-- Values by name, the newest binding first. -/
abbrev Bindings := List (Text × Value)

namespace Bindings

def get? (name : Text) : Bindings → Option Value
  | [] => none
  | (n, v) :: rest => if n = name then some v else get? name rest

end Bindings

/-! ## Filters, tests and operators -/

/-- Joins the items; the separator is left out as long as nothing was printed. -/
def joinItems (sep : Text) : Text → List Value → Text
  | done, [] => done
  | done, v :: rest =>
    joinItems sep ((if done.isEmpty then [] else done ++ sep) ++ v.toText) rest

def joinFilter (v : Value) (sep : Text) : Except Cause Value :=
  match v.items? with
  | some items => .ok (.string (joinItems sep [] items))
  | none => .error (.notJoinable v.kind.name)

def applyFilter (name : Text) (v : Value) (arguments : List Value) : Except Cause Value :=
  if name = "upper".toList then
    match arguments with
    | [] => .ok (.string (Text.upper v.toText))
    | _ => .error .tooManyArguments
  else if name = "length".toList ∨ name = "count".toList then
    match arguments with
    | [] =>
      match v.length? with
      | some n => .ok (.int n)
      | none => .error (.noLength v.kind.name)
    | _ => .error .tooManyArguments
  else if name = "default".toList ∨ name = "d".toList then
    match arguments with
    | [] => .ok (if v.isUndefined then .string [] else v)
    | [other] => .ok (if v.isUndefined then other else v)
    | _ => .error .tooManyArguments
  else if name = "join".toList then
    match arguments with
    | [] => joinFilter v []
    | [sep] => joinFilter v sep.toText
    | _ => .error .tooManyArguments
  else .error (.unknownFilter name)

def plainTest? (name : Text) : Option (Value → Bool) :=
  if name = "defined".toList then some fun v => !v.isUndefined
  else if name = "undefined".toList then some Value.isUndefined
  else if name = "none".toList then some fun v => v.kind = .none_
  else if name = "boolean".toList then some fun v => v.kind = .bool
  else if name = "number".toList then some fun v => v.kind = .number
  else if name = "string".toList then some fun v => v.kind = .string
  else if name = "sequence".toList then some fun v => v.kind = .list
  else if name = "mapping".toList then some fun v => v.kind = .map
  else none

def applyTest (name : Text) (v : Value) (arguments : List Value) : Except Cause Value :=
  match plainTest? name, arguments with
  | none, _ => .error (.unknownTest name)
  | some test, [] => .ok (.bool (test v))
  | some _, _ :: _ => .error .tooManyArguments

/-- The operators that need both operands; `and` and `or` do not. -/
def Operator.apply (op : Operator) (a b : Value) : Except Cause Value :=
  match op with
  | .add => a.add b
  | .subtract => a.subtract b
  | .multiply => a.multiply b
  | .divide => a.divide b
  | .concat => .ok (.string (a.toText ++ b.toText))
  | .equal => .ok (.bool (a.equals b))
  | .notEqual => .ok (.bool !a.equals b)
  | .less => .ok (.bool (a.compare b).isLT)
  | .lessEqual => .ok (.bool (a.compare b).isLE)
  | .greater => .ok (.bool (a.compare b).isGT)
  | .greaterEqual => .ok (.bool (a.compare b).isGE)
  | .in_ => (b.holds a).map .bool
  | .notIn => (b.holds a).map fun found => .bool !found
  | .and_ => .ok (if a.isTrue then b else a)
  | .or_ => .ok (if a.isTrue then a else b)

/-- Whether the first operand alone decides. -/
def Operator.decides (op : Operator) (a : Value) : Bool :=
  match op with
  | .and_ => !a.isTrue
  | .or_ => a.isTrue
  | _ => false

/-- Puts a fault on a line. -/
def onLine {α : Type} (line : Nat) : Except Cause α → Except Fault α
  | .ok a => .ok a
  | .error cause => .error ⟨cause, line⟩

/-- A part of a value; to look into an undefined value is a fault. -/
def partOf (v : Value) (part : Option Value) : Except Cause Value :=
  match part with
  | some found => .ok found
  | none => if v.isUndefined then .error .undefinedValue else .ok .undefined

/-- No value that a template can hold is a function. -/
def callFunction (bindings : Bindings) (name : Text) : Except Cause Value :=
  match bindings.get? name with
  | some v => .error (.notCallable v.kind.name)
  | none => .error (.unknownFunction name)

def callMethod (v : Value) (name : Text) : Except Cause Value :=
  match v.attribute? name with
  | some f => .error (.notCallable f.kind.name)
  | none => .error (.unknownMethod v.kind.name name)

def mapOf : List Value → List Value → List (Text × Value)
  | k :: ks, v :: vs => mapOf ks vs |> fun rest =>
    if (Value.lookup? k.toText rest).isSome then rest else Value.insertEntry k.toText v rest
  | _, _ => []

/-! ## Expressions -/

mutual

/-- The value of an expression that comes after a name or literal on `line`. -/
def Expr.eval (bindings : Bindings) (line : Nat) : Expr → Except Fault Value
  | .name _ n => .ok ((bindings.get? n).getD .undefined)
  | .literal _ v => .ok v
  | .absent => .ok .undefined
  | .list items => do return .list (← evalAll bindings line items)
  | .map keys values => do
    let ks ← evalAll bindings line keys
    let vs ← evalAll bindings (linesAfter line keys) values
    return .map (mapOf ks vs)
  | .not_ e => do return .bool !(← e.eval bindings line).isTrue
  | .negate e => do onLine (e.lineAfter line) (← e.eval bindings line).negate
  | .binary op left right => do
    let a ← left.eval bindings line
    if op.decides a then return a
    let b ← right.eval bindings (left.lineAfter line)
    onLine (right.lineAfter (left.lineAfter line)) (op.apply a b)
  | .ifElse test yes no => do
    let here := test.lineAfter line
    if (← test.eval bindings line).isTrue then yes.eval bindings here
    else no.eval bindings (yes.lineAfter here)
  | .attribute e n => do
    let v ← e.eval bindings line
    onLine (e.lineAfter line) (partOf v (v.attribute? n))
  | .item e index => do
    let v ← e.eval bindings line
    let i ← index.eval bindings (e.lineAfter line)
    onLine (index.lineAfter (e.lineAfter line)) (partOf v (v.item? i))
  | .filter n e arguments => do
    let v ← e.eval bindings line
    let args ← evalAll bindings (e.lineAfter line) arguments
    onLine (linesAfter (e.lineAfter line) arguments) (applyFilter n v args)
  | .test n e arguments => do
    let v ← e.eval bindings line
    let args ← evalAll bindings (e.lineAfter line) arguments
    onLine (linesAfter (e.lineAfter line) arguments) (applyTest n v args)
  | .call n arguments => do
    let _ ← evalAll bindings line arguments
    onLine (linesAfter line arguments) (callFunction bindings n)
  | .method e n arguments => do
    let v ← e.eval bindings line
    let _ ← evalAll bindings (e.lineAfter line) arguments
    onLine (linesAfter (e.lineAfter line) arguments) (callMethod v n)
  | .callValue e arguments => do
    let v ← e.eval bindings line
    let _ ← evalAll bindings (e.lineAfter line) arguments
    onLine (linesAfter (e.lineAfter line) arguments) (.error (.notCallable v.kind.name))

def evalAll (bindings : Bindings) (line : Nat) : List Expr → Except Fault (List Value)
  | [] => .ok []
  | e :: rest => do
    let v ← e.eval bindings line
    return v :: (← evalAll bindings (e.lineAfter line) rest)

end

/-! ## Statements -/

mutual

/-- Binds a value to a target on top of the bindings. -/
def Target.bind (bindings : Bindings) (v : Value) : Target → Except Cause Bindings
  | .name n => .ok ((n, v) :: bindings)
  | .names targets =>
    match v with
    | .list items =>
      if items.length = targets.length then bindAll bindings items targets
      else .error (.wrongLength targets.length items.length)
    | _ => .error .notSequence

def bindAll (bindings : Bindings) : List Value → List Target → Except Cause Bindings
  | v :: vs, t :: ts => do bindAll (← t.bind bindings v) vs ts
  | _, _ => .ok bindings

end

/-- What a loop body can ask about the loop. -/
def loopValue (length index : Nat) : Value :=
  let entry (key : String) (v : Value) : Text × Value := (key.toList, v)
  .map [
    entry "first" (.bool (index == 0)),
    entry "index" (.int (index + 1)),
    entry "index0" (.int index),
    entry "last" (.bool (index + 1 == length)),
    entry "length" (.int length),
    entry "revindex" (.int (length - index)),
    entry "revindex0" (.int (length - index - 1))]

/-- The items that a loop keeps. -/
def keepItems (bindings : Bindings) (line : Nat) (target : Target) (filter : Option Expr) :
    List Value → Except Fault (List Value)
  | [] => .ok []
  | v :: rest => do
    let kept ←
      match filter with
      | none => pure true
      | some e =>
        let inner ← onLine line (target.bind bindings v)
        pure (← e.eval inner line).isTrue
    let others ← keepItems bindings line target filter rest
    return if kept then v :: others else others

def escapeChar (c : Char) : Text :=
  if c = '<' then "&lt;".toList
  else if c = '>' then "&gt;".toList
  else if c = '&' then "&amp;".toList
  else if c = '"' then "&quot;".toList
  else if c = '\'' then "&#x27;".toList
  else if c = '/' then "&#x2f;".toList
  else [c]

/-- The text of a value in the output. -/
def emitted (escaping : Bool) (v : Value) : Text :=
  match v with
  | .string _ | .list _ | .map _ =>
    if escaping then v.toText.flatMap escapeChar else v.toText
  | _ => v.toText

mutual

/-- Runs a statement; the result is the bindings after it and what it printed. -/
def Statement.run (escaping : Bool) (bindings : Bindings) :
    Statement → Except Fault (Bindings × Text)
  | .data t => .ok (bindings, t)
  | .emit line e => do return (bindings, emitted escaping (← e.eval bindings line))
  | .if_ line test yes no => do
    if (← test.eval bindings line).isTrue then runAll escaping bindings yes
    else runAll escaping bindings no
  | .for_ line target source filter body otherwise => do
    let v ← source.eval bindings line
    let here := source.lineAfter line
    let all ← onLine here
      (match v.items? with
      | some items => .ok items
      | none => .error (.notIterable v.kind.name))
    let items ← keepItems bindings here target filter all
    if items.isEmpty then
      let (_, printed) ← runAll escaping bindings otherwise
      return (bindings, printed)
    else
      let (_, printed) ← items.zipIdx.foldlM (fun (inner, done) (item, index) => do
        let inner := ("loop".toList, loopValue items.length index) :: inner
        let inner ← onLine here (target.bind inner item)
        let (inner, printed) ← runAll escaping inner body
        return (inner, done ++ printed)) (bindings, [])
      return (bindings, printed)
  | .set line n e => do return ((n, ← e.eval bindings line) :: bindings, [])
  | .capture n body => do
    let (inner, printed) ← runAll escaping bindings body
    return ((n, .string printed) :: inner, [])

def runAll (escaping : Bool) (bindings : Bindings) :
    List Statement → Except Fault (Bindings × Text)
  | [] => .ok (bindings, [])
  | s :: rest => do
    let (bindings, first) ← s.run escaping bindings
    let (bindings, others) ← runAll escaping bindings rest
    return (bindings, first ++ others)

end

end TemplateDocs.Jinja
