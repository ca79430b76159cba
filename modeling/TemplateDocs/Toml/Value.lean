import TemplateDocs.Json.Value

/-!
# TOML tables

A document is one table. How a table came about decides what may still be added to it: a header
opens a table once, a dotted key extends only tables that dotted keys made, and an inline table is
closed.
-/
namespace TemplateDocs.Toml

inductive TableKind where
  /-- Named on the way to a deeper header only. -/
  | implicit
  | header
  | dotted
  | inline
  deriving DecidableEq, Repr

inductive Value where
  | string (s : Text)
  | integer (i : Int)
  | float (x : Float)
  | boolean (b : Bool)
  | datetime (t : Text)
  /-- An array; headers may add tables to it if it was made by headers. -/
  | array (ofHeaders : Bool) (items : List Value)
  | table (kind : TableKind) (entries : List (Text × Value))

abbrev Entries := List (Text × Value)

namespace Entries

def get? (key : Text) : Entries → Option Value
  | [] => none
  | (k, v) :: rest => if k = key then some v else get? key rest

/-- Puts an entry at its place in the order of keys. -/
def insert (key : Text) (v : Value) : Entries → Entries
  | [] => [(key, v)]
  | (k, w) :: rest =>
    if k = key then (key, v) :: rest
    else if Text.precedes key k then (key, v) :: (k, w) :: rest
    else (k, w) :: insert key v rest

end Entries

structure Table where
  kind : TableKind := .header
  entries : Entries := []

namespace Table

def toValue (t : Table) : Value := .table t.kind t.entries

/-- The table that a key leads to, and how to put it back. -/
def child? (dotted : Bool) (key : Text) (t : Table) : Option (Table × (Table → Table)) :=
  let put (v : Value) : Table := { t with entries := t.entries.insert key v }
  match t.entries.get? key with
  | none => some (⟨if dotted then .dotted else .implicit, []⟩, fun c => put c.toValue)
  | some (.table kind entries) =>
    if kind = .inline ∨ (dotted ∧ kind = .header) then none
    else some (⟨kind, entries⟩, fun c => put c.toValue)
  | some (.array true items) =>
    match items.getLast? with
    | some (.table kind entries) =>
      some (⟨kind, entries⟩, fun c => put (.array true (items.dropLast ++ [c.toValue])))
    | _ => none
  | some _ => none

/-- Changes the table at the end of a path. -/
def updateAt (dotted : Bool) (f : Table → Option Table) : List Text → Table → Option Table
  | [], t => f t
  | key :: path, t => do
    let (inner, put) ← t.child? dotted key
    return put (← updateAt dotted f path inner)

/-- Adds an entry under a dotted key. -/
def addEntry (path : List Text) (key : Text) (v : Value) (t : Table) : Option Table :=
  updateAt true (fun inner =>
    if (inner.kind == .dotted) == path.isEmpty then none
    else if (inner.entries.get? key).isSome then none
    else some { inner with entries := inner.entries.insert key v }) path t

/-- Opens the table of a header. -/
def openTable (path : List Text) (key : Text) (t : Table) : Option Table :=
  updateAt false (fun inner =>
    match inner.entries.get? key with
    | none => some { inner with entries := inner.entries.insert key (.table .header []) }
    | some (.table .implicit entries) =>
      some { inner with entries := inner.entries.insert key (.table .header entries) }
    | some _ => none) path t

/-- Opens one more table of an array. -/
def appendTable (path : List Text) (key : Text) (t : Table) : Option Table :=
  updateAt false (fun inner =>
    match inner.entries.get? key with
    | none => some { inner with entries := inner.entries.insert key (.array true [.table .header []]) }
    | some (.array true items) =>
      some { inner with
        entries := inner.entries.insert key (.array true (items ++ [.table .header []])) }
    | some _ => none) path t

end Table

/-! ## As JSON -/

/-- What a number without a JSON form is called. -/
def unwritable (x : Float) : Text :=
  if x.isNaN then "NaN".toList else if x < 0 then "-inf".toList else "inf".toList

mutual

/-- The JSON form of a value, or the first number that has none. -/
def Value.toJson : Value → Except Text Json.Value
  | .string s => .ok (.string s)
  | .integer i => .ok (.number (.int i))
  | .float x =>
    match Json.Number.ofFloat? x with
    | some n => .ok (.number n)
    | none => .error (unwritable x)
  | .boolean b => .ok (.bool b)
  | .datetime t => .ok (.string t)
  | .array _ items => (itemsToJson items).map .array
  | .table _ entries => (entriesToJson entries).map .object

def itemsToJson : List Value → Except Text (List Json.Value)
  | [] => .ok []
  | v :: rest => do
    let first ← v.toJson
    return first :: (← itemsToJson rest)

def entriesToJson : List (Text × Value) → Except Text (List (Text × Json.Value))
  | [] => .ok []
  | (k, v) :: rest => do
    let first ← v.toJson
    return (k, first) :: (← entriesToJson rest)

end

end TemplateDocs.Toml
