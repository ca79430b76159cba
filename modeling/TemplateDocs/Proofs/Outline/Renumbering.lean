import Mathlib
import TemplateDocs.Proofs.Outline.Entries

/-!
# Line numbers do not steer the reader

A reader looks at the number of a line only to report a fault. Lines that are numbered otherwise are
read as the same value, or fail with the same fault on the line with the other number.
-/
namespace TemplateDocs.Outline

open Json (Value Fields)

variable (f : Nat → Nat)

def Line.renumber (l : Line) : Line := { l with number := f l.number }

def ReadError.renumber (e : ReadError) : ReadError := { e with line := f e.line }

/-- Lines that are left, each under its other number. -/
def renumberLeft {α : Type} (r : α × List Line) : α × List Line := (r.1, r.2.map (Line.renumber f))

def renumberOutcome (r : Except ReadError (Value × List Line)) :
    Except ReadError (Value × List Line) :=
  (r.mapError (ReadError.renumber f)).map (renumberLeft f)

@[simp] theorem renumberOutcome_ok (v : Value) (left : List Line) :
    renumberOutcome f (.ok (v, left)) = .ok (v, left.map (Line.renumber f)) := rfl

@[simp] theorem Line.renumber_text (l : Line) : (l.renumber f).text = l.text := rfl

theorem active_renumber (ls : List Line) :
    active (ls.map (Line.renumber f)) = (active ls).map (Line.renumber f) := by
  rw [active, active, List.dropWhile_map]
  rfl

/-! ### Values that start on a line -/

theorem gathered_renumber (complete : Text → Option (Text × Text)) (buffer : Text) (ls : List Line) :
    gathered complete buffer (ls.map (Line.renumber f)) =
      (gathered complete buffer ls).map fun r => (r.1, renumberLeft f r.2) := by
  induction ls generalizing buffer with
  | nil =>
    cases hc : complete buffer with
    | none => rw [List.map_nil, gathered_nil hc, Option.map_none]
    | some p =>
      obtain ⟨front, trailing⟩ := p
      rw [List.map_nil, gathered_of_some hc]
      rfl
  | cons l ls ih =>
    cases hc : complete buffer with
    | none => rw [List.map_cons, gathered_cons hc, gathered_cons hc, ← ih, Line.renumber_text]
    | some p =>
      obtain ⟨front, trailing⟩ := p
      rw [gathered_of_some hc, gathered_of_some hc]
      rfl

theorem finish_renumber (line : Line) (unfinished : Fault) (after : Text → Fault)
    (meaning : Text → Except Fault Value) (found : Option (Text × Text × List Line)) :
    finish (line.renumber f) unfinished after meaning (found.map fun r => (r.1, renumberLeft f r.2)) =
      renumberOutcome f (finish line unfinished after meaning found) := by
  rcases found with _ | ⟨front, trailing, rest⟩
  · rfl
  · simp only [Option.map_some, renumberLeft, finish]
    split_ifs
    · cases meaning front <;> rfl
    · rfl

theorem deeperParts_renumber (parent : Option Nat) (ls : List Line) :
    deeperParts parent (ls.map (Line.renumber f)) = renumberLeft f (deeperParts parent ls) := by
  induction ls with
  | nil => rfl
  | cons l ls ih =>
    rw [List.map_cons, deeperParts, deeperParts, ih]
    change (if l.isIdle then _ else if parent.all (· < l.indent) then _ else _) = _
    split_ifs <;> rfl

theorem blockIndent_renumber (h : Header) (parent : Option Nat) (ls : List Line) :
    h.blockIndent parent (ls.map (Line.renumber f)) = h.blockIndent parent ls := by
  have hsame : (fun l : Line => !l.text.isEmpty) ∘ Line.renumber f = fun l => !l.text.isEmpty := rfl
  unfold Header.blockIndent
  rw [List.find?_map, hsame]
  cases h.indent with
  | some digit => rfl
  | none => cases ls.find? fun l => !l.text.isEmpty <;> rfl

theorem readBlock_renumber (header : Text) (line : Line) (parent : Option Nat) (ls : List Line) :
    (readBlock header (line.renumber f) parent (ls.map (Line.renumber f))).map Read.parts =
      renumberOutcome f ((readBlock header line parent ls).map Read.parts) := by
  rw [readBlock_parts, readBlock_parts]
  cases Header.parse? (plainPart header) with
  | none => rfl
  | some h =>
    simp only [blockIndent_renumber, List.takeWhile_map, List.dropWhile_map, List.map_map]
    split_ifs <;> rfl

theorem readPlain_renumber (text : Text) (parent : Option Nat) (ls : List Line) :
    (readPlain text parent (ls.map (Line.renumber f))).parts =
      renumberLeft f (readPlain text parent ls).parts := by
  rw [readPlain_parts, readPlain_parts, deeperParts_renumber]
  rfl

theorem readInline_renumber (text : Text) (line : Line) (parent : Option Nat) (ls : List Line) :
    (readInline text (line.renumber f) parent (ls.map (Line.renumber f))).map Read.parts =
      renumberOutcome f ((readInline text line parent ls).map Read.parts) := by
  have hplain : (Except.ok (readPlain text parent (ls.map (Line.renumber f)))).map Read.parts =
      renumberOutcome f ((Except.ok (readPlain text parent ls)).map Read.parts) :=
    congrArg Except.ok (readPlain_renumber f text parent ls)
  unfold readInline
  cases text with
  | nil => exact hplain
  | cons c t =>
    dsimp only
    split_ifs
    · exact readBlock_renumber f (c :: t) line parent ls
    · rw [readQuoted_parts, readQuoted_parts, gathered_renumber, finish_renumber]
    · rw [readFlow_parts, readFlow_parts, gathered_renumber, finish_renumber]
    · exact hplain

/-! ### Tasks -/

/-- The task under the other numbers. -/
def Task.renumber : Task → Task
  | .node parent => .node parent
  | .mapping indent acc => .mapping indent acc
  | .sequence indent => .sequence indent
  | .item line indent => .item (line.renumber f) indent
  | .entry text line indent => .entry text (line.renumber f) indent

theorem blockTask?_renumber (line : Line) : blockTask? (line.renumber f) = blockTask? line := rfl

/-- A block collection is told by its task alone. -/
theorem renumber_of_blockTask? {line : Line} {task : Task} (h : blockTask? line = some task) :
    task.renumber f = task := by
  unfold blockTask? at h
  split_ifs at h <;> cases h <;> rfl

/-- A sequence with one more item in front. -/
def consItem (v : Value) : Value × List Line → Value × List Line
  | (.array vs, left) => (.array (v :: vs), left)
  | r => r

theorem readSequence_cons (v : Value) (indent : Nat) (ls : List Line) :
    (readSequence indent ls).map (fun r => (Value.array (v :: r.value), r.rest)) =
      ((Task.sequence indent).run ls).map (consItem v) := by
  rw [Task.run]
  cases readSequence indent ls <;> rfl

theorem renumberOutcome_consItem (v : Value) (r : Except ReadError (Value × List Line)) :
    (renumberOutcome f r).map (consItem v) = renumberOutcome f (r.map (consItem v)) := by
  rcases r with e | ⟨w, left⟩
  · rfl
  · cases w <;> rfl

/-- Tasks of size below `n` do not look at line numbers. -/
def RenumbersBelow (n : Nat) : Prop :=
  ∀ (task : Task) (ls : List Line), task.size ls < n →
    (task.renumber f).run (ls.map (Line.renumber f)) = renumberOutcome f (task.run ls)

namespace RenumbersBelow

variable {f} {ls : List Line}

theorem node {parent : Option Nat} (ih : RenumbersBelow f ((Task.node parent).size ls)) :
    (Task.node parent).run (ls.map (Line.renumber f)) =
      renumberOutcome f ((Task.node parent).run ls) := by
  rw [Task.run_node, Task.run_node, active_renumber]
  cases ha : active ls with
  | nil => rfl
  | cons line rest =>
    have hweight := active_weight_cons ha
    simp only [List.map_cons, blockTask?_renumber]
    cases ht : blockTask? line with
    | none => exact readInline_renumber f line.text line parent rest
    | some task =>
      have hsize : task.size (line :: rest) < (Task.node parent).size ls := by
        unfold blockTask? at ht
        split_ifs at ht <;> cases ht <;> simp only [Task.size, weight_cons] <;> omega
      have := ih task (line :: rest) hsize
      rwa [renumber_of_blockTask? f ht] at this

theorem mapping {indent : Nat} {acc : Fields} (ih : RenumbersBelow f ((Task.mapping indent acc).size ls)) :
    (Task.mapping indent acc).run (ls.map (Line.renumber f)) =
      renumberOutcome f ((Task.mapping indent acc).run ls) := by
  rw [Task.run_mapping, Task.run_mapping, active_renumber]
  cases ha : active ls with
  | nil => rfl
  | cons line rest =>
    have hweight := active_weight_cons ha
    dsimp only [List.map_cons]
    -- the tests on the line are the same ones, up to unfolding its renumbering
    change (if line.indent < indent then _ else if indent < line.indent then _ else _) = _
    split_ifs
    · rfl
    · rfl
    rw [Line.renumber_text]
    cases hk : splitKey? line.text with
    | none => rfl
    | some p =>
      obtain ⟨key, after⟩ := p
      dsimp only
      split_ifs with hd
      · rfl
      have hentry := ih (.entry (Text.trim after) line indent) rest (by simp only [Task.size]; omega)
      rw [Task.renumber] at hentry
      rw [hentry]
      cases he : (Task.entry (Text.trim after) line indent).run rest with
      | error e => rfl
      | ok q =>
        obtain ⟨v, mid⟩ := q
        have hmid := Task.run_entry_weight he
        exact ih (.mapping indent (Fields.insert key v acc)) mid (by simp only [Task.size]; omega)

theorem sequence {indent : Nat} (ih : RenumbersBelow f ((Task.sequence indent).size ls)) :
    (Task.sequence indent).run (ls.map (Line.renumber f)) =
      renumberOutcome f ((Task.sequence indent).run ls) := by
  rw [Task.run_sequence, Task.run_sequence, active_renumber]
  cases ha : active ls with
  | nil => rfl
  | cons line rest =>
    have hweight := active_weight_cons ha
    dsimp only [List.map_cons]
    change (if line.indent < indent then _ else if indent < line.indent then _
      else if Line.isItemText line.text then _ else _) = _
    split_ifs with hless hmore hitem
    · rfl
    · rfl
    · have hrun := ih (.item line indent) rest (by simp only [Task.size]; omega)
      rw [Task.renumber] at hrun
      rw [hrun]
      cases he : (Task.item line indent).run rest with
      | error e => rfl
      | ok q =>
        obtain ⟨v, mid⟩ := q
        have hmid := Task.run_item_weight hitem he
        have hrest := ih (.sequence indent) mid (by simp only [Task.size]; omega)
        rw [Task.renumber] at hrest
        simp only [renumberOutcome_ok, readSequence_cons, hrest, renumberOutcome_consItem]
    · rfl

theorem item {line : Line} {indent : Nat} (ih : RenumbersBelow f ((Task.item line indent).size ls)) :
    (Task.item (line.renumber f) indent).run (ls.map (Line.renumber f)) =
      renumberOutcome f ((Task.item line indent).run ls) := by
  simp only [Task.run]
  change (if isTrailingComment (itemContent line) then _ else _) = _
  split_ifs with hc
  · rw [active_renumber]
    cases active ls with
    | nil => rfl
    | cons next rest =>
      dsimp only [List.map_cons]
      change (if indent < next.indent then _ else _) = _
      split_ifs
      · exact ih (.node (some indent)) ls (by simp only [Task.size]; omega)
      · rfl
  · exact ih (.node (some indent)) (itemLine line (itemContent line) :: ls) (Task.size_itemLine hc)

theorem entry {text : Text} {line : Line} {indent : Nat}
    (ih : RenumbersBelow f ((Task.entry text line indent).size ls)) :
    (Task.entry text (line.renumber f) indent).run (ls.map (Line.renumber f)) =
      renumberOutcome f ((Task.entry text line indent).run ls) := by
  rw [Task.run_entry, Task.run_entry]
  split_ifs with hc
  · rw [active_renumber]
    cases active ls with
    | nil => rfl
    | cons next rest =>
      dsimp only [List.map_cons]
      change (if indent < next.indent then _
        else if next.indent = indent ∧ Line.isItemText next.text then _ else _) = _
      split_ifs
      · exact ih (.node (some indent)) ls (by simp only [Task.size]; omega)
      · exact ih (.sequence indent) ls (by simp only [Task.size]; omega)
      · rfl
  · exact readInline_renumber f text line (some indent) ls

end RenumbersBelow

theorem renumbersBelow (n : Nat) : RenumbersBelow f n := by
  induction n with
  | zero => exact fun task ls h => absurd h (Nat.not_lt_zero _)
  | succ n ih =>
    intro task ls h
    have ih : RenumbersBelow f (task.size ls) := fun t ls' h' => ih t ls' (by omega)
    cases task with
    | node parent => exact ih.node
    | mapping indent acc => exact ih.mapping
    | sequence indent => exact ih.sequence
    | item line indent => exact ih.item
    | entry text line indent => exact ih.entry

theorem Task.run_renumber (task : Task) (ls : List Line) :
    (task.renumber f).run (ls.map (Line.renumber f)) = renumberOutcome f (task.run ls) :=
  renumbersBelow f _ task ls (Nat.lt_succ_self _)

/-! ### Documents -/

theorem documentBody_renumber (ls : List Line) :
    documentBody (ls.map (Line.renumber f)) = (documentBody ls).map (Line.renumber f) := by
  unfold documentBody
  rw [active_renumber]
  cases active ls with
  | nil => rfl
  | cons line rest =>
    dsimp only [List.map_cons]
    change (if line.text = "---".toList then _ else _) = _
    split_ifs <;> rfl

theorem readLines_renumber (ls : List Line) :
    readLines (ls.map (Line.renumber f)) = (readLines ls).mapError (ReadError.renumber f) := by
  rw [readLines_eq, readLines_eq, documentBody_renumber]
  have hrun := (Task.node none).run_renumber f (documentBody ls)
  rw [Task.renumber] at hrun
  rw [hrun]
  cases (Task.node none).run (documentBody ls) with
  | error e => rfl
  | ok q =>
    obtain ⟨v, left⟩ := q
    rw [renumberOutcome_ok]
    dsimp only
    rw [active_renumber]
    cases active left <;> rfl

theorem Line.numbered_add (k n : Nat) (raws : Lines) :
    numbered (n + k) raws = (numbered n raws).map (renumber (· + k)) := by
  induction raws generalizing n with
  | nil => rfl
  | cons raw raws ih =>
    rw [numbered, numbered, List.map_cons, ← ih, Nat.add_right_comm]
    rfl

/-- A text that stands `k` lines further down is read alike, and its faults are told `k` lines
further down. -/
theorem read_add (t : Text) (n k : Nat) :
    read t (n + k) = (read t n).mapError (ReadError.renumber (· + k)) := by
  rw [read, read, Line.numbered_add, readLines_renumber]

end TemplateDocs.Outline
