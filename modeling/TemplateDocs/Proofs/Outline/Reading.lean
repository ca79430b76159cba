import Mathlib
import TemplateDocs.Outline.Reader

/-!
# The rules of reading

The readers of nodes, mappings, sequences and entries call each other on what is left of the lines.
`Reads` states their rules as one relation between a task, the lines, the value and the lines left,
and `reads_iff` says that the readers succeed exactly as the rules allow.
-/
namespace TemplateDocs.Outline

open Json (Value Fields)

/-- What is to be read off the front of the lines. -/
inductive Task where
  | node (parent : Option Nat)
  | mapping (indent : Nat) (acc : Fields)
  | sequence (indent : Nat)
  /-- The rest of the sequence item that `line` starts. -/
  | item (line : Line) (indent : Nat)
  /-- The value after the colon of the mapping entry on `line`. -/
  | entry (text : Text) (line : Line) (indent : Nat)

def Read.parts {α : Type} {ls : List Line} (r : Read α ls) : α × List Line := (r.value, r.rest)

/-- The block collection that a line starts. -/
def blockTask? (line : Line) : Option Task :=
  if Line.isItemText line.text then some (.sequence line.indent)
  else if (splitKey? line.text).isSome then some (.mapping line.indent [])
  else none

namespace Task

def runNode (parent : Option Nat) (ls : List Line) : Except ReadError (Value × List Line) :=
  (readNode parent ls).map Read.parts

/-- The outcome of a task: its value and the lines left. -/
def run : Task → List Line → Except ReadError (Value × List Line)
  | .node parent, ls => runNode parent ls
  | .mapping indent acc, ls => (readMapping indent acc ls).map fun r => (.object r.value, r.rest)
  | .sequence indent, ls => (readSequence indent ls).map fun r => (.array r.value, r.rest)
  | .item line indent, ls =>
    if isTrailingComment (itemContent line) then
      match active ls with
      | [] => .ok (.null, ls)
      | next :: _ => if indent < next.indent then runNode (some indent) ls else .ok (.null, ls)
    else runNode (some indent) (itemLine line (itemContent line) :: ls)
  | .entry text line indent, ls => (readEntry text line indent ls).map Read.parts

theorem run_node (parent : Option Nat) (ls : List Line) :
    (node parent).run ls =
      match active ls with
      | [] => .ok (.null, [])
      | line :: rest =>
        match blockTask? line with
        | some task => task.run (line :: rest)
        | none => (readInline line.text line parent rest).map Read.parts := by
  change (readNode parent ls).map Read.parts = _
  rw [readNode]
  split
  · next h => simp [h, Except.map, Read.parts]
  · next line rest h =>
    simp only [h, blockTask?]
    split_ifs with hi hk
    · cases hr : readSequence line.indent (line :: rest) <;> simp [run, hr, Except.map, Read.parts]
    · cases hr : readMapping line.indent [] (line :: rest) <;> simp [run, hr, Except.map, Read.parts]
    · cases readInline line.text line parent rest <;> simp [Except.map, Read.parts]

theorem run_mapping (indent : Nat) (acc : Fields) (ls : List Line) :
    (mapping indent acc).run ls =
      match active ls with
      | [] => .ok (.object acc, [])
      | line :: rest =>
        if line.indent < indent then .ok (.object acc, line :: rest)
        else if indent < line.indent then .error ⟨line.number, .unexpectedIndent⟩
        else
          match splitKey? line.text with
          | none => .error ⟨line.number, .expectedEntry⟩
          | some (key, after) =>
            if Fields.has key acc then .error ⟨line.number, .duplicateKey key⟩
            else
              match (entry (Text.trim after) line indent).run rest with
              | .error e => .error e
              | .ok (v, mid) => (mapping indent (Fields.insert key v acc)).run mid := by
  change (readMapping indent acc ls).map _ = _
  rw [readMapping]
  split
  · next h => simp [h, Except.map]
  · next line rest h =>
    simp only [h]
    split_ifs with h1 h2
    · simp [Except.map]
    · simp [Except.map]
    · cases hk : splitKey? line.text with
      | none => simp [Except.map]
      | some p =>
        obtain ⟨key, after⟩ := p
        dsimp only
        split_ifs with hd
        · simp [Except.map]
        · simp only [run]
          cases he : readEntry (Text.trim after) line indent rest with
          | error e => simp [Except.map]
          | ok v =>
            simp only [Except.map, Read.parts]
            cases readMapping indent (Fields.insert key v.value acc) v.rest <;> simp

theorem run_sequence (indent : Nat) (ls : List Line) :
    (sequence indent).run ls =
      match active ls with
      | [] => .ok (.array [], [])
      | line :: rest =>
        if line.indent < indent then .ok (.array [], line :: rest)
        else if indent < line.indent then .error ⟨line.number, .unexpectedIndent⟩
        else if Line.isItemText line.text then
          match (item line indent).run rest with
          | .error e => .error e
          | .ok (v, mid) =>
            (readSequence indent mid).map fun r => (.array (v :: r.value), r.rest)
        else .ok (.array [], line :: rest) := by
  change (readSequence indent ls).map _ = _
  rw [readSequence]
  split
  · next h => simp [h, Except.map]
  · next line rest h =>
    simp only [h]
    by_cases h1 : line.indent < indent
    · simp [h1, Except.map]
    by_cases h2 : indent < line.indent
    · simp [h1, h2, Except.map]
    by_cases hi : Line.isItemText line.text
    · simp only [h1, h2, hi, if_true, if_false, dite_true, run]
      by_cases hc : isTrailingComment (itemContent line)
      · simp only [hc, if_true]
        cases hn : active rest with
        | nil => cases hr : readSequence indent rest <;> simp [hr, Except.map]
        | cons next others =>
          dsimp only
          by_cases hd : indent < next.indent
          · simp only [hd, if_true, runNode]
            cases readNode (some indent) rest with
            | error e => simp [Except.map]
            | ok v =>
              simp only [Except.map, Read.parts]
              cases readSequence indent v.rest <;> simp
          · simp only [hd, if_false]
            cases readSequence indent rest <;> simp [Except.map]
      · simp only [hc, runNode, Bool.false_eq_true, if_false]
        cases readNode (some indent) (itemLine line (itemContent line) :: rest) with
        | error e => simp [Except.map]
        | ok v =>
          simp only [Except.map, Read.parts]
          cases readSequence indent v.rest <;> simp
    · simp [h1, h2, hi, Except.map]

theorem run_entry (text : Text) (line : Line) (indent : Nat) (ls : List Line) :
    (entry text line indent).run ls =
      if isTrailingComment text then
        match active ls with
        | [] => .ok (.null, ls)
        | next :: _ =>
          if indent < next.indent then (node (some indent)).run ls
          else if next.indent = indent ∧ Line.isItemText next.text then (sequence indent).run ls
          else .ok (.null, ls)
      else (readInline text line (some indent) ls).map Read.parts := by
  change (readEntry text line indent ls).map Read.parts = _
  rw [readEntry]
  by_cases hc : isTrailingComment text
  · simp only [hc, if_true]
    cases hn : active ls with
    | nil => simp [Except.map, Read.parts]
    | cons next others =>
      dsimp only
      by_cases h1 : indent < next.indent
      · simp [h1, run, runNode]
      · simp only [h1, if_false]
        split_ifs with h2
        · simp only [run]
          cases readSequence indent ls <;> simp [Except.map, Read.parts]
        · simp [Except.map, Read.parts]
  · simp [hc]

/-- Bounds the work of a task on its lines. -/
def size : Task → List Line → Nat
  | .node _, ls => 4 * weight ls + 2
  | .mapping _ _, ls => 4 * weight ls + 1
  | .sequence _, ls => 4 * weight ls + 1
  | .item line _, ls => 4 * (line.text.length + weight ls) + 3
  | .entry _ _ _, ls => 4 * weight ls + 3

end Task

/-- The rules of reading: a task takes a value off the front of the lines and leaves the rest. -/
inductive Reads : Task → List Line → Value → List Line → Prop
  | nothing {parent : Option Nat} {ls : List Line} (h : active ls = []) :
      Reads (.node parent) ls .null []
  | block {parent : Option Nat} {ls rest left : List Line} {line : Line} {task : Task} {v : Value}
      (h : active ls = line :: rest) (ht : blockTask? line = some task)
      (hr : Reads task (line :: rest) v left) : Reads (.node parent) ls v left
  | inline {parent : Option Nat} {ls rest left : List Line} {line : Line} {v : Value}
      (h : active ls = line :: rest) (ht : blockTask? line = none)
      (hr : (readInline line.text line parent rest).map Read.parts = .ok (v, left)) :
      Reads (.node parent) ls v left
  | mappingEnd {indent : Nat} {acc : Fields} {ls : List Line}
      (h : ∀ line ∈ (active ls).head?, line.indent < indent) :
      Reads (.mapping indent acc) ls (.object acc) (active ls)
  | mappingEntry {indent : Nat} {acc : Fields} {ls rest mid left : List Line} {line : Line}
      {key after : Text} {v w : Value} (h : active ls = line :: rest) (hi : line.indent = indent)
      (hk : splitKey? line.text = some (key, after)) (hd : Fields.has key acc = false)
      (hv : Reads (.entry (Text.trim after) line indent) rest v mid)
      (hr : Reads (.mapping indent (Fields.insert key v acc)) mid w left) :
      Reads (.mapping indent acc) ls w left
  | sequenceEnd {indent : Nat} {ls : List Line}
      (h : ∀ line ∈ (active ls).head?,
        line.indent < indent ∨ (line.indent = indent ∧ Line.isItemText line.text = false)) :
      Reads (.sequence indent) ls (.array []) (active ls)
  | sequenceItem {indent : Nat} {ls rest mid left : List Line} {line : Line} {v : Value}
      {vs : List Value} (h : active ls = line :: rest) (hi : line.indent = indent)
      (ht : Line.isItemText line.text = true) (hv : Reads (.item line indent) rest v mid)
      (hr : Reads (.sequence indent) mid (.array vs) left) :
      Reads (.sequence indent) ls (.array (v :: vs)) left
  | itemNull {line : Line} {indent : Nat} {ls : List Line}
      (hc : isTrailingComment (itemContent line) = true)
      (h : ∀ next ∈ (active ls).head?, next.indent ≤ indent) :
      Reads (.item line indent) ls .null ls
  | itemBelow {line next : Line} {indent : Nat} {ls rest left : List Line} {v : Value}
      (hc : isTrailingComment (itemContent line) = true) (h : active ls = next :: rest)
      (hi : indent < next.indent) (hr : Reads (.node (some indent)) ls v left) :
      Reads (.item line indent) ls v left
  | itemInline {line : Line} {indent : Nat} {ls left : List Line} {v : Value}
      (hc : isTrailingComment (itemContent line) = false)
      (hr : Reads (.node (some indent)) (itemLine line (itemContent line) :: ls) v left) :
      Reads (.item line indent) ls v left
  | entryNull {text : Text} {line : Line} {indent : Nat} {ls : List Line}
      (hc : isTrailingComment text = true)
      (h : ∀ next ∈ (active ls).head?, next.indent ≤ indent ∧
        ¬ (next.indent = indent ∧ Line.isItemText next.text = true)) :
      Reads (.entry text line indent) ls .null ls
  | entryBelow {text : Text} {line next : Line} {indent : Nat} {ls rest left : List Line} {v : Value}
      (hc : isTrailingComment text = true) (h : active ls = next :: rest)
      (hi : indent < next.indent) (hr : Reads (.node (some indent)) ls v left) :
      Reads (.entry text line indent) ls v left
  | entryList {text : Text} {line next : Line} {indent : Nat} {ls rest left : List Line} {v : Value}
      (hc : isTrailingComment text = true) (h : active ls = next :: rest)
      (hi : next.indent = indent) (ht : Line.isItemText next.text = true)
      (hr : Reads (.sequence indent) ls v left) : Reads (.entry text line indent) ls v left
  | entryInline {text : Text} {line : Line} {indent : Nat} {ls left : List Line} {v : Value}
      (hc : isTrailingComment text = false)
      (hr : (readInline text line (some indent) ls).map Read.parts = .ok (v, left)) :
      Reads (.entry text line indent) ls v left

/-- A value that the rules allow is the value that is read. -/
theorem Reads.run {task : Task} {ls left : List Line} {v : Value} (h : Reads task ls v left) :
    task.run ls = .ok (v, left) := by
  induction h with
  | nothing h => rw [Task.run_node, h]
  | block h ht _ ih => rw [Task.run_node, h]; simp only [ht, ih]
  | inline h ht hr => rw [Task.run_node, h]; simp only [ht, hr]
  | @mappingEnd indent acc ls h =>
    rw [Task.run_mapping]
    cases ha : active ls with
    | nil => rfl
    | cons line rest =>
      have := h line (by simp [ha])
      simp [this]
  | @mappingEntry indent acc ls rest mid left line key after v w h hi hk hd _ _ ihv ihr =>
    rw [Task.run_mapping, h]
    simp [hi, hk, hd, ihv, ihr]
  | @sequenceEnd indent ls h =>
    rw [Task.run_sequence]
    cases ha : active ls with
    | nil => rfl
    | cons line rest =>
      rcases h line (by simp [ha]) with hl | ⟨hi, ht⟩
      · simp [hl]
      · simp [hi, ht]
  | @sequenceItem indent ls rest mid left line v vs h hi ht _ _ ihv ihr =>
    rw [Task.run_sequence, h]
    simp only [Task.run] at ihr
    cases hs : readSequence indent mid with
    | error e => simp [hs, Except.map] at ihr
    | ok r =>
      simp only [hs, Except.map, Except.ok.injEq, Prod.mk.injEq, Value.array.injEq] at ihr
      simp [hi, ht, ihv, hs, Except.map, ihr]
  | @itemNull line indent ls hc h =>
    simp only [Task.run, hc, if_true]
    cases ha : active ls with
    | nil => rfl
    | cons next rest =>
      have := h next (by simp [ha])
      simp [this.not_gt]
  | itemBelow hc h hi _ ih =>
    simp only [Task.run, hc, if_true, h, hi]
    exact ih
  | itemInline hc _ ih =>
    simp only [Task.run, hc]
    exact ih
  | @entryNull text line indent ls hc h =>
    rw [Task.run_entry]
    cases ha : active ls with
    | nil => simp [hc]
    | cons next rest =>
      obtain ⟨hle, hn⟩ := h next (by simp [ha])
      simp only [hc, if_true, hle.not_gt, if_false, hn]
  | entryBelow hc h hi _ ih =>
    rw [Task.run_entry, h]
    simp [hc, hi, ih]
  | entryList hc h hi ht _ ih =>
    rw [Task.run_entry, h]
    simp [hc, hi, ht, ih]
  | entryInline hc hr =>
    rw [Task.run_entry]
    simp [hc, hr]

namespace Task

theorem runNode_weight {parent : Option Nat} {ls left : List Line} {v : Value}
    (h : runNode parent ls = .ok (v, left)) : weight left ≤ weight ls := by
  unfold runNode at h
  cases hr : readNode parent ls with
  | error e => simp [hr, Except.map] at h
  | ok r =>
    simp only [hr, Except.map, Read.parts, Except.ok.injEq, Prod.mk.injEq] at h
    exact h.2 ▸ r.le

theorem run_entry_weight {text : Text} {line : Line} {indent : Nat} {ls left : List Line} {v : Value}
    (h : (entry text line indent).run ls = .ok (v, left)) : weight left ≤ weight ls := by
  simp only [run] at h
  cases hr : readEntry text line indent ls with
  | error e => simp [hr, Except.map] at h
  | ok r =>
    simp only [hr, Except.map, Read.parts, Except.ok.injEq, Prod.mk.injEq] at h
    exact h.2 ▸ r.le

theorem run_item_weight {line : Line} {indent : Nat} {ls left : List Line} {v : Value}
    (ht : Line.isItemText line.text = true) (h : (item line indent).run ls = .ok (v, left)) :
    weight left ≤ line.text.length + weight ls := by
  simp only [run] at h
  split_ifs at h with hc
  · split at h
    · cases h
      omega
    · split_ifs at h
      · have := runNode_weight h
        omega
      · cases h
        omega
  · have hw := runNode_weight h
    have hl := itemContent_length ht
    simp only [weight_cons, itemLine] at hw
    omega

end Task

theorem active_weight_cons {ls rest : List Line} {line : Line} (h : active ls = line :: rest) :
    line.text.length + 1 + weight rest ≤ weight ls := by
  have := active_weight ls
  rwa [h, weight_cons] at this

/-- The content of an item is less to read than the item. -/
theorem Task.size_itemLine {line : Line} {indent : Nat} {ls : List Line}
    (hc : ¬ isTrailingComment (itemContent line) = true) :
    (node (some indent)).size (itemLine line (itemContent line) :: ls) <
      (item line indent).size ls := by
  have hne : itemContent line ≠ [] := by
    intro he
    simp [he, isTrailingComment] at hc
  have hl : (itemContent line).length ≤ (line.text.drop 1).length := Flow.trimStart_length _
  have hpos := List.length_pos_iff.mpr hne
  rw [List.length_drop] at hl
  simp only [Task.size, weight_cons, itemLine]
  omega

/-- Tasks of size below `n` are read as the rules allow. -/
def SoundBelow (n : Nat) : Prop :=
  ∀ (task : Task) (ls left : List Line) (v : Value), task.size ls < n →
    task.run ls = .ok (v, left) → Reads task ls v left

namespace SoundBelow

variable {ls left : List Line} {v : Value}

theorem node {parent : Option Nat} (ih : SoundBelow ((Task.node parent).size ls))
    (h : (Task.node parent).run ls = .ok (v, left)) : Reads (.node parent) ls v left := by
  rw [Task.run_node] at h
  cases ha : active ls with
  | nil =>
    simp only [ha, Except.ok.injEq, Prod.mk.injEq] at h
    obtain ⟨rfl, rfl⟩ := h
    exact .nothing ha
  | cons line rest =>
    have := active_weight_cons ha
    cases ht : blockTask? line with
    | none =>
      simp only [ha, ht] at h
      exact .inline ha ht h
    | some task =>
      simp only [ha, ht] at h
      refine .block ha ht (ih _ _ _ _ ?_ h)
      unfold blockTask? at ht
      split_ifs at ht <;> cases ht <;> simp only [Task.size, weight_cons] <;> omega

theorem mapping {indent : Nat} {acc : Fields} (ih : SoundBelow ((Task.mapping indent acc).size ls))
    (h : (Task.mapping indent acc).run ls = .ok (v, left)) :
    Reads (.mapping indent acc) ls v left := by
  rw [Task.run_mapping] at h
  cases ha : active ls with
  | nil =>
    simp only [ha, Except.ok.injEq, Prod.mk.injEq] at h
    obtain ⟨rfl, rfl⟩ := h
    rw [← ha]
    exact .mappingEnd (by simp [ha])
  | cons line rest =>
    have := active_weight_cons ha
    simp only [ha] at h
    split_ifs at h with h1 h2
    · simp only [Except.ok.injEq, Prod.mk.injEq] at h
      obtain ⟨rfl, rfl⟩ := h
      rw [← ha]
      exact .mappingEnd (by simpa [ha] using h1)
    · cases hk : splitKey? line.text with
      | none => simp [hk] at h
      | some p =>
        obtain ⟨key, after⟩ := p
        simp only [hk] at h
        split_ifs at h with hd
        cases he : (Task.entry (Text.trim after) line indent).run rest with
        | error e => simp [he] at h
        | ok q =>
          obtain ⟨w, mid⟩ := q
          simp only [he] at h
          have := Task.run_entry_weight he
          refine .mappingEntry ha (by omega) hk (by simpa using hd) (ih _ _ _ _ ?_ he)
            (ih _ _ _ _ ?_ h)
          all_goals simp only [Task.size]; omega

theorem sequence {indent : Nat} (ih : SoundBelow ((Task.sequence indent).size ls))
    (h : (Task.sequence indent).run ls = .ok (v, left)) :
    Reads (.sequence indent) ls v left := by
  rw [Task.run_sequence] at h
  cases ha : active ls with
  | nil =>
    simp only [ha, Except.ok.injEq, Prod.mk.injEq] at h
    obtain ⟨rfl, rfl⟩ := h
    rw [← ha]
    exact .sequenceEnd (by simp [ha])
  | cons line rest =>
    have := active_weight_cons ha
    simp only [ha] at h
    split_ifs at h with h1 h2 hi
    · simp only [Except.ok.injEq, Prod.mk.injEq] at h
      obtain ⟨rfl, rfl⟩ := h
      rw [← ha]
      exact .sequenceEnd (by simp [ha, h1])
    · cases he : (Task.item line indent).run rest with
      | error e => simp [he] at h
      | ok q =>
        obtain ⟨w, mid⟩ := q
        have hm := Task.run_item_weight hi he
        cases hs : readSequence indent mid with
        | error e => simp [he, hs, Except.map] at h
        | ok r =>
          simp only [he, hs, Except.map, Except.ok.injEq, Prod.mk.injEq] at h
          obtain ⟨rfl, rfl⟩ := h
          have hrun : (Task.sequence indent).run mid = .ok (.array r.value, r.rest) := by
            simp [Task.run, hs, Except.map]
          refine .sequenceItem ha (by omega) hi (ih _ _ _ _ ?_ he) (ih _ _ _ _ ?_ hrun)
          all_goals simp only [Task.size]; omega
    · simp only [Except.ok.injEq, Prod.mk.injEq] at h
      obtain ⟨rfl, rfl⟩ := h
      rw [← ha]
      refine .sequenceEnd ?_
      simp only [ha, List.head?_cons, Option.mem_some_iff, forall_eq']
      exact .inr ⟨by omega, by simpa using hi⟩

theorem item {line : Line} {indent : Nat} (ih : SoundBelow ((Task.item line indent).size ls))
    (h : (Task.item line indent).run ls = .ok (v, left)) :
    Reads (.item line indent) ls v left := by
  simp only [Task.run] at h
  split_ifs at h with hc
  · cases ha : active ls with
    | nil =>
      simp only [ha, Except.ok.injEq, Prod.mk.injEq] at h
      obtain ⟨rfl, rfl⟩ := h
      exact .itemNull hc (by simp [ha])
    | cons next rest =>
      simp only [ha] at h
      split_ifs at h with hi
      · refine .itemBelow hc ha hi (ih _ _ _ _ ?_ h)
        simp only [Task.size]
        omega
      · simp only [Except.ok.injEq, Prod.mk.injEq] at h
        obtain ⟨rfl, rfl⟩ := h
        exact .itemNull hc (by simpa [ha] using hi)
  · exact .itemInline (by simpa using hc) (ih _ _ _ _ (Task.size_itemLine hc) h)

theorem entry {text : Text} {line : Line} {indent : Nat} (ih : SoundBelow ((Task.entry text line indent).size ls))
    (h : (Task.entry text line indent).run ls = .ok (v, left)) :
    Reads (.entry text line indent) ls v left := by
  rw [Task.run_entry] at h
  split_ifs at h with hc
  · cases ha : active ls with
    | nil =>
      simp only [ha, Except.ok.injEq, Prod.mk.injEq] at h
      obtain ⟨rfl, rfl⟩ := h
      exact .entryNull hc (by simp [ha])
    | cons next rest =>
      simp only [ha] at h
      split_ifs at h with h1 h2
      · refine .entryBelow hc ha h1 (ih _ _ _ _ ?_ h)
        simp only [Task.size]
        omega
      · refine .entryList hc ha h2.1 h2.2 (ih _ _ _ _ ?_ h)
        simp only [Task.size]
        omega
      · simp only [Except.ok.injEq, Prod.mk.injEq] at h
        obtain ⟨rfl, rfl⟩ := h
        refine .entryNull hc ?_
        simp only [ha, List.head?_cons, Option.mem_some_iff, forall_eq']
        exact ⟨by omega, h2⟩
  · exact .entryInline (by simpa using hc) h

end SoundBelow

/-- What is read follows the rules. -/
theorem reads_of_run {task : Task} {ls left : List Line} {v : Value}
    (h : task.run ls = .ok (v, left)) : Reads task ls v left := by
  have sound : ∀ n, SoundBelow n := by
    intro n
    -- every rule hands on tasks of smaller size
    induction n with
    | zero => exact fun task ls left v hn => absurd hn (Nat.not_lt_zero _)
    | succ n ih =>
      intro task ls left v hn h
      have below : SoundBelow (task.size ls) := fun task' ls' left' v' hn' =>
        ih task' ls' left' v' (hn'.trans_le (Nat.le_of_lt_succ hn))
      cases task with
      | node parent => exact below.node h
      | mapping indent acc => exact below.mapping h
      | sequence indent => exact below.sequence h
      | item line indent => exact below.item h
      | entry text line indent => exact below.entry h
  exact sound _ task ls left v (Nat.lt_succ_self _) h

/-- The readers succeed exactly as the rules allow. -/
theorem reads_iff {task : Task} {ls left : List Line} {v : Value} :
    Reads task ls v left ↔ task.run ls = .ok (v, left) :=
  ⟨Reads.run, reads_of_run⟩

theorem Reads.unique {task : Task} {ls left left' : List Line} {v v' : Value}
    (h : Reads task ls v left) (h' : Reads task ls v' left') : v = v' ∧ left = left' := by
  have := h.run.symm.trans h'.run
  simpa using this

end TemplateDocs.Outline
