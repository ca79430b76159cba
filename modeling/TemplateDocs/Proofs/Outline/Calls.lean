import Mathlib
import TemplateDocs.Proofs.Outline.Locality
import TemplateDocs.Proofs.Recursion

/-!
# The calls of reading

Reading an outline goes on by calls: of nodes, of mappings and sequences with their loops, of items
and of the values of entries. Each call is given as a plan, and `shape` says once what calls a call
makes and what becomes of their results.
-/
namespace TemplateDocs.Outline

open Json (Value Fields)

abbrev Outcome := Except ReadError (Value × List Line)

/-- A call, with the lines from the next one to be read on. -/
inductive Call where
  | node (parent : Option Nat) (ls : List Line)
  | mapping (indent : Nat) (ls : List Line)
  /-- A turn of the loop of a mapping, with the fields read before. -/
  | entries (indent : Nat) (acc : Fields) (ls : List Line)
  | sequence (indent : Nat) (ls : List Line)
  /-- A turn of the loop of a sequence. -/
  | items (indent : Nat) (ls : List Line)
  /-- The item on `line`; `ls` are the lines after it. -/
  | item (line : Line) (indent : Nat) (ls : List Line)
  /-- The value of the entry on `line`; `ls` are the lines after it. -/
  | entry (text : Text) (line : Line) (indent : Nat) (ls : List Line)

/-- Where a call enters the reader. -/
inductive Point where
  | node | mapping | sequence | item | entry
  deriving DecidableEq, Repr

/-- One more item in front of a sequence. -/
def prepend {ε ρ : Type} (v : Value) : Except ε (Value × ρ) → Except ε (Value × ρ)
  | .ok (.array vs, left) => .ok (.array (v :: vs), left)
  | outcome => outcome

namespace Call

def task : Call → Task
  | .node parent _ => .node parent
  | .mapping indent _ => .mapping indent []
  | .entries indent acc _ => .mapping indent acc
  | .sequence indent _ | .items indent _ => .sequence indent
  | .item line indent _ => .item line indent
  | .entry text line indent _ => .entry text line indent

def input : Call → List Line
  | .node _ ls | .mapping _ ls | .entries _ _ ls | .sequence _ ls | .items _ ls => ls
  | .item _ _ ls | .entry _ _ _ ls => ls

def run (c : Call) : Outcome := c.task.run c.input

def plan : Call → Plan Call Outcome
  | .node parent ls =>
    match active ls with
    | [] => .done (.ok (.null, []))
    | line :: rest =>
      if Line.isItemText line.text then .call (.sequence line.indent (line :: rest)) .done
      else if (splitKey? line.text).isSome then .call (.mapping line.indent (line :: rest)) .done
      else .done ((readInline line.text line parent rest).map Read.parts)
  | .mapping indent ls => .call (.entries indent [] ls) .done
  | .entries indent acc ls =>
    match active ls with
    | [] => .done (.ok (.object acc, []))
    | line :: rest =>
      if line.indent < indent then .done (.ok (.object acc, line :: rest))
      else if indent < line.indent then .done (.error ⟨line.number, .unexpectedIndent⟩)
      else
        match splitKey? line.text with
        | none => .done (.error ⟨line.number, .expectedEntry⟩)
        | some (key, after) =>
          if Fields.has key acc then .done (.error ⟨line.number, .duplicateKey key⟩)
          else
            .call (.entry (Text.trim after) line indent rest) fun
              | .error e => .done (.error e)
              | .ok (v, mid) => .call (.entries indent (Fields.insert key v acc) mid) .done
  | .sequence indent ls => .call (.items indent ls) .done
  | .items indent ls =>
    match active ls with
    | [] => .done (.ok (.array [], []))
    | line :: rest =>
      if line.indent < indent then .done (.ok (.array [], line :: rest))
      else if indent < line.indent then .done (.error ⟨line.number, .unexpectedIndent⟩)
      else if Line.isItemText line.text then
        .call (.item line indent rest) fun
          | .error e => .done (.error e)
          | .ok (v, mid) => .call (.items indent mid) fun outcome => .done (prepend v outcome)
      else .done (.ok (.array [], line :: rest))
  | .item line indent ls =>
    if isTrailingComment (itemContent line) then
      match active ls with
      | [] => .done (.ok (.null, ls))
      | next :: rest =>
        if indent < next.indent then .call (.node (some indent) (next :: rest)) .done
        else .done (.ok (.null, ls))
    else .call (.node (some indent) (itemLine line (itemContent line) :: ls)) .done
  | .entry text line indent ls =>
    if isTrailingComment text then
      match active ls with
      | [] => .done (.ok (.null, ls))
      | next :: rest =>
        if indent < next.indent then .call (.node (some indent) (next :: rest)) .done
        else if next.indent = indent ∧ Line.isItemText next.text then
          .call (.sequence indent (next :: rest)) .done
        else .done (.ok (.null, ls))
    else .done ((readInline text line (some indent) ls).map Read.parts)

/-- The lines from the next one to be read on; an item still has its line before it. -/
def lines : Call → List Line
  | .item line _ ls => line :: ls
  | c => c.input

/-- Where the call enters. A turn of a loop enters where its item or its entry is read. -/
def point? : Call → Option Point
  | .node _ _ => some .node
  | .mapping _ _ => some .mapping
  | .sequence _ _ => some .sequence
  | .item _ _ _ => some .item
  | .entry _ _ _ _ => some .entry
  | .entries _ _ _ | .items _ _ => none

end Call

theorem run_node_active (parent : Option Nat) (ls : List Line) :
    (Task.node parent).run (active ls) = (Task.node parent).run ls := by
  rw [Task.run_node, Task.run_node, active_active]

theorem run_sequence_active (indent : Nat) (ls : List Line) :
    (Task.sequence indent).run (active ls) = (Task.sequence indent).run ls := by
  rw [Task.run_sequence, Task.run_sequence, active_active]

theorem map_snd_prepend {ε ρ : Type} (v : Value) (outcome : Except ε (Value × ρ)) :
    (prepend v outcome).map Prod.snd = outcome.map Prod.snd := by
  unfold prepend
  split <;> rfl

theorem prepend_run_sequence (v : Value) (indent : Nat) (ls : List Line) :
    prepend v ((Task.sequence indent).run ls) =
      (readSequence indent ls).map fun r => (.array (v :: r.value), r.rest) := by
  simp only [Task.run]
  cases readSequence indent ls <;> rfl

/-- Each call follows its plan. -/
theorem Call.run_eq (c : Call) : c.run = c.plan.eval Call.run := by
  cases c with
  | node parent ls =>
    rw [plan, run, task, input, Task.run_node]
    cases active ls with
    | nil => rfl
    | cons line rest =>
      dsimp only [blockTask?]
      split_ifs <;> rfl
  | mapping indent ls => rfl
  | entries indent acc ls =>
    rw [plan, run, task, input, Task.run_mapping]
    cases active ls with
    | nil => rfl
    | cons line rest =>
      dsimp only
      split_ifs
      · rfl
      · rfl
      · cases splitKey? line.text with
        | none => rfl
        | some entry =>
          dsimp only
          split_ifs
          · rfl
          · simp only [Plan.eval, run, task, input]
            cases (Task.entry (Text.trim entry.2) line indent).run rest <;> rfl
  | sequence indent ls => rfl
  | items indent ls =>
    rw [plan, run, task, input, Task.run_sequence]
    cases active ls with
    | nil => rfl
    | cons line rest =>
      dsimp only
      split_ifs
      · rfl
      · rfl
      · simp only [Plan.eval, run, task, input]
        cases (Task.item line indent).run rest with
        | error e => rfl
        | ok found => simp only [Plan.eval, run, task, input, prepend_run_sequence]
      · rfl
  | item line indent ls =>
    rw [plan, run, task, input, Task.run]
    split_ifs
    · cases ha : active ls with
      | nil => rfl
      | cons next rest =>
        dsimp only
        split_ifs
        · rw [Plan.eval, run, task, input, ← ha, run_node_active]
          rfl
        · rfl
    · rfl
  | entry text line indent ls =>
    rw [plan, run, task, input, Task.run_entry]
    split_ifs
    · cases ha : active ls with
      | nil => rfl
      | cons next rest =>
        dsimp only
        split_ifs
        · rw [Plan.eval, run, task, input, ← ha, run_node_active]
          rfl
        · rw [Plan.eval, run, task, input, ← ha, run_sequence_active]
          rfl
        · rfl
    · rfl

/-! ### What a call does -/

theorem finish_error {line : Line} {unfinished : Fault} {after : Text → Fault}
    {meaning : Text → Except Fault Value} {found : Option (Text × Text × List Line)} {e : ReadError}
    (h : finish line unfinished after meaning found = .error e) : e.line = line.number := by
  rcases found with _ | ⟨front, trailing, rest⟩
  · cases h
    rfl
  · simp only [finish] at h
    split_ifs at h
    · cases hm : meaning front with
      | ok v => simp [hm] at h
      | error fault =>
        simp only [hm, Except.error.injEq] at h
        rw [← h]
    · cases h
      rfl

/-- A value that starts on a line is found at fault at that line, even if it goes on below. -/
theorem readInline_error {text : Text} {line : Line} {parent : Option Nat} {ls : List Line}
    {e : ReadError} (h : (readInline text line parent ls).map Read.parts = .error e) :
    e.line = line.number := by
  rcases readInline_cases text line parent with hr | hr | hr | hr
  · rw [hr, readBlock_parts] at h
    cases hp : Header.parse? (plainPart text) with
    | none =>
      simp only [hp, Except.error.injEq] at h
      rw [← h]
    | some header =>
      simp only [hp] at h
      split_ifs at h
  · rw [hr, readQuoted_parts] at h
    exact finish_error h
  · rw [hr, readFlow_parts] at h
    exact finish_error h
  · rw [hr] at h
    cases h

namespace Call

/-- The line that a call's own fault is about. -/
def faultLines : Call → List Nat
  | .item line _ _ | .entry _ line _ _ => [line.number]
  | c => ((active c.lines).head?.map Line.number).toList

/-- A call that another one makes. -/
inductive Makes : Call → Call → Prop
  | sequence {parent : Option Nat} {ls rest : List Line} {line : Line} (h : active ls = line :: rest)
      (hitem : Line.isItemText line.text = true) :
      Makes (.node parent ls) (.sequence line.indent (line :: rest))
  | mapping {parent : Option Nat} {ls rest : List Line} {line : Line} (h : active ls = line :: rest) :
      Makes (.node parent ls) (.mapping line.indent (line :: rest))
  | firstEntry {indent : Nat} {ls : List Line} : Makes (.mapping indent ls) (.entries indent [] ls)
  | entry {indent : Nat} {acc : Fields} {ls rest : List Line} {line : Line} {text : Text}
      (h : active ls = line :: rest) : Makes (.entries indent acc ls) (.entry text line indent rest)
  | nextEntry {indent : Nat} {acc acc' : Fields} {ls rest mid : List Line} {line : Line} {text : Text}
      {v : Value} (h : active ls = line :: rest)
      (hv : (Call.entry text line indent rest).run = .ok (v, mid)) :
      Makes (.entries indent acc ls) (.entries indent acc' mid)
  | firstItem {indent : Nat} {ls : List Line} : Makes (.sequence indent ls) (.items indent ls)
  | item {indent : Nat} {ls rest : List Line} {line : Line} (h : active ls = line :: rest) :
      Makes (.items indent ls) (.item line indent rest)
  | nextItem {indent : Nat} {ls rest mid : List Line} {line : Line} {v : Value}
      (h : active ls = line :: rest) (hv : (Call.item line indent rest).run = .ok (v, mid)) :
      Makes (.items indent ls) (.items indent mid)
  | itemBelow {line next : Line} {indent : Nat} {ls rest : List Line} (h : active ls = next :: rest) :
      Makes (.item line indent ls) (.node (some indent) (next :: rest))
  | itemInline {line : Line} {indent : Nat} {ls : List Line}
      (hc : isTrailingComment (itemContent line) = false) :
      Makes (.item line indent ls) (.node (some indent) (itemLine line (itemContent line) :: ls))
  | entryBelow {text : Text} {line next : Line} {indent : Nat} {ls rest : List Line}
      (h : active ls = next :: rest) :
      Makes (.entry text line indent ls) (.node (some indent) (next :: rest))
  | entryList {text : Text} {line next : Line} {indent : Nat} {ls rest : List Line}
      (h : active ls = next :: rest) (hindent : next.indent = indent)
      (hitem : Line.isItemText next.text = true) :
      Makes (.entry text line indent ls) (.sequence indent (next :: rest))

/-- The calls that a call makes, and how it ends. -/
inductive Shape (c : Call) : List Call → Prop
  | alone (hfault : ∀ e, c.run = .error e → e.line ∈ c.faultLines) : Shape c []
  | last {d : Call} (hd : Makes c d) (hrun : c.run = d.run) : Shape c [d]
  | failed {d : Call} {e : ReadError} (hd : Makes c d) (hfail : d.run = .error e)
      (hrun : c.run = .error e) : Shape c [d]
  | turn {d next : Call} {v : Value} {mid : List Line} (hd : Makes c d) (hrun : d.run = .ok (v, mid))
      (hnext : Makes c next) (hturn : next.point? = none) (hlines : next.lines = mid)
      (hend : c.run.map Prod.snd = next.run.map Prod.snd) : Shape c [d, next]

theorem Shape.of_ok {c : Call} {result : Value × List Line} (h : c.run = .ok result) : Shape c [] :=
  .alone fun e he => by simp [h] at he

theorem Shape.of_error {c : Call} {line : Line} {fault : Fault}
    (h : c.run = .error ⟨line.number, fault⟩) (hline : c.faultLines = [line.number]) : Shape c [] := by
  refine .alone fun e he => ?_
  rw [h, Except.error.injEq] at he
  rw [hline, ← he, List.mem_singleton]

theorem shape_node (parent : Option Nat) (ls : List Line) :
    Shape (.node parent ls) ((node parent ls).plan.calls Call.run) := by
  have hrun := (node parent ls).run_eq
  rw [plan] at hrun ⊢
  cases ha : active ls with
  | nil =>
    simp only [ha] at hrun
    exact .of_ok hrun
  | cons line rest =>
    simp only [ha] at hrun ⊢
    split_ifs at hrun ⊢ with hitem hkey
    · exact .last (.sequence ha hitem) hrun
    · exact .last (.mapping ha) hrun
    · refine .alone fun e he => ?_
      rw [hrun] at he
      simp [faultLines, lines, input, ha, readInline_error he]

theorem shape_entries (indent : Nat) (acc : Fields) (ls : List Line) :
    Shape (.entries indent acc ls) ((entries indent acc ls).plan.calls Call.run) := by
  have hrun := (entries indent acc ls).run_eq
  rw [plan] at hrun ⊢
  cases ha : active ls with
  | nil =>
    simp only [ha] at hrun
    exact .of_ok hrun
  | cons line rest =>
    have hline : (entries indent acc ls).faultLines = [line.number] := by simp [faultLines, lines, input, ha]
    simp only [ha] at hrun ⊢
    split_ifs at hrun ⊢
    · exact .of_ok hrun
    · exact .of_error hrun hline
    · cases hkey : splitKey? line.text with
      | none =>
        simp only [hkey] at hrun
        exact .of_error hrun hline
      | some found =>
        simp only [hkey] at hrun ⊢
        split_ifs at hrun ⊢
        · exact .of_error hrun hline
        · simp only [Plan.eval, Plan.calls] at hrun ⊢
          cases hentry : (entry (Text.trim found.2) line indent rest).run with
          | error e =>
            simp only [hentry, Plan.eval] at hrun
            exact .failed (.entry ha) hentry hrun
          | ok result =>
            simp only [hentry, Plan.eval] at hrun
            exact .turn (.entry ha) hentry (.nextEntry ha hentry) rfl rfl (by rw [hrun])

theorem shape_items (indent : Nat) (ls : List Line) :
    Shape (.items indent ls) ((items indent ls).plan.calls Call.run) := by
  have hrun := (items indent ls).run_eq
  rw [plan] at hrun ⊢
  cases ha : active ls with
  | nil =>
    simp only [ha] at hrun
    exact .of_ok hrun
  | cons line rest =>
    have hline : (items indent ls).faultLines = [line.number] := by simp [faultLines, lines, input, ha]
    simp only [ha] at hrun ⊢
    split_ifs at hrun ⊢
    · exact .of_ok hrun
    · exact .of_error hrun hline
    · simp only [Plan.eval, Plan.calls] at hrun ⊢
      cases hitem : (item line indent rest).run with
      | error e =>
        simp only [hitem, Plan.eval] at hrun
        exact .failed (.item ha) hitem hrun
      | ok result =>
        simp only [hitem, Plan.eval] at hrun
        exact .turn (.item ha) hitem (.nextItem ha hitem) rfl rfl (by rw [hrun, map_snd_prepend])
    · exact .of_ok hrun

theorem shape_item (line : Line) (indent : Nat) (ls : List Line) :
    Shape (.item line indent ls) ((item line indent ls).plan.calls Call.run) := by
  have hrun := (item line indent ls).run_eq
  rw [plan] at hrun ⊢
  split_ifs at hrun ⊢ with hc
  · cases ha : active ls with
    | nil =>
      simp only [ha] at hrun
      exact .of_ok hrun
    | cons next rest =>
      simp only [ha] at hrun ⊢
      split_ifs at hrun ⊢
      · exact .last (.itemBelow ha) hrun
      · exact .of_ok hrun
  · exact .last (.itemInline (by simpa using hc)) hrun

theorem shape_entry (text : Text) (line : Line) (indent : Nat) (ls : List Line) :
    Shape (.entry text line indent ls) ((entry text line indent ls).plan.calls Call.run) := by
  have hrun := (entry text line indent ls).run_eq
  rw [plan] at hrun ⊢
  split_ifs at hrun ⊢ with hc
  · cases ha : active ls with
    | nil =>
      simp only [ha] at hrun
      exact .of_ok hrun
    | cons next rest =>
      simp only [ha] at hrun ⊢
      split_ifs at hrun ⊢ with hdeeper hlist
      · exact .last (.entryBelow ha) hrun
      · exact .last (.entryList ha hlist.1 hlist.2) hrun
      · exact .of_ok hrun
  · refine .alone fun e he => ?_
    rw [hrun] at he
    simp [faultLines, readInline_error he]

theorem shape (c : Call) : Shape c (c.plan.calls Call.run) := by
  cases c with
  | node parent ls => exact shape_node parent ls
  | mapping indent ls => exact .last .firstEntry (mapping indent ls).run_eq
  | entries indent acc ls => exact shape_entries indent acc ls
  | sequence indent ls => exact .last .firstItem (sequence indent ls).run_eq
  | items indent ls => exact shape_items indent ls
  | item line indent ls => exact shape_item line indent ls
  | entry text line indent ls => exact shape_entry text line indent ls

end Call

end TemplateDocs.Outline
