import Mathlib
import TemplateDocs.Proofs.Extraction
import TemplateDocs.Proofs.Metadata.Decoding
import TemplateDocs.Proofs.Outline.Renumbering

/-!
# Blocks further down

A block depends on its marker line and on the lines below it. Lines put in front of a template move
its blocks and the faults in them down by as many lines, and change nothing else.
-/
namespace TemplateDocs

namespace Block

/-- The block `k` lines further down. -/
def moved (k : Nat) (b : Block) : Block := { b with line := b.line + k }

@[simp] theorem moved_line (k : Nat) (b : Block) : (b.moved k).line = b.line + k := rfl

@[simp] theorem moved_notes (k : Nat) (b : Block) : (b.moved k).notes = b.notes := rfl

theorem ofMarker?_add (marker head : Text) (n k : Nat) (rest : Lines) :
    ofMarker? marker (n + k) head rest = (ofMarker? marker n head rest).map (moved k) := by
  unfold ofMarker?
  dsimp only
  split_ifs <;> rfl

theorem extractFrom_add (marker : Text) (n k : Nat) (ls : Lines) :
    extractFrom marker (n + k) ls = (extractFrom marker n ls).map (moved k) := by
  induction ls generalizing n with
  | nil => rfl
  | cons head rest ih =>
    rw [extractFrom, extractFrom, Nat.add_right_comm, ih, ofMarker?_add]
    split_ifs
    · rw [List.map_append]
      cases ofMarker? marker n head rest <;> rfl
    · rfl

/-- The blocks from a line on are those found when the search starts there. -/
theorem filter_extractFrom_append (marker : Text) (n : Nat) (before ls : Lines) :
    (extractFrom marker n (before ++ ls)).filter (fun b => n + before.length ≤ b.line) =
      extractFrom marker (n + before.length) ls := by
  induction before generalizing n with
  | nil =>
    refine List.filter_eq_self.mpr fun b hb => ?_
    exact decide_eq_true (line_le_of_mem_extractFrom hb)
  | cons head before ih =>
    have hlength : n + (head :: before).length = n + 1 + before.length := by
      rw [List.length_cons]
      omega
    have hfirst : ∀ b ∈ (ofMarker? marker n head (before ++ ls)).toList,
        ¬ n + 1 + before.length ≤ b.line := by
      intro b hb
      rw [line_of_ofMarker? (Option.mem_toList.mp hb)]
      omega
    rw [List.cons_append, extractFrom, hlength, ← ih]
    split_ifs
    · rw [List.filter_append, List.filter_eq_nil_iff.mpr (by simpa using hfirst), List.nil_append]
    · rfl

end Block

namespace Metadata

/-- The error `k` lines further down. -/
def Error.moved (k : Nat) (e : Error) : Error := { e with line := e.line + k }

theorem ofBlock_moved (k : Nat) (b : Block) :
    ofBlock (b.moved k) = (ofBlock b).mapError (Error.moved k) := by
  unfold ofBlock
  rw [Block.moved_notes, Block.moved_line, Nat.add_right_comm, Outline.read_add]
  cases Outline.read (escapeParameterLists (Lines.toText b.notes)) (b.line + 1) with
  | error e => rfl
  | ok v =>
    dsimp only [Except.mapError]
    cases ofValue v <;> rfl

end Metadata

/-- The blocks and their metadata do not depend on the lines before them. -/
theorem Block.extract_append_moved (keyword : Text) (before ls : Lines) :
    (extract keyword (before ++ ls)).filter (fun b => before.length < b.line) =
        (extract keyword ls).map (moved before.length) ∧
      ∀ b : Block, Metadata.ofBlock (b.moved before.length) =
        (Metadata.ofBlock b).mapError (Metadata.Error.moved before.length) := by
  refine ⟨?_, Metadata.ofBlock_moved before.length⟩
  have h := filter_extractFrom_append (markerText keyword) 1 before ls
  rw [extractFrom_add] at h
  simpa only [extract, Nat.one_add_le_iff] using h

end TemplateDocs
