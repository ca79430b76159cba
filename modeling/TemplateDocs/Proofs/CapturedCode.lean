import Mathlib
import TemplateDocs.Proofs.Extraction

/-!
# How captured code ends

Blank lines at the end of captured code are dropped first, and the characters that leave no trace are
taken out of the lines that remain. One of these characters is a blank and the other, the zero-width
space, is not. So a line can be kept for a zero-width space and be handed on as a blank line.
-/
namespace TemplateDocs.Block

open Lines (indent isBlank)
open Text (isSpace)

/-- Nothing but blanks and zero-width spaces. -/
def showsNothing (line : Text) : Bool := line.all fun c => isSpace c || decide (c = '\u200b')

/-- Code that ends in a line with content, unless there is none, and that has such a line if it is
all that the marker has. -/
structure CleanCode (b : Block) : Prop where
  ending : b.code = [] ∨ ∃ l ∈ b.code.getLast?, isBlank l = false
  bare : b.comment.length = 1 → ∃ l ∈ b.code, isBlank l = false

instance : DecidablePred CleanCode := fun b =>
  decidable_of_iff ((b.code = [] ∨ ∃ l ∈ b.code.getLast?, isBlank l = false) ∧
      (b.comment.length = 1 → ∃ l ∈ b.code, isBlank l = false))
    ⟨fun h => ⟨h.1, h.2⟩, fun h => ⟨h.ending, h.bare⟩⟩

theorem showsNothing_of_isBlank {line : Text} (h : isBlank line = true) : showsNothing line = true := by
  refine List.all_eq_true.mpr fun c hc => ?_
  simp [List.all_eq_true.mp h c hc]

namespace Extent

/-- A line is handed on as a blank one exactly if there was nothing to see on it. -/
theorem isBlank_deliver (column : Nat) (line : Text) :
    isBlank (deliver column line) = showsNothing line := by
  have hmargin : ∀ c ∈ line.take (min column (indent line)), isSpace c = true := by
    intro c hc
    have hprefix : line.take (min column (indent line)) <+: line.take (indent line) :=
      List.take_prefix_take_left (Nat.min_le_right _ _)
    apply Lines.margin_space line
    rw [← Lines.take_indent]
    exact hprefix.subset hc
  have hfront : (line.take (min column (indent line))).all
      (fun c => isSpace c || decide (c = '\u200b')) = true :=
    showsNothing_of_isBlank (List.all_eq_true.mpr hmargin)
  have hchar : ∀ c : Char, (!decide (c ≠ '\u2028' ∧ c ≠ '\u200b') || isSpace c) =
      (isSpace c || decide (c = '\u200b')) := by
    intro c
    by_cases hseparator : c = '\u2028'
    · subst hseparator
      rfl
    · by_cases hzero : c = '\u200b' <;> simp [hseparator, hzero]
  rw [deliver, isBlank, List.all_filter, showsNothing,
    ← List.take_append_drop (min column (indent line)) line, List.all_append, hfront, Bool.true_and]
  simp only [hchar, List.take_append_drop]

variable {marker : Text} {ls : Lines} {m : Nat}

theorem last_code (x : Extent marker ls m) : ∀ l ∈ x.code.getLast?, isBlank l = false := by
  unfold code
  exact Lines.last_dropBlankEnd _

/-- The last line of the code is the last line captured, as it is handed on. -/
theorem cleanCode_iff (x : Extent marker ls m) (hx : ¬ x.Discarded) :
    x.block.CleanCode ↔ ∀ l ∈ x.code.getLast?, showsNothing l = false := by
  have hlast : x.block.code.getLast? = x.code.getLast?.map (deliver (indent x.head)) :=
    List.getLast?_map
  constructor
  · rintro ⟨hend, -⟩ l hl
    rw [Option.mem_def.mp hl] at hlast
    rcases hend with hnil | ⟨l', hl', hcontent⟩
    · rw [hnil] at hlast
      cases hlast
    · rw [hlast] at hl'
      cases hl'
      rwa [isBlank_deliver] at hcontent
  · intro h
    have hend : ∀ l, x.code.getLast? = some l →
        x.block.code.getLast? = some (deliver (indent x.head) l) ∧
          isBlank (deliver (indent x.head) l) = false := by
      intro l hl
      rw [isBlank_deliver]
      exact ⟨by rw [hlast, hl, Option.map_some], h l hl⟩
    cases hcode : x.code.getLast? with
    | none =>
      have hnil : x.code = [] := List.getLast?_eq_none_iff.mp hcode
      refine ⟨.inl ?_, fun hbare => absurd ⟨hbare, hnil⟩ hx⟩
      rw [block, hnil]
      rfl
    | some l =>
      obtain ⟨hget, hcontent⟩ := hend l hcode
      exact ⟨.inr ⟨_, hget, hcontent⟩, fun _ => ⟨_, List.mem_of_getLast? hget, hcontent⟩⟩

theorem exists_content_iff (x : Extent marker ls m) :
    (∃ l ∈ x.block.code, isBlank l = false) ↔ ∃ l ∈ x.code, showsNothing l = false := by
  simp only [block, List.mem_map, exists_exists_and_eq_and, isBlank_deliver]

end Extent

/-- Every block is clean exactly if there is something to see on the last line captured for it, and
its code has a line with content exactly if there is something to see on some line captured. All
blocks are clean where each line that shows nothing is blank, which only a line with a zero-width
space can fail to be. -/
theorem extract_clean_iff (keyword : Text) (ls : Lines) :
    (∀ b ∈ extract keyword ls, ∃ m, ∃ x : Extent (markerText keyword) ls m, b = x.block ∧
      (b.CleanCode ↔ ∀ l ∈ x.code.getLast?, showsNothing l = false) ∧
      ((∃ l ∈ b.code, isBlank l = false) ↔ ∃ l ∈ x.code, showsNothing l = false)) ∧
    ((∀ l ∈ ls, showsNothing l = true → isBlank l = true) → ∀ b ∈ extract keyword ls, b.CleanCode) ∧
    ∀ l, showsNothing l = true → isBlank l = false → '\u200b' ∈ l := by
  refine ⟨?_, ?_, ?_⟩
  · intro b hb
    obtain ⟨m, x, hx, rfl⟩ := mem_extract_iff.mp hb
    exact ⟨m, x, rfl, x.cleanCode_iff hx, x.exists_content_iff⟩
  · intro hvisible b hb
    obtain ⟨m, x, hx, rfl⟩ := mem_extract_iff.mp hb
    rw [x.cleanCode_iff hx]
    intro l hl
    have hcontent := x.last_code l hl
    have hmem := x.code_subset (List.mem_of_getLast? hl)
    by_contra h
    rw [hvisible l hmem (by simpa using h)] at hcontent
    cases hcontent
  · intro l hnothing hcontent
    by_contra h
    rw [← Bool.not_eq_true] at hcontent
    apply hcontent
    refine List.all_eq_true.mpr fun c hc => ?_
    have hne : c ≠ '\u200b' := fun heq => h (heq ▸ hc)
    simpa [hne] using List.all_eq_true.mp hnothing c hc

/-- A zero-width space is all that stands on the line after the bare marker, and on the last line of
the other code. -/
theorem extract_unclean_zeroWidth :
    (extract defaultKeyword (Lines.ofText "//- @pugdoc\n\u200b".toList) =
        [⟨1, 0, ["//- @pugdoc".toList], [[]], .single⟩] ∧
      ¬ CleanCode ⟨1, 0, ["//- @pugdoc".toList], [[]], .single⟩) ∧
    extract defaultKeyword (Lines.ofText "//- @pugdoc\n  name: a\np x\n  \u200b\n".toList) =
        [⟨1, 0, ["//- @pugdoc".toList, "  name: a".toList], ["p x".toList, "  ".toList], .single⟩] ∧
      ¬ CleanCode ⟨1, 0, ["//- @pugdoc".toList, "  name: a".toList], ["p x".toList, "  ".toList],
        .single⟩ := by
  decide +kernel

end TemplateDocs.Block
