import Mathlib
import TemplateDocs.Proofs.Metadata.Quoting

/-!
# Escaping once is enough

Quoting carries the open parameter list from line to line. On the quoted lines it goes through the same
lists again, and every item that it would quote is quoted already.
-/
namespace TemplateDocs.Metadata

open Text (trim)
open Lines (indent margin)

/-- An item of the open list whose text is to be quoted. -/
structure IsBare (list : Option Nat) (line : Text) : Prop where
  inside : isInside list line = true
  item : isItem (trim line) = true
  text : itemText line ≠ []
  unprotected : ∀ c ∈ (itemText line).head?, isProtected c = false

/-- The list that is open before the line at `i`. -/
def openBefore (ls : Lines) (i : Nat) : Option Nat := (ls.take i).foldl openAfter none

/-! ### One line -/

theorem quoteLine_of_bare {list : Option Nat} {line : Text} (h : IsBare list line) :
    quoteLine list line = margin line ++ quotedItem (itemText line) := by
  rw [quoteLine, if_pos (by simp [h.inside, h.item]), quoteItem_of_itemText h.unprotected h.text]

theorem quoteLine_of_not_bare {list : Option Nat} {line : Text} (h : ¬ IsBare list line) :
    quoteLine list line = line := by
  unfold quoteLine
  split_ifs with hitem
  · obtain ⟨hinside, hitem⟩ := Bool.and_eq_true_iff.mp hitem
    exact quoteItem_of_protected fun htext => h ⟨hinside, hitem, htext.2, htext.1⟩
  · rfl

theorem trim_quoted (line item : Text) : trim (margin line ++ quotedItem item) = quotedItem item := by
  rw [Text.trim_append_left (Lines.margin_space line), Text.trim_of_tight (quotedItem_tight item)]

theorem itemText_quoted (line item : Text) :
    itemText (margin line ++ quotedItem item) = doubleQuoted item := by
  have hdrop : (quotedItem item).drop 1 = [' '] ++ doubleQuoted item := rfl
  have hblank : ∀ c ∈ [' '], Text.isSpace c = true := by simp [Text.isSpace]
  rw [itemText, trim_quoted, hdrop, Text.trim_append_left hblank,
    Text.trim_of_tight (doubleQuoted_tight item)]

/-- No line is bare after it was quoted. -/
theorem not_isBare_quoteLine (list : Option Nat) (line : Text) :
    ¬ IsBare list (quoteLine list line) := by
  by_cases hbare : IsBare list line
  · rw [quoteLine_of_bare hbare]
    intro h
    have := h.unprotected '"' (by rw [itemText_quoted]; rfl)
    simp [isProtected] at this
  · rwa [quoteLine_of_not_bare hbare]

/-- A quoted item stays in its list. -/
theorem isInside_quoteLine {list : Option Nat} {line : Text} (h : IsBare list line) :
    isInside list (quoteLine list line) = true := by
  have hindent := (quoteLine_kept list line).indent
  have hitem : isItem (trim (quoteLine list line)) = true := by
    rw [quoteLine_of_bare h, trim_quoted]
    rfl
  have hblank : Lines.isBlank line = false := by
    rw [Bool.eq_false_iff, Ne, Lines.isBlank_iff_trim]
    intro hempty
    have := h.item
    simp [hempty, isItem, Text.startsWith, Text.after?] at this
  have hinside := h.inside
  cases list with
  | none => cases hinside
  | some key =>
    simp only [isInside, Option.any_some, hblank, Bool.false_or, Bool.or_eq_true, Bool.and_eq_true,
      decide_eq_true_eq] at hinside ⊢
    rw [← hindent]
    exact .imp .inr (fun hkey => ⟨hkey.1, hitem⟩) hinside

/-- The same list is open after a line and after the quoted line. -/
theorem openAfter_quoteLine (list : Option Nat) (line : Text) :
    openAfter list (quoteLine list line) = openAfter list line := by
  by_cases hbare : IsBare list line
  · rw [openAfter, if_pos (isInside_quoteLine hbare), openAfter, if_pos hbare.inside]
  · rw [quoteLine_of_not_bare hbare]

/-! ### All lines -/

theorem quoteItems_quoteItems (list : Option Nat) (ls : Lines) :
    quoteItems list (quoteItems list ls) = quoteItems list ls := by
  induction ls generalizing list with
  | nil => rfl
  | cons line rest ih =>
    rw [quoteItems_cons, quoteItems_cons, openAfter_quoteLine, ih,
      quoteLine_of_not_bare (not_isBare_quoteLine list line)]

theorem take_quoteItems (list : Option Nat) (ls : Lines) (i : Nat) :
    (quoteItems list ls).take i = quoteItems list (ls.take i) := by
  induction ls generalizing list i with
  | nil => simp [quoteItems]
  | cons line rest ih =>
    cases i with
    | zero => rfl
    | succ i => rw [quoteItems_cons, List.take_succ_cons, List.take_succ_cons, quoteItems_cons, ih]

theorem foldl_openAfter_quoteItems (list : Option Nat) (ls : Lines) :
    (quoteItems list ls).foldl openAfter list = ls.foldl openAfter list := by
  induction ls generalizing list with
  | nil => rfl
  | cons line rest ih =>
    rw [quoteItems_cons, List.foldl_cons, List.foldl_cons, openAfter_quoteLine, ih]

theorem openBefore_quoteItems (ls : Lines) (i : Nat) :
    openBefore (quoteItems none ls) i = openBefore ls i := by
  rw [openBefore, take_quoteItems, foldl_openAfter_quoteItems, openBefore]

theorem getElem?_quoteItems (list : Option Nat) (ls : Lines) (i : Nat) :
    (quoteItems list ls)[i]? = ls[i]?.map (quoteLine ((ls.take i).foldl openAfter list)) := by
  induction ls generalizing list i with
  | nil => simp [quoteItems]
  | cons line rest ih =>
    rw [quoteItems_cons]
    cases i with
    | zero => rfl
    | succ i => simpa using ih (openAfter list line) i

theorem length_quoteItems (list : Option Nat) (ls : Lines) : (quoteItems list ls).length = ls.length :=
  (quoteItems_kept list ls).length_eq.symm

/-- Escaping a second time changes nothing. The escaped text has the same lines but for the bare items
of open lists, which are put in quotes at their indentation; before each of its lines the same list is
open as before, and none of its lines is a bare item. -/
theorem escape_idempotent (t : Text) :
    let once := escapeParameterLists t
    let lines := Text.split '\n' t
    let lines' := Text.split '\n' once
    escapeParameterLists once = once ∧ lines'.length = lines.length ∧
    ∀ i line line', lines[i]? = some line → lines'[i]? = some line' →
      indent line' = indent line ∧ openBefore lines' i = openBefore lines i ∧
      (IsBare (openBefore lines i) line → line' = margin line ++ quotedItem (itemText line)) ∧
      (¬ IsBare (openBefore lines i) line → line' = line) ∧ ¬ IsBare (openBefore lines' i) line' := by
  intro once lines lines'
  have hlines : lines' = quoteItems none lines := split_escapeParameterLists t
  refine ⟨?_, ?_, ?_⟩
  · rw [escapeParameterLists, split_escapeParameterLists, quoteItems_quoteItems]
    rfl
  · rw [hlines, length_quoteItems]
  · intro i line line' hline hline'
    rw [hlines, getElem?_quoteItems, hline, Option.map_some, Option.some.injEq] at hline'
    rw [hlines, openBefore_quoteItems, ← hline']
    exact ⟨(quoteLine_kept _ line).indent.symm, rfl, quoteLine_of_bare, quoteLine_of_not_bare,
      not_isBare_quoteLine _ line⟩

end TemplateDocs.Metadata
