import Mathlib
import TemplateDocs.Metadata.Decode
import TemplateDocs.Proofs.Outline.Locality
import TemplateDocs.Proofs.Outline.Quoted
import TemplateDocs.Proofs.Text

/-!
# What quoting keeps of a line

Quoting goes through the lines of an annotation with one piece of state, the indentation of the
parameter list that is open. It rewrites item lines only, and a rewritten item is an item at the same
indentation.
-/
namespace TemplateDocs.Metadata

open Outline (Line Alike)
open Text (trim)
open Lines (indent margin)

/-! ### One line at a time -/

/-- Whether a line belongs to the open list. -/
def isInside (list : Option Nat) (line : Text) : Bool :=
  list.any fun key =>
    Lines.isBlank line || key < indent line || (indent line = key && isItem (trim line))

def quoteLine (list : Option Nat) (line : Text) : Text :=
  if isInside list line && isItem (trim line) then quoteItem line else line

/-- The list that is open after a line. -/
def openAfter (list : Option Nat) (line : Text) : Option Nat :=
  if isInside list line then list
  else if opensParameters (trim line) then some (indent line) else none

theorem quoteItems_cons (list : Option Nat) (line : Text) (rest : Lines) :
    quoteItems list (line :: rest) =
      quoteLine list line :: quoteItems (openAfter list line) rest := by
  rw [quoteItems]
  change (if (isInside list line && isItem (trim line)) = true then _
    else if isInside list line = true then _ else _) = _
  unfold quoteLine openAfter
  cases isInside list line <;> cases isItem (trim line) <;> simp

theorem isItemText_of_isItem {t : Text} (h : isItem t = true) : Line.isItemText t = true := by
  simp only [isItem, Bool.or_eq_true, decide_eq_true_eq] at h
  rcases h with rfl | h
  · rfl
  · rcases t with _ | ⟨a, _ | ⟨b, t⟩⟩
    · simp [Text.startsWith, Text.after?] at h
    · simp [Text.startsWith, Text.after?] at h
    · simp only [Text.startsWith, Text.after?] at h
      split_ifs at h with ha hb
      · subst ha hb
        rfl
      · simp at h
      · simp at h

/-- The text of an item line. -/
def itemText (line : Text) : Text := trim ((trim line).drop 1)

/-- An item with its text in double quotes. -/
def quotedItem (item : Text) : Text := '-' :: ' ' :: '"' :: (escapeQuotes item ++ ['"'])

theorem quoteItem_of_itemText {line : Text}
    (h : ∀ c ∈ (itemText line).head?, isProtected c = false) (hne : itemText line ≠ []) :
    quoteItem line = margin line ++ quotedItem (itemText line) := by
  unfold quoteItem
  rw [show trim ((trim line).drop 1) = itemText line from rfl]
  cases hitem : itemText line with
  | nil => exact absurd hitem hne
  | cons c item =>
    have hc := h c (by simp [hitem])
    simp [hc, Lines.take_indent, quotedItem]

theorem quoteItem_of_protected {line : Text}
    (h : ¬ ((∀ c ∈ (itemText line).head?, isProtected c = false) ∧ itemText line ≠ [])) :
    quoteItem line = line := by
  unfold quoteItem
  rw [show trim ((trim line).drop 1) = itemText line from rfl]
  cases hitem : itemText line with
  | nil => rfl
  | cons c item =>
    have hc : isProtected c = true := by simpa [hitem] using h
    simp [hc]

/-- An item line stays as it is, or its text is put in quotes at the same indentation. -/
theorem quoteItem_cases (line : Text) :
    quoteItem line = line ∨ quoteItem line = margin line ++ quotedItem (itemText line) := by
  by_cases h : (∀ c ∈ (itemText line).head?, isProtected c = false) ∧ itemText line ≠ []
  · exact .inr (quoteItem_of_itemText h.1 h.2)
  · exact .inl (quoteItem_of_protected h)

theorem quotedItem_tight (item : Text) : Text.Tight (quotedItem item) := by
  refine ⟨?_, ?_⟩
  · intro c hc
    simp only [quotedItem, List.head?_cons, Option.mem_some_iff] at hc
    subst hc
    rfl
  · intro c hc
    rw [quotedItem, ← List.cons_append, ← List.cons_append, ← List.cons_append,
      List.getLast?_concat, Option.mem_some_iff] at hc
    subst hc
    rfl

theorem escapeQuotes_cons (c : Char) (t : Text) :
    escapeQuotes (c :: t) =
      (if c = '\\' ∨ c = '"' then ['\\', c] else [c]) ++ escapeQuotes t := rfl

theorem count_escapeQuotes (t : Text) : (escapeQuotes t).count '"' = t.count '"' := by
  induction t with
  | nil => rfl
  | cons c t ih =>
    rw [escapeQuotes_cons, List.count_append, List.count_cons, ih, Nat.add_comm]
    split_ifs with hc hq hq <;> simp_all

/-- Quoting an item adds two quotes to its line. -/
theorem count_quotedItem {line : Text} (h : Line.isItemText (trim line) = true) :
    (margin line ++ quotedItem (itemText line)).count '"' = line.count '"' + 2 := by
  have hspace : Text.isSpace '"' = false := by decide
  obtain ⟨rest, hrest⟩ := Outline.Line.exists_of_isItemText h
  have hitem : (itemText line).count '"' = line.count '"' := by
    rw [itemText, Text.count_trim hspace, ← Text.count_trim hspace line, hrest]
    rfl
  rw [List.count_append, Text.count_blanks hspace (Lines.margin_space line)]
  simp [quotedItem, count_escapeQuotes, hitem]

/-- The lines have the same indentation, and they differ only if both are items. -/
structure Kept (line line' : Text) : Prop where
  indent : indent line = indent line'
  item : line = line' ∨ Line.isItemText (trim line) = true ∧ Line.isItemText (trim line') = true

theorem quoteLine_kept (list : Option Nat) (line : Text) : Kept line (quoteLine list line) := by
  unfold quoteLine
  split_ifs with h
  · have hitem := isItemText_of_isItem (Bool.and_eq_true_iff.mp h).2
    rcases quoteItem_cases line with he | he
    · rw [he]
      exact ⟨rfl, .inl rfl⟩
    · rw [he]
      have ht := quotedItem_tight (itemText line)
      refine ⟨?_, .inr ⟨hitem, ?_⟩⟩
      · rw [Lines.indent_append (Lines.margin_space line) ht.head, Lines.margin_length]
      · rw [Text.trim_append_left (Lines.margin_space line), Text.trim_of_tight ht]
        rfl
  · exact ⟨rfl, .inl rfl⟩

theorem quoteItems_kept (list : Option Nat) (ls : Lines) :
    List.Forall₂ Kept ls (quoteItems list ls) := by
  induction ls generalizing list with
  | nil => exact .nil
  | cons line rest ih =>
    rw [quoteItems_cons]
    exact .cons (quoteLine_kept list line) (ih _)

/-! ### Whole texts -/

theorem not_mem_escapeQuotes {c : Char} {t : Text} (hc : c ≠ '\\') (h : c ∉ t) :
    c ∉ escapeQuotes t := by
  unfold escapeQuotes
  intro hmem
  obtain ⟨d, hd, hmem⟩ := List.mem_flatMap.mp hmem
  split_ifs at hmem
  · simp only [List.mem_cons, List.not_mem_nil, or_false] at hmem
    rcases hmem with rfl | rfl
    · exact hc rfl
    · exact h hd
  · simp only [List.mem_singleton] at hmem
    exact h (hmem ▸ hd)

theorem not_mem_quoteLine (list : Option Nat) {line : Text} (h : '\n' ∉ line) :
    '\n' ∉ quoteLine list line := by
  unfold quoteLine
  split_ifs
  · rcases quoteItem_cases line with he | he
    · rwa [he]
    · have hm : '\n' ∉ margin line := fun hc => h ((List.takeWhile_prefix _).subset hc)
      have hi : '\n' ∉ itemText line := fun hc =>
        h (Text.mem_trim (List.mem_of_mem_drop (Text.mem_trim hc)))
      have hq := not_mem_escapeQuotes (by decide) hi
      rw [he]
      simp [quotedItem, hm, hq]
  · exact h

theorem not_mem_quoteItems (list : Option Nat) {ls : Lines} (h : ∀ l ∈ ls, '\n' ∉ l) :
    ∀ l ∈ quoteItems list ls, '\n' ∉ l := by
  induction ls generalizing list with
  | nil => simp [quoteItems]
  | cons line rest ih =>
    rw [quoteItems_cons]
    intro l hl
    rcases List.mem_cons.mp hl with rfl | hl
    · exact not_mem_quoteLine list (h line (by simp))
    · exact ih _ (fun l hl => h l (by simp [hl])) l hl

theorem quoteItems_ne_nil {ls : Lines} (list : Option Nat) (h : ls ≠ []) : quoteItems list ls ≠ [] := by
  cases ls with
  | nil => exact absurd rfl h
  | cons line rest => simp [quoteItems_cons]

/-- The lines of the escaped text are the quoted lines of the text. -/
theorem split_escapeParameterLists (t : Text) :
    Text.split '\n' (escapeParameterLists t) = quoteItems none (Text.split '\n' t) := by
  have hne : Text.split '\n' t ≠ [] := by
    rw [Text.split_eq_splitOn]
    exact List.splitOn_ne_nil '\n' t
  exact Lines.split_toText (quoteItems_ne_nil none hne)
    (not_mem_quoteItems none fun l hl => Text.not_mem_of_mem_split hl)

theorem splitKey?_parameterKey :
    ∀ key ∈ parameterKeys, Outline.splitKey? (key ++ [':']) = some (key, []) := by decide

/-! ### Quotes around any text can be taken off again -/

theorem escapeQuotes_of_plain {t : Text} (h : ∀ c ∈ t, c ≠ '\\' ∧ c ≠ '"') : escapeQuotes t = t := by
  induction t with
  | nil => rfl
  | cons c t ih =>
    have hc := h c (by simp)
    rw [escapeQuotes_cons, if_neg (by simp [hc]), ih fun d hd => h d (by simp [hd])]
    rfl

theorem codes_escapeQuotes (c : Char) :
    Outline.Codes (fun c => if c = '\\' ∨ c = '"' then ['\\', c] else [c]) c := by
  by_cases hc : c = '\\' ∨ c = '"'
  · refine .inr ⟨c, by simp [hc], ?_⟩
    rcases hc with rfl | rfl <;> decide
  · exact .inl ⟨by simp [hc], fun h => hc (.inr h), fun h => hc (.inl h)⟩

/-- A text in double quotes. -/
def doubleQuoted (t : Text) : Text := '"' :: (escapeQuotes t ++ ['"'])

theorem doubleQuoted_tight (t : Text) : Text.Tight (doubleQuoted t) := by
  refine ⟨?_, ?_⟩
  · intro c hc
    cases hc
    rfl
  · intro c hc
    rw [doubleQuoted, ← List.cons_append, List.getLast?_concat] at hc
    cases hc
    rfl

theorem quoted?_doubleQuoted (t rest : Text) :
    Outline.quoted? (doubleQuoted t ++ rest) = some (doubleQuoted t, rest) :=
  Outline.quoted?_encased (fun c _ => codes_escapeQuotes c) rest

theorem unquote_doubleQuoted (t : Text) : Outline.unquote (doubleQuoted t) = .ok t :=
  Outline.unquote_encased fun c _ => codes_escapeQuotes c

theorem unquoted_doubleQuoted (t : Text) : Outline.unquoted (doubleQuoted t) = .ok t := by
  rw [Outline.unquoted, unquote_doubleQuoted]

end TemplateDocs.Metadata
