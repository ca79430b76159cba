import Mathlib
import TemplateDocs.Proofs.Outline.Entries

/-!
# Literal blocks

Lines are carried by a literal block when they are indented under its header. The block ends at the
first line with content that is not as deep, and until then nothing that a line holds has a meaning.
-/
namespace TemplateDocs.Outline

open Lines (isBlank indent)
open Text (isSpace trim)

/-- Lines of which the first one with content is flush, and the last one has content. -/
structure Carried (texts : Lines) : Prop where
  flush : ∀ l, texts.find? (fun l => !isBlank l) = some l → indent l = 0
  last : ∃ l, texts.getLast? = some l ∧ isBlank l = false

def indented (columns : Nat) (l : Text) : Text := List.replicate columns ' ' ++ l

theorem isSpace_replicate (columns : Nat) : ∀ c ∈ List.replicate columns ' ', isSpace c = true := by
  intro c hc
  rw [List.eq_of_mem_replicate hc]
  rfl

theorem indent_indented (columns : Nat) (l : Text) : indent (indented columns l) = columns + indent l := by
  rw [indented, Lines.indent_append_of_space (isSpace_replicate columns), List.length_replicate]

theorem Line.text_isEmpty (n : Nat) (raw : Text) : (Line.of n raw).text.isEmpty = isBlank raw := by
  rw [Bool.eq_iff_iff, List.isEmpty_iff, Lines.isBlank_iff_trim]
  rfl

theorem dedent_indented (columns : Nat) (texts : Lines) :
    Lines.dedent columns (texts.map (indented columns)) = texts := by
  rw [Lines.dedent, List.map_map]
  refine (List.map_congr_left fun l _ => ?_).trans (List.map_id texts)
  rw [Function.comp_apply, Lines.dedentLine, indent_indented, Nat.min_eq_right (Nat.le_add_right _ _),
    indented, List.drop_left' List.length_replicate]
  rfl

theorem raw_numbered (n : Nat) (raws : Lines) : (Line.numbered n raws).map Line.raw = raws := by
  induction raws generalizing n with
  | nil => rfl
  | cons raw raws ih => simp [Line.numbered, Line.of, ih]

theorem inBlock_numbered (n columns : Nat) (texts : Lines) :
    ∀ l ∈ Line.numbered n (texts.map (indented columns)), inBlock columns l = true := by
  intro l hl
  have hraw : l.raw ∈ texts.map (indented columns) := by
    rw [← raw_numbered n (texts.map (indented columns))]
    exact List.mem_map_of_mem hl
  obtain ⟨text, -, htext⟩ := List.mem_map.mp hraw
  have hindent := (numbered_asCut n _).indent hl
  rw [← htext, indent_indented] at hindent
  simp [inBlock, hindent]

/-- A block starts at the column of its first line with content. -/
theorem find?_numbered {texts : Lines} {text : Text} (h : texts.find? (fun l => !isBlank l) = some text)
    (n columns : Nat) : ∃ l ∈ (Line.numbered n (texts.map (indented columns))).find? fun l => !l.text.isEmpty,
      l.indent = indent (indented columns text) := by
  induction texts generalizing n with
  | nil => cases h
  | cons first texts ih =>
    have hblank : isBlank (indented columns first) = isBlank first :=
      Lines.isBlank_append (isSpace_replicate columns)
    rw [List.map_cons, Line.numbered, List.find?_cons, Line.text_isEmpty, hblank]
    rw [List.find?_cons] at h
    cases hfirst : isBlank first with
    | true =>
      rw [hfirst] at h
      exact ih h (n + 1)
    | false =>
      rw [hfirst] at h
      cases h
      exact ⟨_, rfl, rfl⟩

theorem Carried.exists_first {texts : Lines} (h : Carried texts) :
    ∃ l, texts.find? (fun l => !isBlank l) = some l ∧ indent l = 0 := by
  obtain ⟨l, hl, hblank⟩ := h.last
  cases hfind : texts.find? (fun l => !isBlank l) with
  | none =>
    have := List.find?_eq_none.mp hfind l (List.mem_of_getLast? hl)
    simp [hblank] at this
  | some first => exact ⟨first, rfl, h.flush first hfind⟩

theorem Carried.blockIndent {texts : Lines} (h : Carried texts) (n columns : Nat) {header : Header}
    (hheader : header.indent = none) (parent : Option Nat) (rest : List Line) :
    header.blockIndent parent (Line.numbered n (texts.map (indented columns)) ++ rest) = columns := by
  obtain ⟨first, hfirst, hflush⟩ := h.exists_first
  obtain ⟨l, hl, hindent⟩ := find?_numbered hfirst n columns
  have hfind : (Line.numbered n (texts.map (indented columns)) ++ rest).find?
      (fun l => !l.text.isEmpty) = some l := by
    rw [List.find?_append, hl, Option.some_or]
  simp only [Header.blockIndent, hheader, hfind]
  rw [hindent, indent_indented, hflush, Nat.add_zero]

/-- The header of a literal block that ends with its last line, or with a line break after it. -/
def literalHeader (newline : Bool) : Text := if newline then "|".toList else "|-".toList

def literalText (newline : Bool) (texts : Lines) : Text :=
  Lines.toText texts ++ if newline then ['\n'] else []

theorem Carried.toText_ne_nil {texts : Lines} (h : Carried texts) : Lines.toText texts ≠ [] := by
  obtain ⟨l, hl, hblank⟩ := h.last
  have hmem := Lines.subset_toText (List.mem_of_getLast? hl)
  cases l with
  | nil => cases hblank
  | cons c l => exact List.ne_nil_of_mem (hmem List.mem_cons_self)

theorem Carried.parse?_header {texts : Lines} (h : Carried texts) (newline : Bool) :
    ∃ header, Header.parse? (plainPart (literalHeader newline)) = some header ∧ header.indent = none ∧
      header.body texts = literalText newline texts := by
  obtain ⟨l, hl, hblank⟩ := h.last
  have hend := Lines.dropBlankEnd_of_last hl hblank
  have hne := h.toText_ne_nil
  cases newline with
  | false => exact ⟨⟨false, .strip, none⟩, by decide, rfl, by simp [Header.body, hend, literalText]⟩
  | true => exact ⟨⟨false, .clip, none⟩, by decide, rfl, by simp [Header.body, hend, literalText, hne]⟩

/-- A literal block gives back the lines that were indented under its header. -/
theorem readInline_literal {texts : Lines} (h : Carried texts) {parent columns : Nat}
    (hdeep : parent < columns) (newline : Bool) (n : Nat) (line : Line) {rest : List Line}
    (hrest : ∀ l ∈ rest.head?, inBlock columns l = false) :
    (readInline (literalHeader newline) line (some parent)
        (Line.numbered n (texts.map (indented columns)) ++ rest)).map Read.parts =
      .ok (.string (literalText newline texts), rest) := by
  have hread : ∀ ls, readInline (literalHeader newline) line (some parent) ls =
      readBlock (literalHeader newline) line (some parent) ls := by
    cases newline <;> exact fun _ => rfl
  obtain ⟨header, hparse, hindent, hbody⟩ := h.parse?_header newline
  have hbase : (some parent).elim 0 (· + 1) ≤ columns := hdeep
  have hin := inBlock_numbered n columns texts
  have hstop : rest.takeWhile (inBlock columns) = [] ∧ rest.dropWhile (inBlock columns) = rest := by
    cases rest with
    | nil => exact ⟨rfl, rfl⟩
    | cons l rest => simp [hrest l rfl]
  rw [hread, readBlock_parts, hparse]
  dsimp only
  rw [h.blockIndent n columns hindent, if_pos hbase, List.takeWhile_append_of_pos hin,
    List.dropWhile_append_of_pos hin, hstop.1, hstop.2, List.append_nil, raw_numbered, dedent_indented,
    hbody]

end TemplateDocs.Outline
