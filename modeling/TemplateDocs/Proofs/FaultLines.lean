import Mathlib
import TemplateDocs.Proofs.Linking
import TemplateDocs.Proofs.Metadata.CaptureDirective
import TemplateDocs.Proofs.Outline.Termination

/-!
# The line of a fault

A fault is found when reading has gone on over blank lines, comments and values of several lines, or
on a line of which only the rest is left. The line it names is always one of the lines that were
given, and one with content.
-/
namespace TemplateDocs

namespace Outline

theorem Line.getElem?_of_mem_numbered {n : Nat} {raws : Lines} {l : Line} (h : l ∈ numbered n raws) :
    raws[l.number - n]? = some l.raw := by
  induction raws generalizing n with
  | nil => cases h
  | cons raw raws ih =>
    rcases List.mem_cons.mp h with rfl | h
    · simp [of]
    · have hle := le_number h
      rw [show l.number - n = l.number - (n + 1) + 1 by omega, List.getElem?_cons_succ]
      exact ih h

/-! ### Calls -/

/-- The number is that of a line with content. -/
def Names (ls : List Line) (n : Nat) : Prop := ∃ l ∈ ls, l.isIdle = false ∧ l.number = n

theorem Names.mono {ls rest : List Line} {n : Nat} (h : Names rest n) (hsuffix : rest <:+ ls) :
    Names ls n := by
  obtain ⟨l, hl, hn⟩ := h
  exact ⟨l, hsuffix.subset hl, hn⟩

theorem names_of_active {ls rest : List Line} {line : Line} (h : active ls = line :: rest) :
    Names ls line.number :=
  ⟨line, (active_suffix ls).subset (h ▸ List.mem_cons_self), isIdle_of_active h, rfl⟩

namespace Call

/-- The line that an item or the value of an entry starts on. -/
def line? : Call → Option Line
  | .item line _ _ | .entry _ line _ _ => some line
  | _ => none

/-- The number is that of the line where the call starts, or of a line with content that is left. -/
def About (c : Call) (n : Nat) : Prop := (∃ line ∈ c.line?, line.number = n) ∨ Names c.input n

theorem about_of_faultLines {c : Call} {n : Nat} (h : n ∈ c.faultLines) : c.About n := by
  have hactive : ∀ ls : List Line, n ∈ ((active ls).head?.map Line.number).toList → Names ls n := by
    intro ls hn
    rw [Option.mem_toList] at hn
    obtain ⟨line, hline, rfl⟩ := Option.map_eq_some_iff.mp hn
    obtain ⟨rest, hrest⟩ := List.head?_eq_some_iff.mp hline
    exact names_of_active hrest
  cases c with
  | item line indent ls | entry text line indent ls =>
    exact .inl ⟨line, rfl, (List.mem_singleton.mp h).symm⟩
  | _ => exact .inr (hactive _ h)

/-- What a call that is made can be about, the call that makes it can be about. -/
theorem Makes.about {c d : Call} (h : Makes c d) {n : Nat} (hn : d.About n) : c.About n := by
  rcases hn with ⟨line, hline, rfl⟩ | hn
  · cases h with
    | entry h | item h =>
      cases Option.mem_some_iff.mp hline
      exact .inr (names_of_active h)
    | _ => cases hline
  · cases h with
    | @sequence _ ls _ _ h | @mapping _ ls _ _ h | @itemBelow _ _ _ ls _ h | @entryBelow _ _ _ _ ls _ h
      | @entryList _ _ _ _ ls _ h =>
      exact .inr (hn.mono (h ▸ active_suffix ls))
    | firstEntry | firstItem => exact .inr hn
    | @entry _ _ ls rest line _ h | @item _ ls rest line h =>
      exact .inr (hn.mono ((List.suffix_cons line rest).trans (h ▸ active_suffix ls)))
    | @nextEntry _ _ _ ls rest _ line _ _ h hv | @nextItem _ ls rest _ line _ h hv =>
      have hrest := (List.suffix_cons line rest).trans (h ▸ active_suffix ls)
      exact .inr (hn.mono ((reads_of_run hv).suffix.1.trans hrest))
    | @itemInline line _ ls =>
      -- the rest of an item is read as a line that keeps the number of the item
      obtain ⟨l, hl, hidle, rfl⟩ := hn
      rcases List.mem_cons.mp hl with rfl | hl
      · exact .inl ⟨line, rfl, rfl⟩
      · exact .inr ⟨l, hl, hidle, rfl⟩

theorem about_of_error {c : Call} {e : ReadError} (h : c.run = .error e) : c.About e.line := by
  induction c using reading.induction with
  | h c ih =>
    have hshape : c.Shape (reading.calls c) := c.shape
    generalize reading.calls c = ds at ih hshape
    cases hshape with
    | alone hfault => exact about_of_faultLines (hfault e h)
    | @last d hd hrun => exact hd.about (ih d (List.mem_singleton_self d) (hrun ▸ h))
    | @failed d e' hd hfail hrun =>
      have he : e' = e := Except.error.inj (hrun.symm.trans h)
      exact hd.about (ih d (List.mem_singleton_self d) (he ▸ hfail))
    | @turn d next v mid _ _ hnext _ _ hend =>
      refine hnext.about (ih next (by simp) ?_)
      rw [h] at hend
      cases hrun : next.run with
      | error e' => rw [hrun] at hend; exact congrArg _ (Except.error.inj hend).symm
      | ok result => rw [hrun] at hend; cases hend

end Call

/-! ### Documents -/

theorem readLines_error {ls : List Line} {e : ReadError} (h : readLines ls = .error e) :
    Names ls e.line := by
  rw [readLines_eq] at h
  have hbody := documentBody_suffix ls
  cases hrun : (Task.node none).run (documentBody ls) with
  | error e' =>
    simp only [hrun, Except.error.injEq] at h
    subst h
    rcases Call.about_of_error (c := .node none (documentBody ls)) hrun with ⟨line, hline, -⟩ | hnames
    · cases hline
    · exact hnames.mono hbody
  | ok result =>
    obtain ⟨v, left⟩ := result
    simp only [hrun] at h
    cases hleft : active left with
    | nil => simp [hleft] at h
    | cons line rest =>
      simp only [hleft, Except.error.injEq] at h
      subst h
      exact (names_of_active hleft).mono ((reads_of_run hrun).suffix.1.trans hbody)

theorem read_error {t : Text} {firstLine : Nat} {e : ReadError} (h : read t firstLine = .error e) :
    firstLine ≤ e.line ∧ e.line ≤ firstLine + t.count '\n' ∧
      ∃ raw, (Text.split '\n' t)[e.line - firstLine]? = some raw ∧ Lines.isBlank raw = false ∧
        (Text.trim raw).head? ≠ some '#' := by
  obtain ⟨l, hl, hidle, hnumber⟩ := readLines_error h
  rw [← hnumber]
  have hraw := Line.getElem?_of_mem_numbered hl
  have hlt := (List.getElem?_eq_some_iff.mp hraw).1
  rw [Text.length_split] at hlt
  have hle := Line.le_number hl
  refine ⟨hle, by omega, l.raw, hraw, ?_⟩
  simp only [Line.isIdle, (numbered_asCut _ _).text hl, Bool.or_eq_false_iff, decide_eq_false_iff_not,
    List.isEmpty_eq_false_iff] at hidle
  exact ⟨Bool.eq_false_iff.mpr fun hblank => hidle.1 (Lines.isBlank_iff_trim.mp hblank), hidle.2⟩

theorem readLines_of_idle {ls : List Line} (h : active ls = []) : readLines ls = .ok .null := by
  have hbody : documentBody ls = [] := by rw [documentBody, h]
  rw [readLines_eq, hbody, Task.run_node]
  rfl

end Outline

/-! ### Blocks -/

namespace Metadata

/-- An annotation without lines is not at fault. -/
theorem notes_ne_nil_of_error {b : Block} {e : Error} (h : ofBlock b = .error e) : b.notes ≠ [] := by
  intro hnotes
  have hread : Outline.read (escapeParameterLists (Lines.toText b.notes)) (b.line + 1) = .ok .null := by
    rw [hnotes]
    exact Outline.readLines_of_idle rfl
  rw [ofBlock, hread] at h
  cases h

theorem line_of_error {b : Block} (hflat : ∀ l ∈ b.notes, '\n' ∉ l) {e : Error}
    (h : ofBlock b = .error e) : b.line ≤ e.line ∧ e.line < b.line + b.comment.length := by
  have hnotes := notes_ne_nil_of_error h
  have hlength : b.comment.length = b.notes.length + 1 := by
    have hpos := List.length_pos_iff.mpr hnotes
    rw [Block.notes, List.length_drop] at hpos ⊢
    omega
  rw [ofBlock] at h
  cases hread : Outline.read (escapeParameterLists (Lines.toText b.notes)) (b.line + 1) with
  | error e' =>
    simp only [hread, Except.error.injEq] at h
    subst h
    obtain ⟨hle, -, raw, hraw, -⟩ := Outline.read_error hread
    have hlt := (List.getElem?_eq_some_iff.mp hraw).1
    rw [split_escapeParameterLists, Lines.split_toText hnotes hflat,
      ← (quoteItems_kept none b.notes).length_eq] at hlt
    dsimp only
    omega
  | ok v =>
    cases hv : ofValue v with
    | ok m => simp [hread, hv] at h
    | error fault =>
      simp only [hread, hv, Except.error.injEq] at h
      subst h
      dsimp only
      omega

end Metadata

/-- A document that cannot be read names one of its own lines, which is neither blank nor a comment.
So the metadata of a block can only be at fault from its marker to the last line of its comment. -/
theorem fault_names_line_with_content :
    (∀ (t : Text) (firstLine : Nat) (e : Outline.ReadError), Outline.read t firstLine = .error e →
      firstLine ≤ e.line ∧ e.line ≤ firstLine + t.count '\n' ∧
      ∃ raw, (Text.split '\n' t)[e.line - firstLine]? = some raw ∧ Lines.isBlank raw = false ∧
        (Text.trim raw).head? ≠ some '#') ∧
    ∀ (keyword src : Text) (b : Block) (e : Metadata.Error),
      b ∈ Block.extract keyword (Lines.ofText src) → Metadata.ofBlock b = .error e →
      b.line ≤ e.line ∧ e.line < b.line + b.comment.length := by
  refine ⟨fun _ _ _ => Outline.read_error, fun keyword src b e hb => Metadata.line_of_error ?_⟩
  intro l hl
  exact Lines.ofText_flat ((Block.mem_extractFrom hb).2 l hl)

/-- A document at fault after a value of two lines, a blank line and a comment. -/
def faultyDocument : Text := "a: \"x\n  y\"\n\n# b\n- c: [\n".toList

/-- Two blocks, the second with a key that is given twice. -/
def faultyTemplate : Text :=
  "//- @pugdoc\n  name: a\np\n//- @pugdoc\n  name: b\n\n  # c\n  name: d\n\np".toList

theorem fault_names_line_with_content_faulty :
    (∃ e, Outline.read faultyDocument 5 = .error e ∧ e.line = 9 ∧
      5 ≤ e.line ∧ e.line ≤ 5 + faultyDocument.count '\n' ∧
      ∃ raw, (Text.split '\n' faultyDocument)[e.line - 5]? = some raw ∧ Lines.isBlank raw = false ∧
        (Text.trim raw).head? ≠ some '#') ∧
    ∃ b ∈ Block.extract defaultKeyword (Lines.ofText faultyTemplate), ∃ e,
      Metadata.ofBlock b = .error e ∧ b.line = 4 ∧ e.line = 8 ∧ b.comment.length = 5 ∧
      b.line ≤ e.line ∧ e.line < b.line + b.comment.length := by
  have hread : Outline.read faultyDocument 5 = .error ⟨9, .expectedEntry⟩ := by cbv
  refine ⟨⟨_, hread, rfl, fault_names_line_with_content.1 _ _ _ hread⟩, ?_⟩
  have hblock : ∃ b ∈ Block.extract defaultKeyword (Lines.ofText faultyTemplate), b.line = 4 ∧
      b.comment.length = 5 ∧ (Metadata.ofBlock b).map (fun _ => ()) =
        .error ⟨8, .read (.duplicateKey "name".toList)⟩ := by
    decide +kernel
  obtain ⟨b, hb, hline, hlength, hfault⟩ := hblock
  cases h : Metadata.ofBlock b with
  | ok m => simp [h, Except.map] at hfault
  | error e =>
    simp only [h, Except.map, Except.error.injEq] at hfault
    refine ⟨b, hb, e, h, hline, congrArg Metadata.Error.line hfault, hlength, ?_⟩
    exact fault_names_line_with_content.2 _ _ b e hb h

end TemplateDocs
