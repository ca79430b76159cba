import Mathlib
import TemplateDocs.Proofs.Capture
import TemplateDocs.Proofs.Metadata.Decoding
import TemplateDocs.Proofs.Metadata.Quoting
import TemplateDocs.Proofs.Outline.Entries

/-!
# Two readings of the capture directive

The capture mode of a block is found by a scan over the lines of its annotation, before the annotation
is read. The metadata states it once more, as the value of the entry `capture`. The two agree where
the directive stands in the open: on one line at the annotation's own column, bare or in quotes.
-/
namespace TemplateDocs

open Outline (Line Entry AsCut document entries)
open Text (trim)

namespace Block

/-! ### The scan -/

/-- What the scan makes of a line, given the annotation's column. -/
def announced? (base : Nat) (raw : Text) : Option Capture :=
  if Lines.indent raw = base then captureOf? raw else none

theorem captureOf?_of_blank {raw : Text} (h : Lines.isBlank raw = true) : captureOf? raw = none := by
  unfold captureOf?
  rw [Lines.isBlank_iff_trim.mp h]
  rfl

theorem captureOf?_of_item {raw : Text} (h : Line.isItemText (trim raw) = true) :
    captureOf? raw = none := by
  obtain ⟨rest, ht⟩ := Line.exists_of_isItemText h
  unfold captureOf?
  rw [ht]
  rfl

theorem announcedCapture_eq (notes : Lines) :
    announcedCapture notes = (notes.findSome? (announced? (baseIndent notes))).getD .single := by
  unfold announcedCapture
  dsimp only
  generalize baseIndent notes = base
  congr 1
  induction notes with
  | nil => rfl
  | cons raw rest ih =>
    rw [List.filter_cons, List.findSome?_cons]
    cases hb : Lines.isBlank raw with
    | true => simp [announced?, captureOf?_of_blank hb, ih]
    | false =>
      by_cases hi : Lines.indent raw = base
      · simp only [hi, announced?, Bool.not_false, decide_true, Bool.and_self, if_true,
          List.findSome?_cons, ih]
      · simp [hi, announced?, ih]

theorem findSome?_kept {raws raws' : Lines} (h : List.Forall₂ Metadata.Kept raws raws') (base : Nat) :
    raws.findSome? (announced? base) = raws'.findSome? (announced? base) := by
  induction h with
  | nil => rfl
  | @cons raw raw' _ _ hk _ ih =>
    have hline : announced? base raw = announced? base raw' := by
      rcases hk.item with rfl | ⟨hi, hi'⟩
      · rfl
      · simp [announced?, captureOf?_of_item hi, captureOf?_of_item hi']
    rw [List.findSome?_cons, List.findSome?_cons, hline, ih]

theorem findSome?_numbered (n : Nat) (raws : Lines) (base : Nat) :
    (Line.numbered n raws).findSome? (fun l => announced? base l.raw) =
      raws.findSome? (announced? base) := by
  induction raws generalizing n with
  | nil => rfl
  | cons raw rest ih => rw [Line.numbered, List.findSome?_cons, List.findSome?_cons, ih]; rfl

theorem mem_of_mem_dropBlankEnd {ls : Lines} {l : Text} (h : l ∈ Lines.dropBlankEnd ls) : l ∈ ls :=
  (Lines.dropBlankEnd_isPrefix ls).subset h

theorem ofMarker?_capture {marker head : Text} {line : Nat} {rest : Lines} {b : Block}
    (h : ofMarker? marker line head rest = some b) :
    b.capture = announcedCapture b.notes ∧ ∀ l ∈ b.notes, l ∈ head :: rest := by
  unfold ofMarker? at h
  extract_lets column comment capture window window' code at h
  split_ifs at h
  cases h
  refine ⟨rfl, ?_⟩
  intro l hl
  rcases List.mem_cons.mp (mem_of_mem_dropBlankEnd (List.mem_of_mem_drop hl)) with rfl | hl
  · exact List.mem_cons_self
  · exact List.mem_cons_of_mem _ ((List.takeWhile_prefix _).subset hl)

theorem mem_extractFrom {marker : Text} {line : Nat} {ls : Lines} {b : Block}
    (h : b ∈ extractFrom marker line ls) :
    b.capture = announcedCapture b.notes ∧ ∀ l ∈ b.notes, l ∈ ls := by
  induction ls generalizing line with
  | nil => simp [extractFrom] at h
  | cons head rest ih =>
    have later : b ∈ extractFrom marker (line + 1) rest →
        b.capture = announcedCapture b.notes ∧ ∀ l ∈ b.notes, l ∈ head :: rest := fun h =>
      ⟨(ih h).1, fun l hl => List.mem_cons_of_mem _ ((ih h).2 l hl)⟩
    unfold extractFrom at h
    split at h
    · rcases List.mem_append.mp h with h | h
      · exact ofMarker?_capture (Option.mem_toList.mp h)
      · exact later h
    · exact later h

/-- The column of the annotation. -/
def base (b : Block) : Nat := baseIndent b.notes

/-- The scan finds in the lines that are read what it found in the source. -/
theorem capture_eq_scan {keyword src : Text} {b : Block} (hb : b ∈ extract keyword (Lines.ofText src)) :
    b.capture = (b.noteLines.findSome? fun l => announced? b.base l.raw).getD .single := by
  obtain ⟨hcapture, hnotes⟩ := mem_extractFrom hb
  have hlines : ∀ l ∈ b.notes, '\n' ∉ l := by
    intro l hl
    have := hnotes l hl
    cases src with
    | nil => cases this
    | cons c t => exact Text.not_mem_of_mem_split this
  have hsplit : (Text.split '\n' (Lines.toText b.notes)).findSome? (announced? b.base) =
      b.notes.findSome? (announced? b.base) := by
    cases hn : b.notes with
    | nil =>
      have hblank : announced? b.base [] = none := by
        rw [announced?, captureOf?_of_blank rfl, ite_self]
      simp [Lines.toText, Text.join, Text.split, hblank]
    | cons raw rest =>
      rw [Lines.split_toText (by simp) (hn ▸ hlines)]
  unfold noteLines document
  rw [Metadata.split_escapeParameterLists, findSome?_numbered,
    ← findSome?_kept (Metadata.quoteItems_kept none _), hsplit, hcapture, announcedCapture_eq]
  rfl

/-! ### The line of the directive -/

theorem splitKey?_capture (rest : Text) :
    Outline.splitKey? ("capture:".toList ++ rest) =
      if (rest.head?.map Outline.isGap).getD true then some ("capture".toList, rest)
      else Outline.plainKey? "capture:".toList.reverse false rest := by
  rw [show "capture:".toList = ['c', 'a', 'p', 't', 'u', 'r', 'e', ':'] by decide,
    show "capture".toList = ['c', 'a', 'p', 't', 'u', 'r', 'e'] by decide]
  simp [Outline.splitKey?, Outline.plainKey?, Outline.Flow.isQuote, Outline.Flow.isOpening,
    Line.isItemText, Outline.isGap, Text.trimEnd, Text.isSpace]

/-- A key that goes on after a colon has its own colon before any comment. -/
theorem colon_mem_of_plainKey? {acc rest key after : Text} {gap : Bool}
    (h : Outline.plainKey? acc gap rest = some (key, after)) :
    ':' ∈ (Text.cut? [' ', '#'] rest).elim rest Prod.fst := by
  induction rest generalizing acc gap with
  | nil => simp [Outline.plainKey?] at h
  | cons c t ih =>
    cases hcut : Text.after? [' ', '#'] (c :: t) with
    | some comment =>
      rw [Text.after?_eq_some_iff] at hcut
      cases hcut
      simp [Outline.plainKey?, Outline.isGap] at h
    | none =>
      have hfront : (Text.cut? [' ', '#'] (c :: t)).elim (c :: t) Prod.fst =
          c :: (Text.cut? [' ', '#'] t).elim t Prod.fst := by
        rw [Text.cut?, hcut]
        cases Text.cut? [' ', '#'] t <;> rfl
      rw [hfront]
      by_cases hc : c = ':'
      · simp [hc]
      · rw [Outline.plainKey?] at h
        split_ifs at h with h1 h2
        · exact absurd h2.1 hc
        · exact List.mem_cons_of_mem _ (ih h)

/-- A line that the scan takes for a directive has the key `capture` if it starts an entry. -/
theorem key_of_captureOf? {raw key after : Text} {mode : Capture} (h : captureOf? raw = some mode)
    (hk : Outline.splitKey? (trim raw) = some (key, after)) : key = "capture".toList := by
  obtain ⟨value, hv, hp⟩ := Option.bind_eq_some_iff.mp h
  rw [Text.after?_eq_some_iff] at hv
  rw [hv, splitKey?_capture] at hk
  split_ifs at hk with hgap
  · cases hk
    rfl
  · have hcolon := Text.mem_trimMatches (p := fun c => c = '"' || c = '\'')
      (Text.mem_trim_of_not_space (colon_mem_of_plainKey? hk) (by decide)) (by decide)
    have hnone := Capture.parse?_eq_none hcolon (by decide) (by decide) hcolon (by decide) (by decide)
    exact absurd (hp.symm.trans hnone) (by simp)

/-! ### Directives in the open -/

/-- A word that means the same bare and in quotes. -/
structure PlainWord (w : Text) : Prop where
  ne_nil : w ≠ []
  tight : Text.Tight w
  chars : ∀ c ∈ w, c ∉ ['#', '"', '\'', '\\']
  start : ∀ c ∈ w.head?, c ∉ ['|', '>', '[', '\x7b']

/-- Nothing, or a comment after blanks. -/
inductive Trailing : Text → Prop
  | nothing : Trailing []
  | comment {blanks : Text} (h : ∀ c ∈ blanks, Outline.isGap c = true) (comment : Text) :
      Trailing (blanks ++ ' ' :: '#' :: comment)

/-- The word as it may stand after the colon: bare or in quotes, with no more than a comment. -/
inductive Spells (word : Text) : Text → Prop
  | mk {quote note : Text} (hq : quote ∈ [[], ['"'], ['\'']]) (hn : Trailing note) :
      Spells word (quote ++ word ++ quote ++ note)

theorem isSpace_of_isGap {c : Char} (h : Outline.isGap c = true) : Text.isSpace c = true := by
  simp only [Outline.isGap, Bool.or_eq_true, decide_eq_true_eq] at h
  rcases h with rfl | rfl <;> rfl

theorem cut?_of_not_mem {t : Text} (h : '#' ∉ t) : Text.cut? [' ', '#'] t = none := by
  induction t with
  | nil => rfl
  | cons c t ih =>
    simp only [List.mem_cons, not_or] at h
    have hcut : Text.after? [' ', '#'] (c :: t) = none := by
      cases hcut : Text.after? [' ', '#'] (c :: t) with
      | none => rfl
      | some rest =>
        rw [Text.after?_eq_some_iff] at hcut
        cases hcut
        simp at h
    rw [Text.cut?, hcut, ih h.2]
    rfl

theorem cut?_append {front : Text} (h : '#' ∉ front) (comment : Text) :
    Text.cut? [' ', '#'] (front ++ ' ' :: '#' :: comment) = some (front, comment) := by
  induction front with
  | nil => rfl
  | cons c front ih =>
    simp only [List.mem_cons, not_or] at h
    have hcut : Text.after? [' ', '#'] (c :: (front ++ ' ' :: '#' :: comment)) = none := by
      cases hcut : Text.after? [' ', '#'] (c :: (front ++ ' ' :: '#' :: comment)) with
      | none => rfl
      | some rest =>
        rw [Text.after?_eq_some_iff] at hcut
        cases front with
        | nil => simp at hcut
        | cons d front => simp_all
    rw [List.cons_append, Text.cut?, hcut, ih h.2]
    rfl

section Quoted

variable {quote word : Text} (hq : quote ∈ [[], ['"'], ['\'']]) (hw : PlainWord word)

include hq in
theorem quote_chars : ∀ c ∈ quote, (c = '"' || c = '\'') = true := by
  simp only [List.mem_cons, List.not_mem_nil, or_false] at hq
  rcases hq with rfl | rfl | rfl <;> simp

include hw in
theorem PlainWord.no_quote : ∀ c ∈ word, (c = '"' || c = '\'') = false := by
  intro c hc
  have := hw.chars c hc
  simp_all

include hw in
theorem quoted_ne_nil : quote ++ word ++ quote ≠ [] := by
  simp [hw.ne_nil]

include hq hw

theorem hash_not_mem_quoted : '#' ∉ quote ++ word ++ quote := by
  have hword : '#' ∉ word := fun hm => absurd (hw.chars _ hm) (by simp)
  have hquote : '#' ∉ quote := fun hm => absurd (quote_chars hq _ hm) (by decide)
  simp [hword, hquote]

theorem quoted_tight : Text.Tight (quote ++ word ++ quote) := by
  have between : ∀ q : Char, Text.isSpace q = false → Text.Tight ([q] ++ word ++ [q]) := by
    intro q hspace
    refine ⟨by simp [hspace], fun c hc => ?_⟩
    rw [List.getLast?_concat, Option.mem_some_iff] at hc
    exact hc ▸ hspace
  simp only [List.mem_cons, List.not_mem_nil, or_false] at hq
  rcases hq with rfl | rfl | rfl
  · simpa using hw.tight
  · exact between _ (by decide)
  · exact between _ (by decide)

theorem trimMatches_quoted :
    Text.trimMatches (fun c => c = '"' || c = '\'') (quote ++ word ++ quote) = word :=
  Text.trimMatches_append (quote_chars hq) (quote_chars hq) hw.ne_nil
    (fun c hc => hw.no_quote c (List.mem_of_mem_head? hc))
    (fun c hc => hw.no_quote c (List.mem_of_mem_getLast? hc))

end Quoted

/-- The scan reads a directive in the open as its word. -/
theorem captureOf?_spells {raw gap after word : Text} (hw : PlainWord word) (hs : Spells word after)
    (hg : ∀ c ∈ gap, Outline.isGap c = true) (ht : trim raw = "capture:".toList ++ (gap ++ after)) :
    captureOf? raw = Capture.parse? word := by
  obtain ⟨hq, hn⟩ := hs
  rename_i quote note
  have hgap : ∀ c ∈ gap, Text.isSpace c = true := fun c hc => isSpace_of_isGap (hg c hc)
  have hhash : '#' ∉ gap := fun hm => absurd (hg _ hm) (by decide)
  have hcore := hash_not_mem_quoted hq hw
  have asked : ∀ {value back : Text}, value = gap ++ (quote ++ word ++ quote) ++ back →
      (∀ c ∈ back, Text.isSpace c = true) →
      Text.trimMatches (fun c => c = '"' || c = '\'') (trim value) = word := by
    rintro value back rfl hb
    rw [Text.trim_pad hgap hb (quoted_ne_nil hw) (quoted_tight hq hw), trimMatches_quoted hq hw]
  unfold captureOf?
  rw [ht, Text.after?_eq_some_iff.mpr rfl, Option.bind_some]
  cases hn with
  | nothing =>
    have hnone : Text.cut? " #".toList (gap ++ (quote ++ word ++ quote ++ [])) = none :=
      cut?_of_not_mem (by simp_all)
    rw [hnone]
    exact congrArg Capture.parse? (@asked _ [] (by simp) (by simp))
  | @comment blanks hb comment =>
    have hbhash : '#' ∉ blanks := fun hm => absurd (hb _ hm) (by decide)
    have hsome : Text.cut? " #".toList
        (gap ++ (quote ++ word ++ quote ++ (blanks ++ ' ' :: '#' :: comment))) =
          some (gap ++ (quote ++ word ++ quote) ++ blanks, comment) := by
      have := @cut?_append (gap ++ (quote ++ word ++ quote) ++ blanks) (by simp_all) comment
      simpa using this
    rw [hsome]
    exact congrArg Capture.parse? (asked rfl fun c hc => isSpace_of_isGap (hb c hc))

/-! ### How the reader takes the word -/

theorem isSpace_blanks {blanks : Text} (h : ∀ c ∈ blanks, Outline.isGap c = true) :
    ∀ c ∈ blanks ++ [' '], Text.isSpace c = true := by
  intro c hc
  rcases List.mem_append.mp hc with hc | hc
  · exact isSpace_of_isGap (h c hc)
  · rw [List.mem_singleton.mp hc]
    rfl

theorem Trailing.isTrailingComment {note : Text} (h : Trailing note) :
    Outline.isTrailingComment (trim note) = true := by
  cases h with
  | nothing => rfl
  | @comment blanks hb comment =>
    have hnote : blanks ++ ' ' :: '#' :: comment = blanks ++ [' '] ++ '#' :: comment := by simp
    rw [hnote, Text.trim_append_left (isSpace_blanks hb), Outline.isTrailingComment,
      Text.head?_trim_cons (by decide)]
    simp

theorem beforeComment_of_not_mem {t : Text} (h : '#' ∉ t) (gap : Bool) :
    Outline.beforeComment gap t = t := by
  induction t generalizing gap with
  | nil => rfl
  | cons c t ih =>
    simp only [List.mem_cons, not_or] at h
    rw [Outline.beforeComment, if_neg (fun hc => h.1 hc.1.symm), ih h.2]

theorem beforeComment_append {front : Text} (h : '#' ∉ front) (gap : Bool) (comment : Text) :
    Outline.beforeComment gap (front ++ ' ' :: '#' :: comment) = front ++ [' '] := by
  induction front generalizing gap with
  | nil => simp [Outline.beforeComment, Outline.isGap]
  | cons c front ih =>
    simp only [List.mem_cons, not_or] at h
    rw [List.cons_append, Outline.beforeComment, if_neg (fun hc => h.1 hc.1.symm), ih h.2,
      List.cons_append]

theorem plainPart_append {word note : Text} (hw : PlainWord word) (hn : Trailing note) :
    Outline.plainPart (word ++ note) = word := by
  have hhash : '#' ∉ word := fun hm => absurd (hw.chars _ hm) (by simp)
  unfold Outline.plainPart Outline.stripComment
  cases hn with
  | nothing => rw [List.append_nil, beforeComment_of_not_mem hhash, Text.trimEnd_of_last hw.tight.last]
  | @comment blanks hb comment =>
    have hbhash : '#' ∉ blanks := fun hm => absurd (hb _ hm) (by decide)
    rw [← List.append_assoc, beforeComment_append (by simp [hhash, hbhash]), List.append_assoc,
      Text.trimEnd_append (isSpace_blanks hb), Text.trimEnd_of_last hw.tight.last]

theorem deeperParts_of_idle {parent : Option Nat} {body mid : List Line}
    (hidle : ∀ l ∈ body, l.isIdle = true) (h : (Outline.deeperParts parent (body ++ mid)).2 = mid) :
    (Outline.deeperParts parent (body ++ mid)).1 = [] := by
  induction body with
  | cons l body ih =>
    have hl := hidle l (by simp)
    rw [List.cons_append, Outline.deeperParts, if_pos hl] at h ⊢
    exact ih (fun l hm => hidle l (by simp [hm])) h
  | nil =>
    rw [List.nil_append] at h ⊢
    cases mid with
    | nil => rfl
    | cons l rest =>
      have hsuffix := Outline.deeperParts_suffix parent rest
      rw [Outline.deeperParts] at h ⊢
      split_ifs at h ⊢
      · rw [h] at hsuffix
        exact absurd hsuffix.length_le (by simp)
      · rw [h] at hsuffix
        exact absurd hsuffix.length_le (by simp)
      · rfl

theorem closeSingle?_append {w rest : Text} (hw : '\'' ∉ w) (hr : rest.head? ≠ some '\'') :
    Outline.closeSingle? (w ++ '\'' :: rest) = some (w ++ ['\''], rest) := by
  induction w with
  | nil =>
    cases rest with
    | nil => rfl
    | cons c rest =>
      have hc : c ≠ '\'' := by simpa using hr
      rw [List.nil_append, Outline.closeSingle?]
      · rfl
      · rintro t h
        exact hc (List.cons.inj h).1
  | cons c w ih =>
    simp only [List.mem_cons, not_or] at hw
    have hc : c ≠ '\'' := Ne.symm hw.1
    rw [List.cons_append, Outline.closeSingle?, ih hw.2]
    · rfl
    · rintro t rfl
      exact absurd rfl hc
    · exact hc

theorem undouble_of_not_mem {w : Text} (hw : '\'' ∉ w) : Outline.undouble w = w := by
  induction w with
  | nil => rfl
  | cons c w ih =>
    simp only [List.mem_cons, not_or] at hw
    rw [Outline.undouble, ih hw.2]
    rintro t rfl
    exact absurd rfl hw.1

theorem Trailing.head?_ne {note : Text} (h : Trailing note) : note.head? ≠ some '\'' := by
  cases h with
  | nothing => simp
  | @comment blanks hb comment =>
    cases blanks with
    | nil => simp
    | cons c blanks =>
      have := hb c (by simp)
      rintro hc
      simp only [List.cons_append, List.head?_cons, Option.some.injEq] at hc
      subst hc
      cases this

/-- In quotes the word is a text that takes no line after it. -/
theorem readInline_word {word note quote : Text} (hw : PlainWord word) (hn : Trailing note)
    (hq : quote ∈ [['"'], ['\'']]) (line : Line) (parent : Option Nat) (ls : List Line) :
    (Outline.readInline (quote ++ word ++ quote ++ note) line parent ls).map Outline.Read.parts =
      .ok (.string word, ls) := by
  have hchars : ∀ c ∈ word, c ≠ '\\' ∧ c ≠ '"' := by
    intro c hc
    have := hw.chars c hc
    simp_all
  have hsingle : '\'' ∉ word := fun hm => absurd (hw.chars _ hm) (by simp)
  simp only [List.mem_cons, List.not_mem_nil, or_false] at hq
  rcases hq with rfl | rfl
  · have hform : ['"'] ++ word ++ ['"'] = Metadata.doubleQuoted word := by
      rw [Metadata.doubleQuoted, Metadata.escapeQuotes_of_plain hchars]
      rfl
    rw [hform]
    exact Outline.readInline_quoted (Metadata.quoted?_doubleQuoted word note)
      (Metadata.unquoted_doubleQuoted word) hn.isTrailingComment line parent ls
  · have hquoted : Outline.quoted? (['\''] ++ word ++ ['\''] ++ note) =
        some (['\''] ++ word ++ ['\''], note) := by
      have hclose := closeSingle?_append hsingle hn.head?_ne
      simp [Outline.quoted?, hclose]
    have hunquoted : Outline.unquoted (['\''] ++ word ++ ['\'']) = .ok word := by
      have hdrop : Outline.unquote (['\''] ++ word ++ ['\'']) = .ok word := by
        simp [Outline.unquote, undouble_of_not_mem hsingle]
      rw [Outline.unquoted, hdrop]
    exact Outline.readInline_quoted hquoted hunquoted hn.isTrailingComment line parent ls

theorem readInline_bare {word note : Text} (hw : PlainWord word) (line : Line) (parent : Option Nat)
    (ls : List Line) :
    Outline.readInline (word ++ note) line parent ls =
      .ok (Outline.readPlain (word ++ note) parent ls) := by
  cases word with
  | nil => exact absurd rfl hw.ne_nil
  | cons c w =>
    have hstart := hw.start c (by simp)
    have hchars := hw.chars c (by simp)
    simp only [List.mem_cons, List.not_mem_nil, or_false, not_or] at hstart hchars
    unfold Outline.readInline
    simp [hstart, hchars, Outline.Flow.isQuote, Outline.Flow.isOpening]

theorem Spells.isTrailingComment {word after : Text} (hw : PlainWord word) (hs : Spells word after) :
    Outline.isTrailingComment after = false := by
  obtain ⟨hq, hn⟩ := hs
  rename_i quote note
  have hcore := hash_not_mem_quoted hq hw
  have hne := @quoted_ne_nil quote word hw
  cases hc : quote ++ word ++ quote with
  | nil => exact absurd hc hne
  | cons c t =>
    rw [hc] at hcore
    have : c ≠ '#' := fun h => hcore (by simp [h])
    simp [Outline.isTrailingComment, this]

theorem Spells.tight {a word after : Text} (hw : PlainWord word) (hs : Spells word after)
    (ht : Text.Tight (a ++ after)) : Text.Tight after := by
  obtain ⟨hq, hn⟩ := hs
  rename_i quote note
  have hne := @quoted_ne_nil quote word hw
  refine ⟨?_, ?_⟩
  · rw [List.head?_append_of_ne_nil _ hne]
    exact (quoted_tight hq hw).head
  · have hlast := ht.last
    rwa [List.getLast?_append_of_ne_nil _ (by simp [hw.ne_nil])] at hlast

/-- The reader takes a directive in the open for a value that asks for the mode of its word. -/
theorem directive?_spells {word after : Text} {line : Line} {i : Nat} {body mid : List Line}
    {v : Json.Value} (hw : PlainWord word) (hs : Spells word after)
    (hidle : ∀ l ∈ body, l.isIdle = true)
    (hr : Outline.Reads (.entry after line i) (body ++ mid) v mid) :
    Metadata.directive? v = Capture.parse? word := by
  have hrun := hr.run
  rw [Outline.Task.run_entry, hs.isTrailingComment hw, if_neg (by simp)] at hrun
  obtain ⟨hq, hn⟩ := hs
  rename_i quote note
  rcases List.mem_cons.mp hq with rfl | hq
  · rw [List.nil_append, List.append_nil, readInline_bare hw] at hrun
    simp only [Except.map, Outline.readPlain_parts, Except.ok.injEq, Prod.mk.injEq] at hrun
    have hjoin : Text.join [' '] [word] = word := by simp [Text.join]
    rw [← hrun.1, plainPart_append hw hn, deeperParts_of_idle hidle hrun.2, hjoin]
    exact Metadata.directive?_resolve word
  · rw [readInline_word hw hn hq] at hrun
    simp only [Except.ok.injEq, Prod.mk.injEq] at hrun
    rw [← hrun.1]
    rfl

/-- The directive stands on one line at the annotation's column: the key, blanks and a plain word. -/
structure InTheOpen (base : Nat) (e : Entry) : Prop where
  column : e.head.indent = base
  written : ∃ gap after word : Text, e.head.text = "capture:".toList ++ (gap ++ after) ∧ gap ≠ [] ∧
    (∀ c ∈ gap, Outline.isGap c = true) ∧ PlainWord word ∧ Spells word after
  alone : ∀ l ∈ e.body, l.isIdle = true

theorem InTheOpen.agrees {base i : Nat} {e : Entry} {ls mid : List Line} {after : Text}
    (h : InTheOpen base e) (hs : e.StandsIn i ls mid after) (hcut : AsCut ls) :
    e.key = "capture".toList ∧ announced? base e.head.raw = Metadata.directive? e.value := by
  obtain ⟨gap, after', word, htext, hne, hgap, hw, hspells⟩ := h.written
  have hmem : e.head ∈ ls := hs.lines.subset List.mem_cons_self
  have hraw : trim e.head.raw = "capture:".toList ++ (gap ++ after') :=
    (hcut.text hmem).symm.trans htext
  have hafter : e.key = "capture".toList ∧ after = gap ++ after' := by
    have hk := hs.key
    rw [htext, splitKey?_capture, if_pos] at hk
    · obtain ⟨hkey, hrest⟩ := Prod.mk.inj (Option.some.inj hk)
      exact ⟨hkey.symm, hrest.symm⟩
    · cases gap with
      | nil => exact absurd rfl hne
      | cons c gap => simpa using hgap c (by simp)
  have htight : Text.Tight after' :=
    hspells.tight hw (a := "capture:".toList ++ gap) (by
      rw [List.append_assoc, ← hraw]
      exact Text.trim_tight _)
  have htrim : trim after = after' := by
    rw [hafter.2, Text.trim_append_left fun c hc => isSpace_of_isGap (hgap c hc),
      Text.trim_of_tight htight]
  have hvalue := hs.value
  rw [htrim] at hvalue
  refine ⟨hafter.1, ?_⟩
  rw [announced?, if_pos ((hcut.indent hmem).symm.trans h.column), captureOf?_spells hw hspells hgap hraw,
    directive?_spells hw hspells h.alone hvalue]

/-! ### The scan over the entries -/

/-- The mode of the first line of the annotation that the scan takes for a directive. -/
def scanned? (b : Block) : Option Capture :=
  b.noteLines.findSome? fun l => announced? b.base l.raw

/-- A line that the scan takes for a directive although it starts no entry. -/
def IsStray (b : Block) (l : Line) : Prop :=
  announced? b.base l.raw ≠ none ∧ l ∉ (entries b.noteLines).map Entry.head

theorem announced?_eq_some {base : Nat} {raw : Text} {mode : Capture}
    (h : announced? base raw = some mode) : captureOf? raw = some mode := by
  unfold announced? at h
  split_ifs at h
  exact h

theorem announced?_ne_single (base : Nat) (raw : Text) : announced? base raw ≠ some .single := by
  intro h
  obtain ⟨value, -, hp⟩ := Option.bind_eq_some_iff.mp (announced?_eq_some h)
  exact Capture.parse?_ne_single _ hp

section Entries

variable {ls : List Line} {fields : Json.Fields} {base : Nat} (hb : Outline.BlockMapping ls fields)
  (hcut : AsCut ls)

include hb hcut

theorem key_of_announced {e : Entry} (he : e ∈ entries ls) {mode : Capture}
    (h : announced? base e.head.raw = some mode) : e.key = "capture".toList := by
  obtain ⟨i, mid, after, hs⟩ := hb.standsIn he
  have hk := hs.key
  rw [hcut.text (hs.lines.subset List.mem_cons_self)] at hk
  exact key_of_captureOf? (announced?_eq_some h) hk

/-- The entry `capture` is the only one that the scan can find. -/
theorem findSome?_entries {e : Entry} (he : e ∈ entries ls) (hkey : e.key = "capture".toList) :
    (entries ls).findSome? (fun e => announced? base e.head.raw) = announced? base e.head.raw := by
  have only : ∀ e' ∈ entries ls, ∀ mode, announced? base e'.head.raw = some mode → e' = e := by
    intro e' he' mode h
    have hkey' := key_of_announced hb hcut he' h
    exact List.inj_on_of_nodup_map hb.keys he' he (hkey'.trans hkey.symm)
  cases hfound : (entries ls).findSome? (fun e => announced? base e.head.raw) with
  | none => exact (List.findSome?_eq_none_iff.mp hfound e he).symm
  | some mode =>
    obtain ⟨e', he', h⟩ := List.exists_of_findSome?_eq_some hfound
    rw [← only e' he' mode h, h]

/-- Without stray lines the scan sees no more than the lines of entries. -/
theorem findSome?_lines
    (hstray : ∀ l ∈ ls, announced? base l.raw ≠ none → l ∈ (entries ls).map Entry.head) :
    ls.findSome? (fun l => announced? base l.raw) =
      (entries ls).findSome? fun e => announced? base e.head.raw := by
  cases hfound : ls.findSome? (fun l => announced? base l.raw) with
  | some mode =>
    obtain ⟨l, hl, h⟩ := List.exists_of_findSome?_eq_some hfound
    obtain ⟨e, he, rfl⟩ := List.mem_map.mp (hstray l hl (by simp [h]))
    rw [findSome?_entries hb hcut he (key_of_announced hb hcut he h), h]
  | none =>
    symm
    rw [List.findSome?_eq_none_iff]
    intro e he
    obtain ⟨i, mid, after, hs⟩ := hb.standsIn he
    exact List.findSome?_eq_none_iff.mp hfound _ (hs.lines.subset List.mem_cons_self)

end Entries

end Block

namespace Metadata

/-- The mode that an entry `capture` asks for. -/
theorem bind_directive?_of_mem {b : Block} {fields : Json.Fields} {m : Metadata} {e : Entry}
    (hb : Outline.BlockMapping b.noteLines fields) (hm : ofFields fields = .ok m)
    (he : e ∈ entries b.noteLines) (hkey : e.key = "capture".toList) :
    m.capture.bind directive? = directive? e.value := by
  have hget := hb.get?_of_mem he
  rw [hkey] at hget
  rw [ofFields_capture hm]
  unfold capture?
  rw [hget]
  cases e.value with
  | null => decide
  | _ => rfl

theorem bind_directive?_of_not_mem {b : Block} {fields : Json.Fields} {m : Metadata}
    (hb : Outline.BlockMapping b.noteLines fields) (hm : ofFields fields = .ok m)
    (hkey : "capture".toList ∉ (entries b.noteLines).map Entry.key) :
    m.capture.bind directive? = none := by
  rw [ofFields_capture hm]
  unfold capture?
  rw [hb.get?_of_not_mem hkey]
  rfl

end Metadata

namespace Block

theorem getD_single_inj {a c : Option Capture} (ha : a ≠ some .single) (hc : c ≠ some .single) :
    a.getD .single = c.getD .single ↔ a = c := by
  cases a <;> cases c <;> simp_all [eq_comm]

/-- The two readings agree exactly if the scan finds the mode that the metadata asks for. -/
theorem capture_eq_iff_scanned? {keyword src : Text} {b : Block}
    (hb : b ∈ extract keyword (Lines.ofText src)) (m : Metadata) :
    b.capture = m.captureMode.toOption.getD .single ↔
      b.scanned? = m.capture.bind Metadata.directive? := by
  rw [capture_eq_scan hb, Metadata.captureMode_getD]
  refine getD_single_inj ?_ ?_
  · intro h
    obtain ⟨l, -, hl⟩ := List.exists_of_findSome?_eq_some h
    exact announced?_ne_single _ _ hl
  · intro h
    obtain ⟨v, -, hv⟩ := Option.bind_eq_some_iff.mp h
    exact Capture.parse?_ne_single _ hv

/-- Without stray lines, only the line of the entry `capture` and its value matter. -/
theorem scanned?_eq_iff {b : Block} {m : Metadata} {fields : Json.Fields}
    (hblock : Outline.BlockMapping b.noteLines fields) (hm : Metadata.ofFields fields = .ok m)
    (hs : ∀ l ∈ b.noteLines, ¬ b.IsStray l) :
    b.scanned? = m.capture.bind Metadata.directive? ↔
      ∀ e ∈ entries b.noteLines, e.key = "capture".toList →
        announced? b.base e.head.raw = Metadata.directive? e.value := by
  have hcut : AsCut b.noteLines := Outline.document_asCut _ _
  have hstray : ∀ l ∈ b.noteLines, announced? b.base l.raw ≠ none →
      l ∈ (entries b.noteLines).map Entry.head := by
    intro l hl h
    by_contra hn
    exact hs l hl ⟨h, hn⟩
  rw [scanned?, findSome?_lines hblock hcut hstray]
  by_cases hmem : "capture".toList ∈ (entries b.noteLines).map Entry.key
  · obtain ⟨e, he, hkey⟩ := List.mem_map.mp hmem
    rw [findSome?_entries hblock hcut he hkey, Metadata.bind_directive?_of_mem hblock hm he hkey]
    constructor
    · intro h e' he' hkey'
      rwa [List.inj_on_of_nodup_map hblock.keys he' he (hkey'.trans hkey.symm)]
    · intro h
      exact h e he hkey
  · have hnone : (entries b.noteLines).findSome? (fun e => announced? b.base e.head.raw) = none := by
      rw [List.findSome?_eq_none_iff]
      intro e he
      by_contra h
      obtain ⟨mode, hmode⟩ := Option.ne_none_iff_exists'.mp h
      exact hmem (List.mem_map.mpr ⟨e, he, key_of_announced hblock hcut he hmode⟩)
    rw [hnone, Metadata.bind_directive?_of_not_mem hblock hm hmem]
    refine ⟨fun _ e he hkey => ?_, fun _ => rfl⟩
    exact absurd (List.mem_map.mpr ⟨e, he, hkey⟩) hmem

/-- The capture mode of a block is the one of its metadata, or the default if the metadata asks for none
that exists, exactly if the first line that the scan takes for a directive announces what the metadata
asks for. In a block mapping without stray lines this is a matter of the entry `capture` alone: its
line announces what its value asks for, as it does wherever the directive stands in the open. -/
theorem capture_eq_captureMode_iff {keyword src : Text} {b : Block} {m : Metadata}
    (hb : b ∈ extract keyword (Lines.ofText src)) (hm : Metadata.ofBlock b = .ok m) :
    (b.capture = m.captureMode.toOption.getD .single ↔
      b.scanned? = m.capture.bind Metadata.directive?) ∧
    ((∀ l ∈ b.noteLines, ¬ b.IsStray l) → entries b.noteLines ≠ [] →
      (b.capture = m.captureMode.toOption.getD .single ↔
        ∀ e ∈ entries b.noteLines, e.key = "capture".toList →
          announced? b.base e.head.raw = Metadata.directive? e.value) ∧
      ((∀ e ∈ entries b.noteLines, e.key = "capture".toList → InTheOpen b.base e) →
        b.capture = m.captureMode.toOption.getD .single)) := by
  have hscan := capture_eq_iff_scanned? hb m
  refine ⟨hscan, fun hs hne => ?_⟩
  obtain ⟨v, hv, hof⟩ := Metadata.ofBlock_eq_ok hm
  rcases Outline.entries_of_readLines hv with hnil | ⟨fields, rfl, hblock⟩
  · exact absurd hnil hne
  have hlocal := hscan.trans (scanned?_eq_iff hblock hof hs)
  refine ⟨hlocal, fun hopen => hlocal.mpr fun e he hkey => ?_⟩
  obtain ⟨i, mid, after, hstands⟩ := hblock.standsIn he
  exact ((hopen e he hkey).agrees hstands (Outline.document_asCut _ _)).2

instance (b : Block) (l : Line) : Decidable (b.IsStray l) := inferInstanceAs (Decidable (_ ∧ _))

/-- The mode that the metadata of a block asks for. -/
def statedMode? (b : Block) : Option Capture :=
  (Metadata.ofBlock b).toOption.bind fun m => m.captureMode.toOption

theorem exists_of_statedMode? {b : Block} {mode : Capture} (h : b.statedMode? = some mode) :
    ∃ m, Metadata.ofBlock b = .ok m ∧ m.captureMode.toOption = some mode := by
  unfold statedMode? at h
  cases hm : Metadata.ofBlock b with
  | error e => simp [hm, Except.toOption] at h
  | ok m => exact ⟨m, rfl, by simpa [hm, Except.toOption] using h⟩

def openSource : Text :=
  "//- @pugdoc\n  name: x\n  capture: 'all' # both\np a\np b".toList

theorem capture_eq_captureMode_openSource :
    ∃ b ∈ extract defaultKeyword (Lines.ofText openSource), ∃ m, Metadata.ofBlock b = .ok m ∧
      b.capture = .all ∧ b.capture = m.captureMode.toOption.getD .single := by
  have hfacts : ∃ b ∈ extract defaultKeyword (Lines.ofText openSource),
      b.statedMode? = some .all ∧ (∀ l ∈ b.noteLines, ¬ b.IsStray l) ∧ b.capture = .all ∧
      (entries b.noteLines).isEmpty = false ∧
      ∀ e ∈ entries b.noteLines, e.key = "capture".toList → e.head.indent = b.base ∧
        e.head.text = "capture: 'all' # both".toList ∧ ∀ l ∈ e.body, l.isIdle = true := by
    decide +kernel
  obtain ⟨b, hb, hstated, hstray, hcapture, hempty, hentry⟩ := hfacts
  obtain ⟨m, hm, -⟩ := exists_of_statedMode? hstated
  have hne := List.isEmpty_eq_false_iff.mp hempty
  have hword : PlainWord ['a', 'l', 'l'] :=
    ⟨by simp, Text.tight_of_no_space (by simp; decide), by simp, by simp⟩
  have hspells : Spells ['a', 'l', 'l'] "'all' # both".toList :=
    @Spells.mk _ ['\''] " # both".toList (by simp) (@Trailing.comment [] (by simp) " both".toList)
  have hopen : ∀ e ∈ entries b.noteLines, e.key = "capture".toList → InTheOpen b.base e := by
    intro e he hkey
    obtain ⟨hcolumn, htext, hidle⟩ := hentry e he hkey
    exact ⟨hcolumn, ⟨[' '], "'all' # both".toList, ['a', 'l', 'l'], htext, by simp,
      by simp [Outline.isGap], hword, hspells⟩, hidle⟩
  exact ⟨b, hb, m, hm, hcapture, ((capture_eq_captureMode_iff hb hm).2 hstray hne).2 hopen⟩

/-- A blank between the key and its colon hides the directive from the scan. -/
def hiddenSource : Text := "//- @pugdoc\n  name: x\n  capture : all\np a\np b".toList

theorem capture_ne_captureMode_hiddenSource :
    ¬ ∀ (keyword src : Text) (b : Block) (m : Metadata), b ∈ extract keyword (Lines.ofText src) →
      Metadata.ofBlock b = .ok m → b.capture = m.captureMode.toOption.getD .single := by
  intro hall
  have hfacts : ∃ b ∈ extract defaultKeyword (Lines.ofText hiddenSource),
      b.capture = .single ∧ b.statedMode? = some .all := by
    decide +kernel
  obtain ⟨b, hb, hcapture, hstated⟩ := hfacts
  obtain ⟨m, hm, hmode⟩ := exists_of_statedMode? hstated
  have := hall defaultKeyword hiddenSource b m hb hm
  rw [hcapture, hmode] at this
  cases this

end Block
end TemplateDocs
