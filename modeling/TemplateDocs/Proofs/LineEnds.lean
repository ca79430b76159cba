import Mathlib
import TemplateDocs.Generate
import TemplateDocs.Proofs.Text

/-!
# Line ends

A line may end in LF, in CR LF or in CR, and the ends of one template may differ. A single scan makes
all of them line feeds. It gives what two replacements one after the other give, and the lines are
recovered whatever their ends, with one exception: a CR and the LF of an empty line after it read as
one end. So what is found in a template does not depend on how its lines end.
-/
namespace TemplateDocs

namespace Text

/-- The text with each occurrence of `mark` replaced, from the left; an empty mark is left alone. -/
def replaceAll (mark by_ t : Text) : Text :=
  match hcut : cut? mark t with
  | none => t
  | some (front, rest) =>
    if hmark : mark = [] then t
    else
      have : rest.length < t.length :=
        Nat.lt_of_lt_of_le (Nat.lt_add_of_pos_right (List.length_pos_of_ne_nil hmark)) (cut?_length hcut)
      front ++ by_ ++ replaceAll mark by_ rest
termination_by t.length

theorem replaceChar_cons (c : Char) (by_ : Text) (d : Char) (t : Text) :
    replaceChar c by_ (d :: t) = (if d = c then by_ else [d]) ++ replaceChar c by_ t :=
  List.flatMap_cons

theorem replaceChar_append (c : Char) (by_ s t : Text) :
    replaceChar c by_ (s ++ t) = replaceChar c by_ s ++ replaceChar c by_ t :=
  List.flatMap_append

theorem not_mem_replaceChar {c : Char} {by_ : Text} (h : c ∉ by_) (t : Text) :
    c ∉ replaceChar c by_ t := by
  intro hc
  obtain ⟨d, -, hd⟩ := List.mem_flatMap.mp hc
  split_ifs at hd with heq
  · exact h hd
  · exact heq (List.mem_singleton.mp hd).symm

end Text

namespace Lines

open Text (cut? replaceAll replaceChar)

theorem unifyEnds_of_not_mem {t : Text} (h : '\r' ∉ t) : unifyEnds t = t := by
  simpa [unifyEnds] using unifyEnds_append h []

theorem unifyEnds_feed (t : Text) : unifyEnds ('\n' :: t) = '\n' :: unifyEnds t :=
  unifyEnds_append (t := ['\n']) (by simp) t

theorem unifyEnds_return {t : Text} (h : t.head? ≠ some '\n') :
    unifyEnds ('\r' :: t) = '\n' :: unifyEnds t := by
  rw [unifyEnds, if_pos rfl]
  rintro t' - rfl
  exact h rfl

/-- A CR right before a line feed leaves no trace. -/
theorem unifyEnds_return_of_feed {t : Text} (h : t.head? = some '\n') :
    unifyEnds ('\r' :: t) = unifyEnds t := by
  obtain ⟨t, rfl⟩ := List.head?_eq_some_iff.mp h
  rw [unifyEnds_feed, unifyEnds]

/-- Where no CR LF starts, a character is handled by itself. -/
theorem cut?_cons_of_no_pair {c : Char} {t : Text} (h : ∀ t', c = '\r' → t = '\n' :: t' → False) :
    cut? ['\r', '\n'] (c :: t) = (cut? ['\r', '\n'] t).map fun p => (c :: p.1, p.2) := by
  have hnone : Text.after? ['\r', '\n'] (c :: t) = none := by
    rw [Option.eq_none_iff_forall_ne_some]
    intro rest hrest
    obtain ⟨hc, ht⟩ := List.cons.inj (Text.after?_eq_some_iff.mp hrest)
    exact h rest hc ht
  rw [cut?, hnone]

theorem unifyEnds_of_cut?_eq_none {t : Text} (h : cut? ['\r', '\n'] t = none) :
    unifyEnds t = replaceChar '\r' ['\n'] t := by
  fun_induction unifyEnds t with
  | case1 => rfl
  | case2 t ih => simp [cut?, Text.after?] at h
  | case3 c t hpair ih =>
    rw [cut?_cons_of_no_pair hpair, Option.map_eq_none_iff] at h
    rw [ih h, Text.replaceChar_cons]
    split_ifs <;> rfl

theorem unifyEnds_of_cut?_eq_some {t front rest : Text} (h : cut? ['\r', '\n'] t = some (front, rest)) :
    unifyEnds t = replaceChar '\r' ['\n'] front ++ '\n' :: unifyEnds rest := by
  fun_induction unifyEnds t generalizing front with
  | case1 => simp [cut?, Text.after?] at h
  | case2 t ih =>
    obtain ⟨rfl, rfl⟩ : [] = front ∧ t = rest := by simpa [cut?, Text.after?] using h
    rfl
  | case3 c t hpair ih =>
    rw [cut?_cons_of_no_pair hpair, Option.map_eq_some_iff] at h
    obtain ⟨⟨front', rest'⟩, hcut, heq⟩ := h
    obtain ⟨rfl, rfl⟩ := Prod.mk.inj heq
    rw [ih hcut, Text.replaceChar_cons]
    split_ifs <;> rfl

/-- One scan from left to right does what two replacements do, first of each CR LF and then of each
CR that is left. -/
theorem unifyEnds_eq_replace (t : Text) :
    unifyEnds t = replaceChar '\r' ['\n'] (replaceAll ['\r', '\n'] ['\n'] t) := by
  fun_induction replaceAll ['\r', '\n'] ['\n'] t with
  | case1 t hcut => exact unifyEnds_of_cut?_eq_none hcut
  | case2 t front rest hcut hmark => cases hmark
  | case3 t front rest hcut hmark _ ih =>
    rw [unifyEnds_of_cut?_eq_some hcut, ih, Text.replaceChar_append, Text.replaceChar_append]
    simp [replaceChar]

theorem return_not_mem_unifyEnds (t : Text) : '\r' ∉ unifyEnds t := by
  rw [unifyEnds_eq_replace]
  exact Text.not_mem_replaceChar (by decide) _

end Lines

/-- How a line ends. -/
inductive LineEnd where
  | feed | returnFeed | bareReturn
  deriving DecidableEq, Repr

def LineEnd.text : LineEnd → Text
  | .feed => ['\n']
  | .returnFeed => ['\r', '\n']
  | .bareReturn => ['\r']

/-- A line that holds no part of a line end. -/
abbrev BareLine := { l : Text // '\r' ∉ l ∧ '\n' ∉ l }

/-- Lines, each with the end that is written after it, and the line after the last end. -/
structure EndedLines where
  ended : List (BareLine × LineEnd)
  last : BareLine

namespace EndedLines

open Lines (toText unifyEnds)

def text (w : EndedLines) : Text := (w.ended.flatMap fun p => p.1.1 ++ p.2.text) ++ w.last.1

def lines (w : EndedLines) : Lines := (w.ended.map fun p => p.1.1) ++ [w.last.1]

/-- No CR stands before an empty line that ends in LF: they would read as one end. -/
def Apart (w : EndedLines) : Prop :=
  w.ended.IsChain fun p q => ¬ (p.2 = .bareReturn ∧ q.1.1 = [] ∧ q.2 = .feed)

variable (l : BareLine) (e : LineEnd) (ended : List (BareLine × LineEnd)) (last : BareLine)

theorem text_cons : text ⟨(l, e) :: ended, last⟩ = l.1 ++ (e.text ++ text ⟨ended, last⟩) := by
  simp [text]

theorem toText_lines_cons :
    toText (lines ⟨(l, e) :: ended, last⟩) = l.1 ++ '\n' :: toText (lines ⟨ended, last⟩) := by
  have hrest : lines ⟨ended, last⟩ ≠ [] := by simp [lines]
  rw [show lines ⟨(l, e) :: ended, last⟩ = [l.1] ++ lines ⟨ended, last⟩ from rfl,
    Lines.toText_append (by simp) hrest]
  simp [toText, Text.join]

theorem apart_cons : Apart ⟨(l, e) :: ended, last⟩ ↔
    (∀ p ∈ ended.head?, ¬ (e = .bareReturn ∧ p.1.1 = [] ∧ p.2 = .feed)) ∧ Apart ⟨ended, last⟩ :=
  List.isChain_cons

/-- A text begins with a line feed exactly if its first line is empty and ends in one. -/
theorem head?_text_eq_feed_iff :
    (text ⟨ended, last⟩).head? = some '\n' ↔ ∃ p ∈ ended.head?, p.1.1 = [] ∧ p.2 = .feed := by
  cases ended with
  | nil =>
    have hfeed : last.1.head? ≠ some '\n' := fun h => last.2.2 (List.mem_of_head? h)
    simpa [text] using hfeed
  | cons p ended =>
    obtain ⟨⟨l, -, hl⟩, e⟩ := p
    rw [text_cons]
    cases l with
    | nil => cases e <;> simp [LineEnd.text]
    | cons c l => simp [show c ≠ '\n' from fun h => hl (h ▸ List.mem_cons_self)]

/-- An end is scanned as one line feed, unless it is a CR and a line feed comes next. -/
theorem unifyEnds_end {e : LineEnd} {rest : Text} (h : ¬ (e = .bareReturn ∧ rest.head? = some '\n')) :
    unifyEnds (e.text ++ rest) = '\n' :: unifyEnds rest := by
  cases e with
  | feed => exact Lines.unifyEnds_feed rest
  | returnFeed =>
    rw [← Lines.unifyEnds_feed]
    exact Lines.unifyEnds_return_of_feed rfl
  | bareReturn => exact Lines.unifyEnds_return fun hrest => h ⟨rfl, hrest⟩

theorem unifyEnds_end_of_feed {e : LineEnd} {rest : Text} (he : e = .bareReturn)
    (hrest : rest.head? = some '\n') : unifyEnds (e.text ++ rest) = unifyEnds rest := by
  subst he
  exact Lines.unifyEnds_return_of_feed hrest

theorem length_unifyEnds_text_le :
    (unifyEnds (text ⟨ended, last⟩)).length ≤ (toText (lines ⟨ended, last⟩)).length := by
  induction ended with
  | nil => simp [text, lines, toText, Text.join, Lines.unifyEnds_of_not_mem last.2.1]
  | cons p ended ih =>
    obtain ⟨l, e⟩ := p
    rw [text_cons, Lines.unifyEnds_append l.2.1, toText_lines_cons, List.length_append,
      List.length_append, List.length_cons]
    by_cases h : e = .bareReturn ∧ (text ⟨ended, last⟩).head? = some '\n'
    · rw [unifyEnds_end_of_feed h.1 h.2]
      omega
    · rw [unifyEnds_end h, List.length_cons]
      omega

/-- The lines are recovered exactly if no two ends read as one. -/
theorem unifyEnds_text_eq_iff (w : EndedLines) : unifyEnds w.text = toText w.lines ↔ w.Apart := by
  obtain ⟨ended, last⟩ := w
  induction ended with
  | nil =>
    have hlast := Lines.unifyEnds_of_not_mem last.2.1
    simp [text, lines, Apart, toText, Text.join, hlast]
  | cons p ended ih =>
    obtain ⟨l, e⟩ := p
    rw [text_cons, Lines.unifyEnds_append l.2.1, toText_lines_cons, List.append_cancel_left_eq,
      apart_cons]
    by_cases h : e = .bareReturn ∧ (text ⟨ended, last⟩).head? = some '\n'
    · -- The CR takes the feed of the empty line, and the text comes out too short.
      obtain ⟨p, hp, hempty⟩ := (head?_text_eq_feed_iff ended last).mp h.2
      refine iff_of_false (fun heq => ?_) fun hapart => hapart.1 p hp ⟨h.1, hempty⟩
      have hshort := length_unifyEnds_text_le ended last
      rw [← unifyEnds_end_of_feed h.1 h.2, heq, List.length_cons] at hshort
      omega
    · have hhead : ∀ p ∈ ended.head?, ¬ (e = .bareReturn ∧ p.1.1 = [] ∧ p.2 = .feed) :=
        fun p hp hmerged => h ⟨hmerged.1, (head?_text_eq_feed_iff ended last).mpr ⟨p, hp, hmerged.2⟩⟩
      rw [unifyEnds_end h, List.cons_inj_right, ih, and_iff_right hhead]

end EndedLines

/-- No text keeps a CR, and a second scan changes nothing. The lines of a text are recovered from it,
whatever ends they are written with, exactly if no CR stands before an empty line that ends in LF, and
then the text gives the findings of the lines joined by line feeds. -/
theorem line_ends_do_not_matter :
    (∀ t, '\r' ∉ Lines.unifyEnds t ∧ Lines.unifyEnds (Lines.unifyEnds t) = Lines.unifyEnds t) ∧
    ∀ w : EndedLines, (Lines.unifyEnds w.text = Lines.toText w.lines ↔ w.Apart) ∧
      (w.Apart → ∀ (engine : Engine) (keyword : Text) (globals : Locals) (file : Text),
        generateSource engine keyword globals file w.text =
          generateSource engine keyword globals file (Lines.toText w.lines)) := by
  have hstable : ∀ t, Lines.unifyEnds (Lines.unifyEnds t) = Lines.unifyEnds t := fun t =>
    Lines.unifyEnds_of_not_mem (Lines.return_not_mem_unifyEnds t)
  refine ⟨fun t => ⟨Lines.return_not_mem_unifyEnds t, hstable t⟩, ?_⟩
  refine fun w => ⟨w.unifyEnds_text_eq_iff, ?_⟩
  intro hapart engine keyword globals file
  have hlines := w.unifyEnds_text_eq_iff.mpr hapart
  have hjoined : Lines.unifyEnds (Lines.toText w.lines) = Lines.unifyEnds w.text := by
    rw [← hlines, hstable]
  rw [generateSource, generateSource, hjoined]

/-- A block whose lines end in all three ways, with empty lines between two returns and before CR LF. -/
def mixedEnds : EndedLines where
  ended := [(⟨"//- @pugdoc".toList, by decide⟩, .returnFeed),
    (⟨"  name: a".toList, by decide⟩, .bareReturn), (⟨[], by decide⟩, .bareReturn),
    (⟨[], by decide⟩, .returnFeed), (⟨"p x".toList, by decide⟩, .feed)]
  last := ⟨[], by decide⟩

theorem line_ends_do_not_matter_mixedEnds :
    mixedEnds.Apart ∧
    mixedEnds.text = "//- @pugdoc\r\n  name: a\r\r\r\np x\n".toList ∧
    ∀ (engine : Engine) (keyword : Text) (globals : Locals) (file : Text),
      generateSource engine keyword globals file mixedEnds.text =
        generateSource engine keyword globals file "//- @pugdoc\n  name: a\n\n\np x\n".toList := by
  have hapart : mixedEnds.Apart := by
    unfold EndedLines.Apart mixedEnds
    decide
  refine ⟨hapart, by decide, ?_⟩
  exact (line_ends_do_not_matter.2 mixedEnds).2 hapart

end TemplateDocs
