import Mathlib
import TemplateDocs.Lines

/-!
# Lines of a text and blanks around it

A text is the join of its lines, and a line is its indentation, a tight text and blanks.
-/
namespace TemplateDocs

namespace Text

section

variable {α : Type} [DecidableEq α]

theorem split_eq_splitOn (sep : α) (t : List α) : split sep t = t.splitOn sep := by
  induction t with
  | nil => rfl
  | cons c t ih =>
    rw [split, ih, List.splitOn_cons_eq_if_modifyHead]
    cases ht : t.splitOn sep with
    | nil => exact absurd ht (List.splitOn_ne_nil sep t)
    | cons piece pieces => simp

theorem length_split (sep : α) (t : List α) : (split sep t).length = t.count sep + 1 := by
  induction t with
  | nil => rfl
  | cons c t ih =>
    rw [split]
    split_ifs with hc
    · rw [List.length_cons, ih, hc, List.count_cons_self]
    · rw [List.count_cons_of_ne hc, ← ih]
      cases hsplit : split sep t with
      | nil => simp [hsplit] at ih
      | cons piece pieces => rfl

theorem not_mem_of_mem_split {sep : α} {t piece : List α} (h : piece ∈ split sep t) :
    sep ∉ piece := by
  induction t generalizing piece with
  | nil =>
    simp only [split, List.mem_singleton] at h
    simp [h]
  | cons c t ih =>
    rw [split] at h
    split_ifs at h with hc
    · rcases List.mem_cons.mp h with rfl | h
      · simp
      · exact ih h
    · cases ht : split sep t with
      | nil =>
        simp only [ht, List.mem_singleton] at h
        simp [h, Ne.symm hc]
      | cons first pieces =>
        simp only [ht, List.mem_cons] at h
        rcases h with rfl | h
        · have := @ih first (by simp [ht])
          simp [this, Ne.symm hc]
        · exact ih (by simp [ht, h])

theorem after?_eq_some_iff {start t rest : List α} : after? start t = some rest ↔ t = start ++ rest := by
  induction start generalizing t with
  | nil => simp [after?]
  | cons a start ih =>
    cases t with
    | nil => simp [after?]
    | cons b t =>
      by_cases h : a = b
      · simp [after?, h, ih]
      · simp [after?, h, Ne.symm h]

end

/-- No blank at either end. -/
structure Tight (t : Text) : Prop where
  head : ∀ c ∈ t.head?, isSpace c = false
  last : ∀ c ∈ t.getLast?, isSpace c = false

theorem trimStart_append {ws : Text} (h : ∀ c ∈ ws, isSpace c = true) (t : Text) :
    trimStart (ws ++ t) = trimStart t := List.dropWhile_append_of_pos h

theorem trimStart_of_head {t : Text} (h : ∀ c ∈ t.head?, isSpace c = false) : trimStart t = t := by
  cases t with
  | nil => rfl
  | cons c t => simp [trimStart, h c (by simp)]

theorem trimEnd_append {ws : Text} (h : ∀ c ∈ ws, isSpace c = true) (t : Text) :
    trimEnd (t ++ ws) = trimEnd t := by
  unfold trimEnd
  rw [List.reverse_append, List.dropWhile_append_of_pos (by simpa using h)]

theorem trimEnd_of_last {t : Text} (h : ∀ c ∈ t.getLast?, isSpace c = false) : trimEnd t = t := by
  unfold trimEnd
  rw [← List.head?_reverse] at h
  rw [show t.reverse.dropWhile isSpace = t.reverse from trimStart_of_head h, List.reverse_reverse]

theorem trim_of_tight {t : Text} (h : Tight t) : trim t = t := by
  rw [trim, trimStart_of_head h.head, trimEnd_of_last h.last]

theorem eq_nil_of_tight_append {t ws : Text} (h : Tight (t ++ ws))
    (hw : ∀ c ∈ ws, isSpace c = true) : ws = [] := by
  rcases List.eq_nil_or_concat ws with rfl | ⟨front, c, rfl⟩
  · rfl
  · have hlast := h.last c (by simp)
    have := hw c (by simp)
    simp [hlast] at this

theorem trim_append_left {ws : Text} (h : ∀ c ∈ ws, isSpace c = true) (t : Text) :
    trim (ws ++ t) = trim t := by
  rw [trim, trim, trimStart_append h]

theorem head_trimStart (t : Text) : ∀ c ∈ (trimStart t).head?, isSpace c = false := by
  intro c hc
  have := List.head?_dropWhile_not isSpace t
  rw [show (t.dropWhile isSpace).head? = some c from hc] at this
  exact this

/-- A text is what trimming leaves and the blanks after it. -/
theorem trimEnd_append_blanks (t : Text) :
    ∃ ws : Text, (∀ c ∈ ws, isSpace c = true) ∧ t = trimEnd t ++ ws := by
  refine ⟨(t.reverse.takeWhile isSpace).reverse, ?_, ?_⟩
  · intro c hc
    exact List.mem_takeWhile_imp (List.mem_reverse.mp hc)
  · unfold trimEnd
    rw [← List.reverse_append, List.takeWhile_append_dropWhile, List.reverse_reverse]

theorem last_trimEnd (t : Text) : ∀ c ∈ (trimEnd t).getLast?, isSpace c = false := by
  unfold trimEnd
  rw [List.getLast?_reverse]
  exact head_trimStart t.reverse

theorem trim_tight (t : Text) : Tight (trim t) := by
  refine ⟨?_, last_trimEnd _⟩
  intro c hc
  obtain ⟨ws, -, he⟩ := trimEnd_append_blanks (trimStart t)
  apply head_trimStart t
  rw [he, List.head?_append, show (trimEnd (trimStart t)).head? = some c from hc]
  rfl

theorem head?_trim_cons {c : Char} (hc : isSpace c = false) (t : Text) :
    (trim (c :: t)).head? = some c := by
  have hstart : trimStart (c :: t) = c :: t := trimStart_of_head (by simpa using hc)
  obtain ⟨ws, hws, he⟩ := trimEnd_append_blanks (c :: t)
  rw [trim, hstart]
  cases ht : trimEnd (c :: t) with
  | nil =>
    rw [ht, List.nil_append] at he
    have := hws c (by rw [← he]; simp)
    simp [hc] at this
  | cons d r =>
    rw [ht, List.cons_append] at he
    rw [(List.cons.inj he).1]
    rfl

theorem tight_of_trim {t : Text} (h : trim t = t) : Tight t := h ▸ trim_tight t

theorem ne_of_isSpace {c d : Char} (hc : isSpace c = false) (hd : isSpace d = true) : d ≠ c := by
  rintro rfl
  rw [hd] at hc
  cases hc

theorem count_blanks {c : Char} (hc : isSpace c = false) {ws : Text}
    (h : ∀ d ∈ ws, isSpace d = true) : ws.count c = 0 := by
  rw [List.count_eq_zero]
  intro hm
  exact ne_of_isSpace hc (h c hm) rfl

theorem mem_trim {t : Text} {c : Char} (h : c ∈ trim t) : c ∈ t := by
  obtain ⟨ws, -, he⟩ := trimEnd_append_blanks (trimStart t)
  have : c ∈ trimStart t := by
    rw [he]
    exact List.mem_append_left _ h
  exact (List.dropWhile_suffix _).subset this

theorem mem_dropWhile_of_not {p : Char → Bool} {t : Text} {c : Char} (h : c ∈ t)
    (hc : p c = false) : c ∈ t.dropWhile p := by
  rw [← List.takeWhile_append_dropWhile (p := p) (l := t)] at h
  rcases List.mem_append.mp h with h | h
  · have := List.mem_takeWhile_imp h
    simp [hc] at this
  · exact h

/-- Trimming drops no character but those it looks for. -/
theorem mem_trimMatches {p : Char → Bool} {t : Text} {c : Char} (h : c ∈ t) (hc : p c = false) :
    c ∈ trimMatches p t := by
  unfold trimMatches
  rw [List.mem_reverse]
  exact mem_dropWhile_of_not (List.mem_reverse.mpr (mem_dropWhile_of_not h hc)) hc

theorem mem_trim_of_not_space {t : Text} {c : Char} (h : c ∈ t) (hc : isSpace c = false) :
    c ∈ trim t := mem_trimMatches h hc

/-- Trimming takes off the ends exactly what they are made of. -/
theorem trimMatches_append {p : Char → Bool} {front core back : Text} (hf : ∀ c ∈ front, p c = true)
    (hb : ∀ c ∈ back, p c = true) (hne : core ≠ []) (hh : ∀ c ∈ core.head?, p c = false)
    (hl : ∀ c ∈ core.getLast?, p c = false) : trimMatches p (front ++ core ++ back) = core := by
  have keep : ∀ {t : Text}, (∀ c ∈ t.head?, p c = false) → t.dropWhile p = t := by
    intro t ht
    cases t with
    | nil => rfl
    | cons c t => simp [ht c (by simp)]
  have hhead : ∀ c ∈ (core ++ back).head?, p c = false := by
    rwa [List.head?_append_of_ne_nil _ hne]
  have hlast : ∀ c ∈ core.reverse.head?, p c = false := by
    rwa [List.head?_reverse]
  unfold trimMatches
  rw [List.append_assoc, List.dropWhile_append_of_pos hf, keep hhead, List.reverse_append,
    List.dropWhile_append_of_pos (by simpa using hb), keep hlast, List.reverse_reverse]

theorem trim_pad {front core back : Text} (hf : ∀ c ∈ front, isSpace c = true)
    (hb : ∀ c ∈ back, isSpace c = true) (hne : core ≠ []) (ht : Tight core) :
    trim (front ++ core ++ back) = core :=
  trimMatches_append hf hb hne ht.head ht.last

theorem count_trimStart {c : Char} (hc : isSpace c = false) (t : Text) :
    (trimStart t).count c = t.count c := by
  have hblank : (t.takeWhile isSpace).count c = 0 :=
    count_blanks hc fun d hd => List.mem_takeWhile_imp hd
  conv_rhs => rw [← @List.takeWhile_append_dropWhile _ isSpace t, List.count_append, hblank,
    Nat.zero_add]
  rfl

/-- Trimming keeps every character that is not blank, as often as it stands there. -/
theorem count_trim {c : Char} (hc : isSpace c = false) (t : Text) : (trim t).count c = t.count c := by
  obtain ⟨ws, hw, he⟩ := trimEnd_append_blanks (trimStart t)
  have hend : (trimStart t).count c = (trim t).count c := by
    conv_lhs => rw [he, List.count_append, count_blanks hc hw]
    rfl
  rw [← hend, count_trimStart hc]

theorem tight_of_no_space {t : Text} (h : ∀ c ∈ t, isSpace c = false) : Tight t :=
  ⟨fun c hc => h c (List.mem_of_mem_head? hc), fun c hc => h c (List.mem_of_mem_getLast? hc)⟩

/-! ### Joined texts -/

theorem join_singleton {α : Type} (sep s : List α) : join sep [s] = s := by simp [join]

theorem join_cons_cons {α : Type} (sep s t : List α) (ts : List (List α)) :
    join sep (s :: t :: ts) = s ++ (sep ++ join sep (t :: ts)) := by
  simp [join, List.intercalate]

/-! ### Order -/

theorem precedes_iff {s t : Text} : precedes s t = true ↔ s < t := by
  induction s generalizing t with
  | nil => cases t <;> simp [precedes]
  | cons c s ih =>
    cases t with
    | nil => simp [precedes]
    | cons d t =>
      rw [precedes, List.cons_lt_cons_iff, ← ih]
      have hcd : c.toNat < d.toNat ↔ c < d := Iff.rfl
      by_cases hlt : c < d
      · simp [hcd, hlt]
      · by_cases heq : c = d <;> simp [hcd, hlt, heq]

theorem precedes_irrefl (t : Text) : precedes t t = false :=
  Bool.eq_false_iff.mpr fun h => lt_irrefl t (precedes_iff.mp h)

theorem precedes_asymm {s t : Text} (h : precedes s t = true) : precedes t s = false :=
  Bool.eq_false_iff.mpr fun h' => lt_asymm (precedes_iff.mp h) (precedes_iff.mp h')

theorem precedes_trans {s t u : Text} (h : precedes s t = true) (h' : precedes t u = true) :
    precedes s u = true :=
  precedes_iff.mpr ((precedes_iff.mp h).trans (precedes_iff.mp h'))

theorem precedes_of_not {s t : Text} (hne : s ≠ t) (h : ¬ precedes s t = true) :
    precedes t s = true := by
  rw [precedes_iff, not_lt] at h
  exact precedes_iff.mpr (lt_of_le_of_ne h (Ne.symm hne))

end Text

namespace Lines

open Text (isSpace trim trimStart trimEnd Tight)

/-- The blanks that a line starts with. -/
def margin (line : Text) : Text := line.takeWhile isSpace

theorem margin_space (line : Text) : ∀ c ∈ margin line, isSpace c = true :=
  fun _ hc => List.mem_takeWhile_imp hc

theorem margin_append_trimStart (line : Text) : margin line ++ trimStart line = line :=
  List.takeWhile_append_dropWhile

theorem margin_length (line : Text) : (margin line).length = indent line := rfl

theorem take_indent (line : Text) : line.take (indent line) = margin line := by
  have h : (margin line ++ trimStart line).take (margin line).length = margin line :=
    List.take_left
  rwa [margin_append_trimStart] at h

theorem indent_append {ws t : Text} (hw : ∀ c ∈ ws, isSpace c = true)
    (ht : ∀ c ∈ t.head?, isSpace c = false) : indent (ws ++ t) = ws.length := by
  unfold indent
  rw [List.takeWhile_append_of_pos hw]
  cases t with
  | nil => simp
  | cons c t => simp [ht c (by simp)]

theorem isBlank_iff_trim {line : Text} : isBlank line = true ↔ trim line = [] := by
  constructor
  · intro h
    have hs : trimStart line = [] := by
      unfold Text.trimStart
      exact List.dropWhile_eq_nil_iff.mpr (List.all_eq_true.mp h)
    simp [trim, hs, Text.trimEnd]
  · intro h
    obtain ⟨ws, hw, he⟩ := Text.trimEnd_append_blanks (trimStart line)
    rw [show trimEnd (trimStart line) = [] from h, List.nil_append] at he
    have hsplit := margin_append_trimStart line
    rw [he] at hsplit
    refine List.all_eq_true.mpr fun c hc => ?_
    rw [← hsplit] at hc
    rcases List.mem_append.mp hc with hc | hc
    · exact margin_space line c hc
    · exact hw c hc

theorem split_toText {ls : Lines} (hne : ls ≠ []) (h : ∀ l ∈ ls, '\n' ∉ l) :
    Text.split '\n' (toText ls) = ls := by
  rw [Text.split_eq_splitOn]
  exact List.splitOn_intercalate '\n' h hne

theorem unifyEnds_append {t : Text} (h : '\r' ∉ t) (rest : Text) :
    unifyEnds (t ++ rest) = t ++ unifyEnds rest := by
  induction t with
  | nil => rfl
  | cons c t ih =>
    rw [List.mem_cons, not_or] at h
    obtain ⟨hc, ht⟩ := h
    have hstep : unifyEnds (c :: (t ++ rest)) = c :: unifyEnds (t ++ rest) := by
      rw [unifyEnds, if_neg (Ne.symm hc)]
      intro t' hr _
      exact hc hr.symm
    rw [List.cons_append, hstep, ih ht]
    rfl

theorem toText_cons_cons (l l' : Text) (ls : Lines) :
    toText (l :: l' :: ls) = l ++ '\n' :: toText (l' :: ls) := by
  simp [toText, Text.join]

theorem mem_toText {ls : Lines} {c : Char} (h : c ∈ toText ls) : c = '\n' ∨ ∃ l ∈ ls, c ∈ l := by
  induction ls with
  | nil => simp [toText, Text.join] at h
  | cons l ls ih =>
    cases ls with
    | nil => exact .inr ⟨l, by simp, by simpa [toText, Text.join] using h⟩
    | cons l' ls =>
      rw [toText_cons_cons, List.mem_append, List.mem_cons] at h
      rcases h with h | h | h
      · exact .inr ⟨l, by simp, h⟩
      · exact .inl h
      · rcases ih h with h | ⟨m, hm, h⟩
        · exact .inl h
        · exact .inr ⟨m, List.mem_cons_of_mem l hm, h⟩

theorem subset_toText {ls : Lines} {l : Text} (h : l ∈ ls) : l ⊆ toText ls := by
  induction ls with
  | nil => cases h
  | cons m ls ih =>
    cases ls with
    | nil =>
      rw [List.mem_singleton.mp h]
      simp [toText, Text.join]
    | cons m' ls =>
      rw [toText_cons_cons]
      rcases List.mem_cons.mp h with rfl | h
      · exact List.subset_append_left _ _
      · exact fun c hc => List.mem_append_right _ (List.mem_cons_of_mem _ (ih h hc))

theorem toText_append {ls ls' : Lines} (h : ls ≠ []) (h' : ls' ≠ []) :
    toText (ls ++ ls') = toText ls ++ '\n' :: toText ls' := by
  induction ls with
  | nil => exact absurd rfl h
  | cons l ls ih =>
    cases ls with
    | nil =>
      obtain ⟨l', ls', rfl⟩ := List.exists_cons_of_ne_nil h'
      rw [List.singleton_append, toText_cons_cons]
      simp [toText, Text.join]
    | cons m ls =>
      rw [List.cons_append, List.cons_append, toText_cons_cons, ← List.cons_append, ih (by simp),
        toText_cons_cons]
      simp

theorem toText_split (t : Text) : toText (Text.split '\n' t) = t := by
  rw [Text.split_eq_splitOn]
  exact List.intercalate_splitOn '\n'

theorem split_toText_append {ls : Lines} (hne : ls ≠ []) (h : ∀ l ∈ ls, '\n' ∉ l) (t : Text) :
    Text.split '\n' (toText ls ++ '\n' :: t) = ls ++ Text.split '\n' t := by
  have hsplit : Text.split '\n' t ≠ [] := by
    rw [Text.split_eq_splitOn]
    exact List.splitOn_ne_nil '\n' t
  conv_lhs => rw [← toText_split t, ← toText_append hne hsplit]
  refine split_toText (by simp [hne]) fun l hl => ?_
  rcases List.mem_append.mp hl with hl | hl
  · exact h l hl
  · exact Text.not_mem_of_mem_split hl

/-- Lines in the scope of a head line, and then a line that is not. -/
theorem scope_append {column : Nat} {inner rest : Lines}
    (hinner : ∀ l ∈ inner, isBlank l = true ∨ column < indent l)
    (hrest : ∀ l ∈ rest.head?, isBlank l = false ∧ indent l ≤ column) :
    scope column (inner ++ rest) = inner ∧ afterScope column (inner ++ rest) = rest := by
  have hin : ∀ l ∈ inner, (isBlank l || decide (column < indent l)) = true := by
    simpa using hinner
  unfold scope afterScope
  rw [List.takeWhile_append_of_pos hin, List.dropWhile_append_of_pos hin]
  cases rest with
  | nil => simp
  | cons l rest =>
    obtain ⟨hblank, hindent⟩ := hrest l (by simp)
    simp [hblank, Nat.not_lt.mpr hindent]

theorem dropBlankEnd_of_last {ls : Lines} {l : Text} (h : ls.getLast? = some l)
    (hl : isBlank l = false) : dropBlankEnd ls = ls := by
  rw [← List.head?_reverse] at h
  obtain ⟨rest, hrest⟩ : ∃ rest, ls.reverse = l :: rest := by
    cases hr : ls.reverse <;> simp_all
  rw [dropBlankEnd, hrest, List.dropWhile_cons_of_neg (by simp [hl]), ← hrest, List.reverse_reverse]

theorem last_dropBlankEnd (ls : Lines) : ∀ l ∈ (dropBlankEnd ls).getLast?, isBlank l = false := by
  intro l hl
  rw [dropBlankEnd, List.getLast?_reverse] at hl
  have := List.head?_dropWhile_not isBlank ls.reverse
  rw [show (ls.reverse.dropWhile isBlank).head? = some l from hl] at this
  exact this

/-- Lines are what is left of them and the blank lines at their end. -/
theorem dropBlankEnd_append_blanks (ls : Lines) :
    ∃ blanks : Lines, (∀ l ∈ blanks, isBlank l = true) ∧ ls = dropBlankEnd ls ++ blanks := by
  refine ⟨(ls.reverse.takeWhile isBlank).reverse, ?_, ?_⟩
  · intro l hl
    exact List.mem_takeWhile_imp (List.mem_reverse.mp hl)
  · rw [dropBlankEnd, ← List.reverse_append, List.takeWhile_append_dropWhile, List.reverse_reverse]

theorem dropBlankEnd_isPrefix (ls : Lines) : dropBlankEnd ls <+: ls := by
  obtain ⟨blanks, -, hsplit⟩ := dropBlankEnd_append_blanks ls
  exact ⟨blanks, hsplit.symm⟩

theorem dedent_zero (ls : Lines) : dedent 0 ls = ls :=
  (List.map_congr_left fun l _ => by simp [dedentLine]).trans (List.map_id ls)

theorem isBlank_append {ws l : Text} (h : ∀ c ∈ ws, isSpace c = true) : isBlank (ws ++ l) = isBlank l := by
  simp [isBlank, List.all_append, List.all_eq_true.mpr h]

theorem indent_append_of_space {ws : Text} (h : ∀ c ∈ ws, isSpace c = true) (l : Text) :
    indent (ws ++ l) = ws.length + indent l := by
  simp [indent, List.takeWhile_append_of_pos h]

end Lines
end TemplateDocs
