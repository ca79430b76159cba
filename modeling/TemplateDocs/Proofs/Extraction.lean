import Mathlib
import TemplateDocs.Block
import TemplateDocs.Proofs.Text

/-!
# Which lines a block takes

A marker line opens a block. Here its annotation and its code are described by line numbers alone:
where each of them ends is the least number at which a line says so. `extract` finds exactly the
blocks described.
-/
namespace TemplateDocs.Block

open Lines (indent isBlank)

/-! ### The description -/

/-- Numbers after `m` where the scope of a line at `column` can end. -/
def scopeEnds (ls : Lines) (column m : Nat) : Set Nat :=
  {i | m < i ∧ (i = ls.length ∨
    ∃ line, ls[i]? = some line ∧ isBlank line = false ∧ indent line ≤ column)}

/-- Whether a line starts a code block at `column`. -/
def isHead (column : Nat) (line : Text) : Bool := !isBlank line && decide (indent line = column)

/-- Whether a capture mode asks for `n` code blocks and no more. -/
def AsksFor (capture : Capture) (n : Nat) : Prop := capture = .single ∧ n = 1 ∨ capture = .count n

/-- Whether the code ends before `line` when the lines of `code` were taken. -/
def Stops (column : Nat) (capture : Capture) (code : Lines) (line : Text) : Prop :=
  isBlank line = false ∧ (indent line < column ∨
    indent line = column ∧ ∃ n, AsksFor capture n ∧ n ≤ code.countP (isHead column))

/-- Numbers from `a` on where code that starts on line `a` can end. -/
def codeEnds (ls : Lines) (column : Nat) (capture : Capture) (a : Nat) : Set Nat :=
  {i | a ≤ i ∧ (i = ls.length ∨
    ∃ line, ls[i]? = some line ∧ Stops column capture (ls.extract a i) line)}

/-- The capture mode of a block whose marker and annotation are the lines from `m` to `a`. -/
def captureBetween (ls : Lines) (m a : Nat) : Capture :=
  announcedCapture ((Lines.dropBlankEnd (ls.extract m a)).drop 1)

/-- The lines that the marker on line `m` is about. -/
structure Extent (marker : Text) (ls : Lines) (m : Nat) where
  head : Text
  /-- The first line after the annotation. -/
  notesEnd : Nat
  /-- The first line after the code. -/
  codeEnd : Nat
  head_eq : ls[m]? = some head
  marker_eq : Text.trim head = marker
  notesEnd_least : IsLeast (scopeEnds ls (indent head) m) notesEnd
  codeEnd_least :
    IsLeast (codeEnds ls (indent head) (captureBetween ls m notesEnd) notesEnd) codeEnd

namespace Extent

variable {marker : Text} {ls : Lines} {m : Nat} (x : Extent marker ls m)

def comment : Lines := Lines.dropBlankEnd (ls.extract m x.notesEnd)

def capture : Capture := captureBetween ls m x.notesEnd

def window : Lines := ls.extract x.notesEnd x.codeEnd

/-- The window, which a section ends at its first marker, without blank lines at its end. -/
def code : Lines :=
  Lines.dropBlankEnd
    (if x.capture = .untilMarker then x.window.takeWhile fun line => Text.trim line ≠ marker
    else x.window)

/-- A marker with neither annotation nor code. -/
def Discarded : Prop := x.comment.length = 1 ∧ x.code = []

/-- A line of the code as it is handed on. -/
def deliver (column : Nat) (line : Text) : Text :=
  (line.drop (min column (indent line))).filter fun c => c ≠ '\u2028' ∧ c ≠ '\u200b'

def block : Block where
  line := m + 1
  column := indent x.head
  comment := x.comment
  code := x.code.map (deliver (indent x.head))
  capture := x.capture

end Extent

/-! ### Where a scan ends -/

theorem takeWhile_length_least (p : Text → Bool) (ls : Lines) :
    IsLeast {i | i = ls.length ∨ ∃ line, ls[i]? = some line ∧ p line = false}
      (ls.takeWhile p).length := by
  induction ls with
  | nil => exact ⟨.inl rfl, fun i _ => Nat.zero_le i⟩
  | cons l ls ih =>
    cases hp : p l with
    | false =>
      rw [List.takeWhile_cons_of_neg (by simp [hp])]
      exact ⟨.inr ⟨l, rfl, hp⟩, fun i _ => Nat.zero_le i⟩
    | true =>
      rw [List.takeWhile_cons_of_pos hp, List.length_cons]
      refine ⟨?_, ?_⟩
      · rcases ih.1 with h | ⟨line, h, hl⟩
        · exact .inl (by simp [h])
        · exact .inr ⟨line, by simpa using h, hl⟩
      · rintro (_ | i) hi
        · rcases hi with hi | ⟨line, hi, hl⟩
          · simp at hi
          · simp only [List.length_cons, Nat.zero_lt_succ, getElem?_pos, List.getElem_cons_zero,
              Option.some.injEq] at hi
            rw [hi, hl] at hp
            cases hp
        · refine Nat.succ_le_succ (ih.2 ?_)
          rcases hi with hi | ⟨line, hi, hl⟩
          · exact .inl (by simpa using hi)
          · exact .inr ⟨line, by simpa using hi, hl⟩

theorem afterScope_head (column : Nat) (ls : Lines) :
    ∀ l ∈ (Lines.afterScope column ls).head?, isBlank l = false ∧ indent l ≤ column := by
  intro l hl
  have := List.head?_dropWhile_not (fun l => isBlank l || column < indent l) ls
  rw [show (ls.dropWhile fun l => isBlank l || decide (column < indent l)).head? = some l from hl] at this
  simpa using this

theorem codeBlocks_isPrefix (column : Nat) (bound : Option Nat) (w : Lines) :
    codeBlocks column bound w <+: w := by
  fun_induction codeBlocks column bound w with
  | case1 => exact List.prefix_rfl
  | case2 => exact List.nil_prefix
  | case3 bound head rest _ _ ih =>
    have hsplit := Lines.scope_append_afterScope column rest
    rw [List.cons_append]
    refine List.cons_prefix_cons.mpr ⟨rfl, ?_⟩
    conv_rhs => rw [← hsplit]
    exact (List.prefix_append_right_inj _).mpr ih

/-- Numbers where code blocks can end, in lines that start with the first of them. -/
def blockEnds (column : Nat) (bound : Option Nat) (w : Lines) : Set Nat :=
  {i | i = w.length ∨ ∃ line, w[i]? = some line ∧ isBlank line = false ∧ (indent line < column ∨
    indent line = column ∧ ∃ n ∈ bound, n ≤ (w.take i).countP (isHead column))}

theorem countP_scope (column : Nat) (ls : Lines) :
    (Lines.scope column ls).countP (isHead column) = 0 := by
  rw [List.countP_eq_zero]
  intro l hl
  have := List.mem_takeWhile_imp hl
  simp only [isHead, Bool.and_eq_true, Bool.not_eq_true', decide_eq_true_eq, not_and]
  intro hb
  simp only [hb, Bool.false_or, decide_eq_true_eq] at this
  omega

/-- Past a head line and its scope, code ends as it does in the lines after the scope. -/
theorem mem_blockEnds_cons {column : Nat} {bound : Option Nat} {head : Text} {rest : Lines}
    (hhead : isHead column head = true) (hbound : bound ≠ some 0) (i : Nat) :
    i + (Lines.scope column rest).length + 1 ∈ blockEnds column bound (head :: rest) ↔
      i ∈ blockEnds column (bound.map (· - 1)) (Lines.afterScope column rest) := by
  have hsplit := Lines.scope_append_afterScope column rest
  have hlength : rest.length =
      (Lines.scope column rest).length + (Lines.afterScope column rest).length := by
    rw [← List.length_append, hsplit]
  have hget : rest[i + (Lines.scope column rest).length]? = (Lines.afterScope column rest)[i]? := by
    have := @List.getElem?_append_right _ (Lines.scope column rest) (Lines.afterScope column rest)
      (i + (Lines.scope column rest).length) (Nat.le_add_left _ _)
    rwa [hsplit, Nat.add_sub_cancel] at this
  have htake : rest.take (i + (Lines.scope column rest).length) =
      Lines.scope column rest ++ (Lines.afterScope column rest).take i := by
    have := @List.take_length_add_append _ (Lines.scope column rest) (Lines.afterScope column rest) i
    rwa [hsplit, Nat.add_comm] at this
  have hcount : ((head :: rest).take (i + (Lines.scope column rest).length + 1)).countP (isHead column)
      = ((Lines.afterScope column rest).take i).countP (isHead column) + 1 := by
    rw [List.take_succ_cons, htake, List.countP_cons_of_pos hhead, List.countP_append, countP_scope,
      Nat.zero_add]
  have hmore : ∀ k, (∃ n ∈ bound, n ≤ k + 1) ↔ ∃ n ∈ bound.map (· - 1), n ≤ k := by
    intro k
    cases bound with
    | none => simp
    | some n =>
      have : n ≠ 0 := fun h => hbound (by rw [h])
      simp only [Option.mem_some_iff, exists_eq_left', Option.map_some]
      omega
  simp only [blockEnds, Set.mem_ofPred_eq, List.getElem?_cons_succ, hget, hcount, hmore,
    List.length_cons]
  refine or_congr ?_ Iff.rfl
  omega

theorem codeBlocks_length_least {column : Nat} (bound : Option Nat) {w : Lines}
    (hw : ∀ l ∈ w.head?, isBlank l = false ∧ indent l ≤ column) :
    IsLeast (blockEnds column bound w) (codeBlocks column bound w).length := by
  fun_induction codeBlocks column bound w with
  | case1 => exact ⟨.inl rfl, fun i _ => Nat.zero_le i⟩
  | case2 bound head rest h =>
    obtain ⟨hblank, hle⟩ := hw head (by simp)
    refine ⟨.inr ⟨head, rfl, hblank, ?_⟩, fun i _ => Nat.zero_le i⟩
    rcases h with rfl | h
    · rcases Nat.lt_or_eq_of_le hle with hlt | heq
      · exact .inl hlt
      · exact .inr ⟨heq, 0, rfl, Nat.zero_le _⟩
    · exact .inl h
  | case3 bound head rest h _ ih =>
    obtain ⟨hblank, hle⟩ := hw head (by simp)
    obtain ⟨hbound, hge⟩ := not_or.mp h
    have hindent : indent head = column := by omega
    have hhead : isHead column head = true := by simp [isHead, hblank, hindent]
    have hleast := ih (afterScope_head column rest)
    have hlength : (head :: Lines.scope column rest ++
        codeBlocks column (bound.map (· - 1)) (Lines.afterScope column rest)).length =
        (codeBlocks column (bound.map (· - 1)) (Lines.afterScope column rest)).length +
          (Lines.scope column rest).length + 1 := by
      simp only [List.cons_append, List.length_cons, List.length_append]
      omega
    rw [hlength]
    refine ⟨(mem_blockEnds_cons hhead hbound _).mpr hleast.1, ?_⟩
    intro i hi
    -- the head line itself ends nothing, and no line of its scope does
    by_cases hscope : (Lines.scope column rest).length + 1 ≤ i
    · obtain ⟨k, rfl⟩ := Nat.exists_eq_add_of_le hscope
      have hk : k ∈ blockEnds column (bound.map (· - 1)) (Lines.afterScope column rest) := by
        rw [← mem_blockEnds_cons hhead hbound]
        convert hi using 1
        omega
      have := hleast.2 hk
      omega
    · exfalso
      have hsplit := Lines.scope_append_afterScope column rest
      rcases hi with hi | ⟨line, hget, hline, hi⟩
      · have := (List.takeWhile_prefix (fun l => isBlank l || column < indent l) (l := rest)).length_le
        rw [List.length_cons] at hi
        exact hscope (hi ▸ Nat.succ_le_succ this)
      · cases i with
        | zero =>
          simp only [List.getElem?_cons_zero, Option.some.injEq] at hget
          subst hget
          rcases hi with hi | ⟨-, n, hn, hzero⟩
          · omega
          · simp only [List.take_zero, List.countP_nil, Nat.le_zero] at hzero
            exact hbound (by rw [Option.mem_def.mp hn, hzero])
        | succ i =>
          rw [List.getElem?_cons_succ, ← hsplit, List.getElem?_append_left (by omega)] at hget
          have := List.mem_takeWhile_imp (List.mem_of_getElem? hget)
          simp only [hline, Bool.false_or, decide_eq_true_eq] at this
          rcases hi with hi | ⟨hi, -⟩ <;> omega

/-! ### Positions in the whole template -/

theorem mem_bound?_iff {capture : Capture} {n : Nat} : n ∈ capture.bound? ↔ AsksFor capture n := by
  cases capture <;> simp [Capture.bound?, AsksFor, eq_comm]

theorem extract_add (ls : Lines) (a k : Nat) : ls.extract a (a + k) = (ls.drop a).take k := by
  rw [List.extract_eq_take_drop, Nat.add_sub_cancel_left]

theorem scope_length_least {ls : Lines} {m : Nat} (hm : m < ls.length) (column : Nat) :
    IsLeast (scopeEnds ls column m) (m + 1 + (Lines.scope column (ls.drop (m + 1))).length) := by
  have hleast := takeWhile_length_least (fun l => isBlank l || decide (column < indent l))
    (ls.drop (m + 1))
  have hiff : ∀ k, m + 1 + k ∈ scopeEnds ls column m ↔ k ∈ {i | i = (ls.drop (m + 1)).length ∨
      ∃ line, (ls.drop (m + 1))[i]? = some line ∧
        (isBlank line || decide (column < indent line)) = false} := by
    intro k
    simp only [scopeEnds, Set.mem_ofPred_eq, List.length_drop, List.getElem?_drop,
      Bool.or_eq_false_iff, decide_eq_false_iff_not, Nat.not_lt]
    have hend : m + 1 + k = ls.length ↔ k = ls.length - (m + 1) := by omega
    have hafter : m < m + 1 + k := by omega
    simp only [hend, hafter, true_and]
  refine ⟨(hiff _).mpr hleast.1, ?_⟩
  intro i hi
  obtain ⟨k, rfl⟩ := Nat.exists_eq_add_of_le (show m + 1 ≤ i from hi.1)
  exact Nat.add_le_add_left (hleast.2 ((hiff k).mp hi)) _

/-- Up to where its scope ends, a head line is followed by the lines of its scope. -/
theorem extract_scopeEnd {ls : Lines} {m stop column : Nat} {head : Text} (hhead : ls[m]? = some head)
    (hstop : IsLeast (scopeEnds ls column m) stop) :
    ls.extract m stop = head :: Lines.scope column (ls.drop (m + 1)) := by
  obtain ⟨hm, hget⟩ := List.getElem?_eq_some_iff.mp hhead
  have hprefix : Lines.scope column (ls.drop (m + 1)) <+: ls.drop (m + 1) := List.takeWhile_prefix _
  rw [hstop.unique (scope_length_least hm column), Nat.add_right_comm, Nat.add_assoc, extract_add,
    List.drop_eq_getElem_cons hm, hget, List.take_succ_cons, ← List.prefix_iff_eq_take.mp hprefix]

theorem codeBlocks_least {ls : Lines} {column a : Nat} (capture : Capture) (ha : a ≤ ls.length)
    (hhead : ∀ l ∈ (ls.drop a).head?, isBlank l = false ∧ indent l ≤ column) :
    IsLeast (codeEnds ls column capture a)
      (a + (codeBlocks column capture.bound? (ls.drop a)).length) := by
  have hleast := codeBlocks_length_least capture.bound? hhead
  have hiff : ∀ k, a + k ∈ codeEnds ls column capture a ↔
      k ∈ blockEnds column capture.bound? (ls.drop a) := by
    intro k
    have hend : a + k = ls.length ↔ k = ls.length - a := by omega
    simp only [codeEnds, blockEnds, Stops, Set.mem_ofPred_eq, List.length_drop, List.getElem?_drop,
      extract_add, mem_bound?_iff, hend, Nat.le_add_right, true_and]
  refine ⟨(hiff _).mpr hleast.1, ?_⟩
  intro i hi
  obtain ⟨k, rfl⟩ := Nat.exists_eq_add_of_le hi.1
  exact Nat.add_le_add_left (hleast.2 ((hiff k).mp hi)) _

namespace Extent

variable {marker : Text} {ls : Lines} {m : Nat}

theorem lt_length (x : Extent marker ls m) : m < ls.length :=
  (List.getElem?_eq_some_iff.mp x.head_eq).1

/-- The lines after the marker that belong to its scope. -/
def scope (x : Extent marker ls m) : Lines := Lines.scope (indent x.head) (ls.drop (m + 1))

theorem notesEnd_eq (x : Extent marker ls m) : x.notesEnd = m + 1 + x.scope.length :=
  x.notesEnd_least.unique (scope_length_least x.lt_length _)

theorem notesEnd_le (x : Extent marker ls m) : x.notesEnd ≤ ls.length :=
  x.notesEnd_least.2 ⟨x.lt_length, .inl rfl⟩

theorem annotated_eq (x : Extent marker ls m) : ls.extract m x.notesEnd = x.head :: x.scope :=
  extract_scopeEnd x.head_eq x.notesEnd_least

theorem drop_notesEnd (x : Extent marker ls m) :
    ls.drop x.notesEnd = Lines.afterScope (indent x.head) (ls.drop (m + 1)) := by
  have hsplit := Lines.scope_append_afterScope (indent x.head) (ls.drop (m + 1))
  rw [x.notesEnd_eq, ← List.drop_drop]
  conv_lhs => rw [← hsplit]
  exact List.drop_left

theorem window_eq (x : Extent marker ls m) :
    x.window = codeBlocks (indent x.head) x.capture.bound? (ls.drop x.notesEnd) := by
  have hhead : ∀ l ∈ (ls.drop x.notesEnd).head?, isBlank l = false ∧ indent l ≤ indent x.head := by
    rw [x.drop_notesEnd]
    exact afterScope_head _ _
  have hend := x.codeEnd_least.unique (codeBlocks_least x.capture x.notesEnd_le hhead)
  rw [window, hend, extract_add]
  exact (List.prefix_iff_eq_take.mp (codeBlocks_isPrefix _ _ _)).symm

theorem ofMarker?_eq_some_iff (x : Extent marker ls m) {b : Block} :
    ofMarker? marker (m + 1) x.head (ls.drop (m + 1)) = some b ↔ ¬ x.Discarded ∧ b = x.block := by
  have hcomment : x.comment = Lines.dropBlankEnd (x.head :: x.scope) := by
    rw [comment, x.annotated_eq]
  have hcapture : x.capture = announcedCapture (x.comment.drop 1) := rfl
  have hcode : x.code = Lines.dropBlankEnd
      (if x.capture = .untilMarker then
        (codeBlocks (indent x.head) x.capture.bound?
          (Lines.afterScope (indent x.head) (ls.drop (m + 1)))).takeWhile fun l => !isMarker marker l
      else codeBlocks (indent x.head) x.capture.bound?
        (Lines.afterScope (indent x.head) (ls.drop (m + 1)))) := by
    simp only [code, x.window_eq, x.drop_notesEnd, isMarker, ne_eq, decide_not]
  have hdelivered : (Lines.dedent (indent x.head) x.code).map (fun l => l.filter fun c => !isInvisible c)
      = x.code.map (deliver (indent x.head)) := by
    rw [Lines.dedent, List.map_map]
    refine List.map_congr_left fun l _ => ?_
    simp [deliver, Lines.dedentLine, isInvisible, Nat.min_comm]
  unfold ofMarker?
  simp only [← show x.scope = Lines.scope (indent x.head) (ls.drop (m + 1)) from rfl, ← hcomment,
    ← hcapture, ← hcode, hdelivered]
  by_cases h : x.comment.length = 1 ∧ x.code = []
  · have hdiscarded : x.Discarded := h
    rw [if_pos h]
    simp [hdiscarded]
  · rw [if_neg h, Option.some.injEq]
    exact ⟨fun hb => ⟨h, hb.symm⟩, fun hb => hb.2.symm⟩

theorem getElem?_window {x : Extent marker ls m} {i : Nat} {l : Text} (h : x.window[i]? = some l) :
    ls[x.notesEnd + i]? = some l ∧ x.notesEnd + i < x.codeEnd := by
  simp only [window, List.extract_eq_take_drop, List.getElem?_take, List.getElem?_drop] at h
  split_ifs at h with hi
  exact ⟨h, by omega⟩

theorem le_indent_of_mem_window {x : Extent marker ls m} {l : Text} (h : l ∈ x.window)
    (hl : isBlank l = false) : indent x.head ≤ indent l := by
  obtain ⟨i, hi⟩ := List.mem_iff_getElem?.mp h
  obtain ⟨hget, hlt⟩ := getElem?_window hi
  by_contra hless
  -- otherwise the code would have ended before this line
  have hend := x.codeEnd_least.2 (show x.notesEnd + i ∈ _ from
    ⟨Nat.le_add_right _ _, .inr ⟨l, hget, hl, .inl (Nat.lt_of_not_le hless)⟩⟩)
  omega

theorem indent_window_head {x : Extent marker ls m} {l : Text} (h : l ∈ x.window.head?) :
    isBlank l = false ∧ indent l = indent x.head := by
  have hmem : l ∈ x.window := List.mem_of_mem_head? h
  rw [List.head?_eq_getElem?] at h
  obtain ⟨hget, -⟩ := getElem?_window h
  rw [Nat.add_zero] at hget
  rcases x.notesEnd_least.1.2 with hend | ⟨line, hline, hblank, hle⟩
  · rw [hend, List.getElem?_eq_none_iff.mpr (Nat.le_refl _)] at hget
    cases hget
  · obtain rfl : line = l := Option.some.inj (hline.symm.trans hget)
    exact ⟨hblank, Nat.le_antisymm hle (le_indent_of_mem_window hmem hblank)⟩

theorem code_isPrefix (x : Extent marker ls m) : x.code <+: x.window := by
  unfold code
  split_ifs
  · exact (Lines.dropBlankEnd_isPrefix _).trans (List.takeWhile_prefix _)
  · exact Lines.dropBlankEnd_isPrefix _

theorem code_subset (x : Extent marker ls m) : x.code ⊆ ls := by
  intro l hl
  obtain ⟨i, hi⟩ := List.mem_iff_getElem?.mp (x.code_isPrefix.subset hl)
  exact List.mem_of_getElem? (getElem?_window hi).1

/-- The code starts on the line after the annotation, at the marker's column. -/
theorem code_head {x : Extent marker ls m} {l : Text} (h : l ∈ x.code.head?) :
    ls[x.notesEnd]? = some l ∧ isBlank l = false ∧ indent l = indent x.head := by
  have hwindow : x.window.head? = some l := by
    obtain ⟨rest, hrest⟩ := x.code_isPrefix
    rw [← hrest, List.head?_append, Option.mem_def.mp h]
    rfl
  have hget := hwindow
  rw [List.head?_eq_getElem?] at hget
  exact ⟨(getElem?_window hget).1, indent_window_head hwindow⟩

theorem unique (x y : Extent marker ls m) : x = y := by
  obtain ⟨head, a, e, hhead, hmarker, ha, he⟩ := x
  obtain ⟨head', a', e', hhead', hmarker', ha', he'⟩ := y
  obtain rfl : head = head' := Option.some.inj (hhead.symm.trans hhead')
  obtain rfl := ha.unique ha'
  obtain rfl := he.unique he'
  rfl

end Extent

theorem exists_extent {marker head : Text} {ls : Lines} {m : Nat} (h : ls[m]? = some head)
    (hmarker : Text.trim head = marker) : ∃ x : Extent marker ls m, x.head = head := by
  have hm : m < ls.length := (List.getElem?_eq_some_iff.mp h).1
  have hnotes := scope_length_least hm (indent head)
  generalize m + 1 + (Lines.scope (indent head) (ls.drop (m + 1))).length = a at hnotes
  have ha : a ≤ ls.length := hnotes.2 ⟨hm, .inl rfl⟩
  have hhead : ∀ l ∈ (ls.drop a).head?, isBlank l = false ∧ indent l ≤ indent head := by
    intro l hl
    rw [List.head?_drop] at hl
    rcases hnotes.1.2 with rfl | ⟨line, hline, hends⟩
    · simp at hl
    · rw [hline] at hl
      exact Option.mem_some_iff.mp hl ▸ hends
  exact ⟨⟨head, a, _, h, hmarker, hnotes, codeBlocks_least _ ha hhead⟩, rfl⟩

theorem mem_extractFrom_iff {marker : Text} {n : Nat} {ls : Lines} {b : Block} :
    b ∈ extractFrom marker n ls ↔ ∃ m head, ls[m]? = some head ∧ Text.trim head = marker ∧
      ofMarker? marker (n + m) head (ls.drop (m + 1)) = some b := by
  induction ls generalizing n with
  | nil => simp [extractFrom]
  | cons l ls ih =>
    have hrest : (∃ m head, (l :: ls)[m + 1]? = some head ∧ Text.trim head = marker ∧
        ofMarker? marker (n + (m + 1)) head ((l :: ls).drop (m + 1 + 1)) = some b) ↔
        b ∈ extractFrom marker (n + 1) ls := by
      simp only [ih, List.getElem?_cons_succ, List.drop_succ_cons, Nat.add_assoc, Nat.add_comm 1]
    have hsplit : ∀ P : Nat → Prop, (∃ m, P m) ↔ P 0 ∨ ∃ m, P (m + 1) := fun P =>
      ⟨fun ⟨m, h⟩ => by cases m with
        | zero => exact .inl h
        | succ m => exact .inr ⟨m, h⟩, fun h => h.elim (⟨0, ·⟩) fun ⟨m, h⟩ => ⟨m + 1, h⟩⟩
    rw [hsplit, hrest, extractFrom]
    by_cases hm : Text.trim l = marker
    · simp [isMarker, hm, eq_comm]
    · simp [isMarker, hm]

theorem mem_extract_iff {keyword : Text} {ls : Lines} {b : Block} :
    b ∈ extract keyword ls ↔
      ∃ m, ∃ x : Extent (markerText keyword) ls m, ¬ x.Discarded ∧ b = x.block := by
  rw [extract, mem_extractFrom_iff]
  constructor
  · rintro ⟨m, head, hhead, hmarker, hb⟩
    obtain ⟨x, rfl⟩ := exists_extent hhead hmarker
    rw [Nat.add_comm] at hb
    exact ⟨m, x, x.ofMarker?_eq_some_iff.mp hb⟩
  · rintro ⟨m, x, hx⟩
    refine ⟨m, x.head, x.head_eq, x.marker_eq, ?_⟩
    rw [Nat.add_comm]
    exact x.ofMarker?_eq_some_iff.mpr hx

theorem line_of_ofMarker? {marker head : Text} {n : Nat} {rest : Lines} {b : Block}
    (h : ofMarker? marker n head rest = some b) : b.line = n := by
  unfold ofMarker? at h
  dsimp only at h
  split_ifs at h <;> cases h <;> rfl

theorem line_le_of_mem_extractFrom {marker : Text} {n : Nat} {ls : Lines} {b : Block}
    (h : b ∈ extractFrom marker n ls) : n ≤ b.line := by
  obtain ⟨m, head, -, -, hb⟩ := mem_extractFrom_iff.mp h
  rw [line_of_ofMarker? hb]
  exact Nat.le_add_right n m

/-- Blocks come in the order of their markers. -/
theorem extractFrom_increasing (marker : Text) (n : Nat) (ls : Lines) :
    (extractFrom marker n ls).Pairwise fun b b' => b.line < b'.line := by
  induction ls generalizing n with
  | nil => exact .nil
  | cons l ls ih =>
    rw [extractFrom]
    split_ifs
    · refine List.pairwise_append.mpr ⟨by cases ofMarker? marker n l ls <;> simp, ih (n + 1), ?_⟩
      intro b hb b' hb'
      rw [Option.mem_toList] at hb
      rw [line_of_ofMarker? hb]
      exact line_le_of_mem_extractFrom hb'
    · exact ih (n + 1)

/-- The blocks of a template are exactly those that its marker lines describe: every marker line has
one extent, the blocks are those of the extents that are not bare markers, and they come in the order
of their lines. In a window no line with content stands left of the marker, and the first line stands
at the marker's column. -/
theorem extract_exact (keyword : Text) (ls : Lines) :
    (extract keyword ls).Pairwise (fun b b' => b.line < b'.line) ∧
    (∀ b, b ∈ extract keyword ls ↔
      ∃ m, ∃ x : Extent (markerText keyword) ls m, ¬ x.Discarded ∧ b = x.block) ∧
    ∀ m, (∃ head, ls[m]? = some head ∧ Text.trim head = markerText keyword) →
      ∃ x : Extent (markerText keyword) ls m, (∀ y, y = x) ∧
        (∀ l ∈ x.window, isBlank l = false → indent x.head ≤ indent l) ∧
        ∀ l ∈ x.window.head?, isBlank l = false ∧ indent l = indent x.head := by
  refine ⟨extractFrom_increasing _ 1 ls, fun b => mem_extract_iff, ?_⟩
  rintro m ⟨head, hhead, hmarker⟩
  obtain ⟨x, -⟩ := exists_extent hhead hmarker
  exact ⟨x, fun y => Extent.unique y x, fun l hl => Extent.le_indent_of_mem_window hl,
    fun l hl => Extent.indent_window_head hl⟩

end TemplateDocs.Block
