import Mathlib
import TemplateDocs.Outline.Reader
import TemplateDocs.Proofs.Text

/-!
# Folded lines

A folded block joins its lines. The rule for two lines with `k` blank lines between them: flush lines
are a blank apart, or `k` line breaks if there are blank lines, and next to a line that is set in all
`k + 1` breaks are kept. The fold decides on a break from one flag and the last character of what it
has written. It keeps to the rule except where blank lines stand next to a line that is set in: there
the break of that line is lost.
-/
namespace TemplateDocs.Outline

open Lines (isBlank)

/-- Whether a line is set in: it starts with a space or a tab. -/
def isInset (l : Text) : Bool := (l.head?.map isGap).getD false

/-- The lines with content, each with the number of blank lines right before it, `k` of which came
before the lines given. -/
def spaced (k : Nat) : Lines → List (Nat × Text)
  | [] => []
  | l :: ls => if isBlank l then spaced (k + 1) ls else (k, l) :: spaced 0 ls

/-- Lines in order and unchanged, with a `gap` between each two of them. -/
def joinedBy (gap : Nat → Text → Text → Text) : List (Nat × Text) → Text
  | [] => []
  | [p] => p.2
  | p :: q :: rest => p.2 ++ (gap q.1 p.2 q.2 ++ joinedBy gap (q :: rest))

/-- What the rule puts between two lines with `k` blank lines between them. -/
def foldedGap (k : Nat) (a b : Text) : Text :=
  if isInset a || isInset b then List.replicate (k + 1) '\n'
  else if k = 0 then [' '] else List.replicate k '\n'

/-- What the fold puts there: blank lines hide whether a line is set in. -/
def keptGap (k : Nat) (a b : Text) : Text :=
  if 0 < k then List.replicate k '\n'
  else if isInset a || isInset b then ['\n'] else [' ']

/-- Whether two neighbouring lines are a blank line and a line with content that is set in. -/
def hidesInset (m n : Text) : Bool :=
  (isBlank m && !isBlank n && isInset n) || (isBlank n && !isBlank m && isInset m)

theorem length_keptGap_le (k : Nat) (a b : Text) :
    (keptGap k a b).length ≤ (foldedGap k a b).length := by
  unfold keptGap foldedGap
  split_ifs <;> simp <;> omega

theorem keptGap_eq_iff (k : Nat) (a b : Text) :
    keptGap k a b = foldedGap k a b ↔ (0 < k → isInset a = false ∧ isInset b = false) := by
  rcases Nat.eq_zero_or_pos k with rfl | hk
  · simp [keptGap, foldedGap]
  · cases ha : isInset a <;> cases hb : isInset b <;> simp [keptGap, foldedGap, ha, hb, hk, hk.ne']

theorem length_joinedBy_le (ps : List (Nat × Text)) :
    (joinedBy keptGap ps).length ≤ (joinedBy foldedGap ps).length := by
  fun_induction joinedBy keptGap ps with
  | case1 => simp
  | case2 p => simp [joinedBy]
  | case3 p q rest ih =>
    have hgap := length_keptGap_le q.1 p.2 q.2
    rw [joinedBy]
    simp only [List.length_append]
    omega

/-- No gap is longer than the rule has it, so two joined texts agree only gap by gap. -/
theorem joinedBy_eq_iff (ps : List (Nat × Text)) :
    joinedBy keptGap ps = joinedBy foldedGap ps ↔
      ps.IsChain fun p q => 0 < q.1 → isInset p.2 = false ∧ isInset q.2 = false := by
  fun_induction joinedBy keptGap ps with
  | case1 => simp [joinedBy]
  | case2 p => simp [joinedBy]
  | case3 p q rest ih =>
    rw [List.isChain_cons_cons, ← ih, ← keptGap_eq_iff, joinedBy, List.append_cancel_left_eq]
    constructor
    · intro heq
      have hgap := length_keptGap_le q.1 p.2 q.2
      have hrest := length_joinedBy_le (q :: rest)
      have hlength := congrArg List.length heq
      simp only [List.length_append] at hlength
      exact List.append_inj heq (by omega)
    · rintro ⟨hgap, hrest⟩
      rw [hgap, hrest]

/-- What the fold remembers after a line with content and `k` blank lines: whether a line was the
last thing it saw and is flush. -/
def afterFlush (k : Nat) (a : Text) : Bool := decide (k = 0) && !isInset a

/-- The breaks of the blank lines and what the fold adds before the next line are the gap. -/
theorem replicate_append_break (k : Nat) (a l : Text) :
    List.replicate k '\n' ++
      (if afterFlush k a && !isInset l then [' '] else if 0 < k then [] else ['\n']) = keptGap k a l := by
  rcases Nat.eq_zero_or_pos k with rfl | hk
  · cases ha : isInset a <;> cases hl : isInset l <;> simp [afterFlush, keptGap, ha, hl]
  · simp [afterFlush, keptGap, hk, hk.ne']

section Steps

variable {a l : Text} (ha : isBlank a = false) (hfeed : '\n' ∉ a) (front : Text) (k : Nat) (ls : Lines)

/-- A blank line adds a break. -/
theorem foldFrom_blank (hl : isBlank l = true) :
    foldFrom (front ++ a ++ List.replicate k '\n') (afterFlush k a) (l :: ls) =
      foldFrom (front ++ a ++ List.replicate (k + 1) '\n') (afterFlush (k + 1) a) ls := by
  rw [foldFrom, if_pos hl, List.replicate_succ', ← List.append_assoc]
  rfl

include ha hfeed

/-- The last character written tells whether there were blank lines. -/
theorem getLast?_append_breaks :
    (front ++ a ++ List.replicate k '\n').getLast? = some '\n' ↔ 0 < k := by
  cases k with
  | zero =>
    have hne : a ≠ [] := by
      rintro rfl
      cases ha
    rw [List.replicate_zero, List.append_nil, List.getLast?_append_of_ne_nil front hne]
    exact iff_of_false (fun h => hfeed (List.mem_of_getLast? h)) (Nat.lt_irrefl 0)
  | succ k => simp [List.replicate_succ']

/-- A line with content ends the gap. -/
theorem foldFrom_content (hl : isBlank l = false) :
    foldFrom (front ++ a ++ List.replicate k '\n') (afterFlush k a) (l :: ls) =
      foldFrom (front ++ a ++ keptGap k a l ++ l ++ List.replicate 0 '\n') (afterFlush 0 l) ls := by
  have hbreak := replicate_append_break k a l
  have hlast := getLast?_append_breaks ha hfeed front k
  rw [foldFrom, if_neg (by simp [hl])]
  simp only [hlast]
  rw [← hbreak]
  simp only [List.append_assoc, List.replicate_zero, List.append_nil]
  rfl

end Steps

section Runs

-- `a` is the last line with content, `k` blank lines follow it and `p` is the last of all these lines.
variable {a p : Text} (k : Nat) (ls : Lines) (hp : isBlank p = decide (0 < k))
  (hlast : ∀ m ∈ (p :: ls).getLast?, isBlank m = false)

include hp hlast

/-- What the fold adds to what it has written are the gaps and the lines to come. -/
theorem foldFrom_eq_joinedBy (front : Text) (j : Nat) (ha : isBlank a = false)
    (hfeed : ∀ m ∈ a :: ls, '\n' ∉ m) :
    foldFrom (front ++ a ++ List.replicate k '\n') (afterFlush k a) ls =
      front ++ joinedBy keptGap ((j, a) :: spaced k ls) := by
  induction ls generalizing a p k front j with
  | nil =>
    obtain rfl : k = 0 := by simpa [hp] using hlast p rfl
    simp [foldFrom, spaced, joinedBy]
  | cons l ls ih =>
    rw [List.getLast?_cons_cons] at hlast
    rw [List.forall_mem_cons] at hfeed
    obtain ⟨hfeeda, hfeeds⟩ := hfeed
    cases hl : isBlank l with
    | true =>
      have hrest : ∀ m ∈ a :: ls, '\n' ∉ m :=
        List.forall_mem_cons.mpr ⟨hfeeda, (List.forall_mem_cons.mp hfeeds).2⟩
      rw [foldFrom_blank front k ls hl, spaced, if_pos hl]
      exact ih (k + 1) (by simp [hl]) hlast front j ha hrest
    | false =>
      rw [foldFrom_content ha hfeeda front k ls hl, spaced, if_neg (by simp [hl]), joinedBy,
        ih 0 (by simp [hl]) hlast _ k hl hfeeds]
      simp

/-- A gap with blank lines is next to a line that is set in exactly if one of its blank lines is. -/
theorem isChain_spaced_iff (j : Nat) (ha : isBlank a = false) (hsame : k = 0 → p = a) :
    (((j, a) :: spaced k ls).IsChain fun q r => 0 < r.1 → isInset q.2 = false ∧ isInset r.2 = false) ↔
      (0 < k → isInset a = false) ∧ (p :: ls).IsChain fun m n => hidesInset m n = false := by
  induction ls generalizing a p k j with
  | nil =>
    obtain rfl : k = 0 := by simpa [hp] using hlast p rfl
    simp [spaced]
  | cons l ls ih =>
    rw [List.getLast?_cons_cons] at hlast
    rw [List.isChain_cons_cons]
    cases hl : isBlank l with
    | true =>
      rw [spaced, if_pos hl, ih (k + 1) (by simp [hl]) hlast j ha (by simp)]
      rcases Nat.eq_zero_or_pos k with rfl | hk
      · obtain rfl := hsame rfl
        simp [hidesInset, hl, ha]
      · simp [hidesInset, hl, hp, hk]
    | false =>
      rw [spaced, if_neg (by simp [hl]), List.isChain_cons_cons,
        ih 0 (by simp [hl]) hlast k hl (fun _ => rfl)]
      rcases Nat.eq_zero_or_pos k with rfl | hk
      · obtain rfl := hsame rfl
        simp [hidesInset, hl, ha]
      · simp [hidesInset, hl, hp, hk, and_assoc]

end Runs

/-- A fold from a line with content to a line with content holds the lines with content in order,
unchanged and with the gaps `keptGap` between them. It follows the rule of folded text exactly if no
blank line stands next to a line that is set in. -/
theorem fold_follows_rule_iff (ls : Lines) (hfirst : ∀ l ∈ ls.head?, isBlank l = false)
    (hlast : ∀ l ∈ ls.getLast?, isBlank l = false) (hfeed : ∀ l ∈ ls, '\n' ∉ l) :
    fold ls = joinedBy keptGap (spaced 0 ls) ∧
      (fold ls = joinedBy foldedGap (spaced 0 ls) ↔
        ls.IsChain fun m n => hidesInset m n = false) := by
  cases ls with
  | nil => simp [fold, spaced, joinedBy]
  | cons l ls =>
    have hl := hfirst l rfl
    have hspaced : spaced 0 (l :: ls) = (0, l) :: spaced 0 ls := by rw [spaced, if_neg (by simp [hl])]
    have hfold : fold (l :: ls) = joinedBy keptGap (spaced 0 (l :: ls)) := by
      have hrun := foldFrom_eq_joinedBy 0 ls (by simp [hl]) hlast [] 0 hl hfeed
      rw [fold, if_neg (by simp [hl]), hspaced]
      simpa [afterFlush, isInset] using hrun
    refine ⟨hfold, ?_⟩
    rw [hfold, joinedBy_eq_iff, hspaced, isChain_spaced_iff 0 ls (by simp [hl]) hlast 0 hl fun _ => rfl]
    simp

/-- Flush lines with and without blank lines between them, then a line that is set in. -/
theorem fold_follows_rule_iff_stanzas :
    fold ["a".toList, "b".toList, [], " ".toList, "c".toList, "\td".toList, "e".toList] =
        "a b\n\nc\n\td\ne".toList ∧
      fold ["a".toList, "b".toList, [], " ".toList, "c".toList, "\td".toList, "e".toList] =
        joinedBy foldedGap (spaced 0
          ["a".toList, "b".toList, [], " ".toList, "c".toList, "\td".toList, "e".toList]) :=
  ⟨by decide, (fold_follows_rule_iff _ (by decide) (by decide) (by decide)).2.mpr (by decide)⟩

/-- A line that is set in loses its break to a blank line before it, also where a document is read. -/
theorem fold_breaks_rule_inset :
    (¬ ∀ ls : Lines, (∀ l ∈ ls.head?, isBlank l = false) → (∀ l ∈ ls.getLast?, isBlank l = false) →
        (∀ l ∈ ls, '\n' ∉ l) → fold ls = joinedBy foldedGap (spaced 0 ls)) ∧
      fold ["a".toList, [], " b".toList] = "a\n b".toList ∧
      joinedBy foldedGap (spaced 0 ["a".toList, [], " b".toList]) = "a\n\n b".toList ∧
      read "text: >-\n  a\n\n   b".toList 1 =
        .ok (.object [("text".toList, .string "a\n b".toList)]) := by
  refine ⟨fun hall => ?_, by decide, by decide, by cbv⟩
  have heq := hall ["a".toList, [], " b".toList] (by decide) (by decide) (by decide)
  exact absurd heq (by decide)

end TemplateDocs.Outline
