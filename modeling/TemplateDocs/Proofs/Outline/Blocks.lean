import Mathlib
import TemplateDocs.Proofs.Outline.Locality
import TemplateDocs.Proofs.Text

/-!
# Characters of a block of text

Literal and folded blocks drop and add nothing but blanks, so a block holds every other character as
often as its lines do. Blocks of the same text have lines that hold a character equally often.
-/
namespace TemplateDocs

namespace Lines

open Text (isSpace)

/-- How often a character stands in the lines. -/
def count (c : Char) (ls : Lines) : Nat := (ls.map (List.count c)).sum

theorem count_cons (c : Char) (l : Text) (ls : Lines) : count c (l :: ls) = l.count c + count c ls := by
  simp [count]

theorem count_append (c : Char) (ls ls' : Lines) : count c (ls ++ ls') = count c ls + count c ls' := by
  simp [count]

variable {c : Char} (hc : isSpace c = false)

include hc

theorem count_isBlank {l : Text} (h : isBlank l = true) : l.count c = 0 :=
  Text.count_blanks hc (List.all_eq_true.mp h)

theorem count_toText (ls : Lines) : (toText ls).count c = count c ls := by
  have hn : '\n' ≠ c := Text.ne_of_isSpace hc (by decide)
  induction ls with
  | nil => rfl
  | cons l ls ih =>
    cases ls with
    | nil => simp [toText, Text.join, count]
    | cons l' ls =>
      rw [toText_cons_cons, count_cons, List.count_append, List.count_cons_of_ne hn, ih]

theorem count_dedent (columns : Nat) (ls : Lines) : count c (dedent columns ls) = count c ls := by
  induction ls with
  | nil => rfl
  | cons l ls ih =>
    have hline : (dedentLine columns l).count c = l.count c := by
      have hsplit := List.take_append_drop (min (indent l) columns) l
      have hblank : (l.take (min (indent l) columns)).count c = 0 := by
        apply Text.count_blanks hc
        intro d hd
        rw [Nat.min_comm, ← List.take_take, take_indent] at hd
        exact margin_space l d (List.mem_of_mem_take hd)
      conv_rhs => rw [← hsplit, List.count_append, hblank, Nat.zero_add]
      rfl
    rw [show dedent columns (l :: ls) = dedentLine columns l :: dedent columns ls from rfl, count_cons,
      count_cons, hline, ih]

theorem count_dropBlankEnd (ls : Lines) : count c (dropBlankEnd ls) = count c ls := by
  have hsplit : dropBlankEnd ls ++ (ls.reverse.takeWhile isBlank).reverse = ls := by
    unfold dropBlankEnd
    rw [← List.reverse_append, List.takeWhile_append_dropWhile, List.reverse_reverse]
  have hblank : count c (ls.reverse.takeWhile isBlank).reverse = 0 := by
    simp only [count, List.sum_eq_zero_iff, List.mem_map, List.mem_reverse]
    rintro _ ⟨l, hl, rfl⟩
    exact count_isBlank hc (List.mem_takeWhile_imp hl)
  conv_rhs => rw [← hsplit, count_append, hblank, Nat.add_zero]

end Lines

namespace Outline

open Lines (isBlank)
open Text (isSpace)

variable {c : Char} (hc : isSpace c = false)

include hc

theorem count_foldFrom (acc : Text) (afterText : Bool) (ls : Lines) :
    (foldFrom acc afterText ls).count c = acc.count c + Lines.count c ls := by
  have hn : '\n' ≠ c := Text.ne_of_isSpace hc (by decide)
  have hs : ' ' ≠ c := Text.ne_of_isSpace hc (by decide)
  induction ls generalizing acc afterText with
  | nil => simp [foldFrom, Lines.count]
  | cons l ls ih =>
    rw [foldFrom, Lines.count_cons]
    cases hb : isBlank l with
    | true =>
      have hzero := Lines.count_isBlank hc hb
      simp [ih, hzero, List.count_cons_of_ne hn]
    | false =>
      rw [if_neg (by simp)]
      dsimp only
      split_ifs <;>
        simp [ih, List.count_cons_of_ne hn, List.count_cons_of_ne hs, Nat.add_assoc]

theorem count_fold (ls : Lines) : (fold ls).count c = Lines.count c ls := by
  have hn : '\n' ≠ c := Text.ne_of_isSpace hc (by decide)
  unfold fold
  cases ls with
  | nil => rfl
  | cons l ls =>
    rw [Lines.count_cons]
    dsimp only
    split_ifs with hb
    · rw [count_foldFrom hc, Lines.count_isBlank hc hb, List.count_cons_of_ne hn]
      simp
    · rw [count_foldFrom hc]

theorem Header.count_body (h : Header) (ls : Lines) : (h.body ls).count c = Lines.count c ls := by
  have hn : '\n' ≠ c := Text.ne_of_isSpace hc (by decide)
  unfold Header.body
  extract_lets content body
  have hbody : body.count c = Lines.count c ls := by
    unfold body
    split_ifs
    · rw [count_fold hc, Lines.count_dropBlankEnd hc]
    · rw [Lines.count_toText hc, Lines.count_dropBlankEnd hc]
  cases h.chomp with
  | strip => exact hbody
  | clip =>
    dsimp only
    split_ifs
    · exact hbody
    · simp [hbody, List.count_cons_of_ne hn]
  | keep => simp [hbody, List.count_cons_of_ne hn, List.count_replicate, hn]

omit hc

/-- The lines that belong to a block. -/
def Header.blockLines (h : Header) (parent : Option Nat) (ls : List Line) : List Line :=
  if parent.elim 0 (· + 1) ≤ h.blockIndent parent ls then
    ls.takeWhile (inBlock (h.blockIndent parent ls))
  else []

theorem takeWhile_forall₂ {R : Line → Line → Prop} {p : Line → Bool}
    (hp : ∀ l l', R l l' → p l = p l') {ls ls' : List Line} (h : List.Forall₂ R ls ls') :
    List.Forall₂ R (ls.takeWhile p) (ls'.takeWhile p) := by
  induction h with
  | nil => exact .nil
  | @cons l l' ls ls' hl _ ih =>
    rw [List.takeWhile_cons, List.takeWhile_cons, ← hp l l' hl]
    split_ifs
    · exact .cons hl ih
    · exact .nil

theorem Header.blockLines_forall₂ {R : Line → Line → Prop} (hR : ∀ l l', R l l' → Alike l l')
    (h : Header) (parent : Option Nat) {ls ls' : List Line} (hls : List.Forall₂ R ls ls') :
    List.Forall₂ R (h.blockLines parent ls) (h.blockLines parent ls') := by
  have hindent : h.blockIndent parent ls = h.blockIndent parent ls' :=
    blockIndent_congr h parent [] (hls.imp hR)
  unfold Header.blockLines
  rw [← hindent]
  split_ifs
  · exact takeWhile_forall₂ (fun l l' hl => inBlock_alike _ (hR l l' hl)) hls
  · exact .nil

/-- A block takes its lines and holds the characters of these lines. -/
theorem readBlock_eq_ok {header : Text} {line : Line} {parent : Option Nat} {body mid : List Line}
    {v : Json.Value}
    (h : (readBlock header line parent (body ++ mid)).map Read.parts = .ok (v, mid)) :
    ∃ hd s, Header.parse? (plainPart header) = some hd ∧ body = hd.blockLines parent (body ++ mid) ∧
      v = .string s ∧ ∀ c, isSpace c = false → s.count c = Lines.count c (body.map Line.raw) := by
  rw [readBlock_parts] at h
  cases hparse : Header.parse? (plainPart header) with
  | none => simp [hparse] at h
  | some hd =>
    simp only [hparse] at h
    split_ifs at h with hdeep
    · obtain ⟨rfl, hmid⟩ := Prod.mk.inj (Except.ok.inj h)
      have hbody : body = hd.blockLines parent (body ++ mid) := by
        have hsplit := @List.takeWhile_append_dropWhile _
          (inBlock (hd.blockIndent parent (body ++ mid))) (body ++ mid)
        rw [hmid] at hsplit
        rw [Header.blockLines, if_pos hdeep, List.append_cancel_right hsplit]
      refine ⟨hd, _, rfl, hbody, rfl, ?_⟩
      intro c hc
      rw [Header.blockLines, if_pos hdeep] at hbody
      rw [Header.count_body hc, Lines.count_dedent hc, ← hbody]
    · obtain ⟨rfl, hmid⟩ := Prod.mk.inj (Except.ok.inj h)
      obtain rfl : body = [] := by simpa using hmid
      refine ⟨hd, _, rfl, by rw [Header.blockLines, if_neg hdeep], rfl, ?_⟩
      intro c hc
      exact Header.count_body hc hd []

end Outline
end TemplateDocs
