import Mathlib
import TemplateDocs.Proofs.Canonical
import TemplateDocs.Proofs.Outline.Locality
import TemplateDocs.Text.Word

/-!
# Words without quotes

A word of letters, digits and dashes is read as it stands: it starts no block and no key, and it ends
with its line unless deeper lines follow. An identifier before a colon is a key.
-/
namespace TemplateDocs

namespace Text

theorem isWordChar_ne {c d : Char} (hc : isWordChar c = true) (hd : isWordChar d = false) : c ≠ d := by
  rintro rfl
  rw [hc] at hd
  cases hd

/-- The code points of blanks. -/
def spaceCodes : List Nat :=
  [9, 10, 11, 12, 13, 32, 0x85, 0xA0, 0x1680, 0x2000, 0x2001, 0x2002, 0x2003, 0x2004, 0x2005, 0x2006,
    0x2007, 0x2008, 0x2009, 0x200A, 0x2028, 0x2029, 0x202F, 0x205F, 0x3000]

theorem toNat_mem_spaceCodes {c : Char} (h : isSpace c = true) : c.toNat ∈ spaceCodes := by
  simp only [isSpace, Bool.or_eq_true, Bool.and_eq_true, decide_eq_true_eq, beq_iff_eq] at h
  simp only [spaceCodes, List.mem_cons, List.not_mem_nil, or_false]
  omega

theorem isSpace_of_isWordChar {c : Char} (h : isWordChar c = true) : isSpace c = false := by
  have hcodes : ∀ n ∈ spaceCodes, isWordChar (Char.ofNat n) = false := by decide +kernel
  cases hs : isSpace c with
  | false => rfl
  | true =>
    have := hcodes _ (toNat_mem_spaceCodes hs)
    rw [Char.ofNat_toNat, h] at this
    cases this

end Text

namespace Outline

open Json (Value Plain)

/-! ### Plain words -/

/-- Letters, digits and dashes. -/
def isPlainChar (c : Char) : Bool := c.isAlphanum || c = '-'

theorem ne_of_isPlainChar {c d : Char} (hc : isPlainChar c = true) (hd : isPlainChar d = false) :
    c ≠ d := by
  rintro rfl
  rw [hc] at hd
  cases hd

theorem isSpace_of_isPlainChar {c : Char} (h : isPlainChar c = true) : Text.isSpace c = false := by
  have hrange : 45 ≤ c.toNat ∧ c.toNat ≤ 122 := by
    simp only [isPlainChar, Char.isAlphanum, Char.isAlpha, Char.isUpper, Char.isLower, Char.isDigit,
      Bool.or_eq_true, Bool.and_eq_true, decide_eq_true_eq, ge_iff_le] at h
    have hval : c.toNat = c.val.toNat := rfl
    simp only [UInt32.le_iff_toNat_le] at h
    rw [hval]
    rcases h with ((h | h) | h) | rfl
    · exact ⟨Nat.le_trans (by decide) h.1, Nat.le_trans h.2 (by decide)⟩
    · exact ⟨Nat.le_trans (by decide) h.1, Nat.le_trans h.2 (by decide)⟩
    · exact ⟨Nat.le_trans (by decide) h.1, Nat.le_trans h.2 (by decide)⟩
    · decide
  simp only [Text.isSpace, Bool.or_eq_false_iff, Bool.and_eq_false_iff, decide_eq_false_iff_not,
    beq_eq_false_iff_ne]
  omega

/-- A word that is more than a dash. -/
structure PlainWord (w : Text) : Prop where
  ne_nil : w ≠ []
  ne_dash : w ≠ ['-']
  chars : ∀ c ∈ w, isPlainChar c = true

/-- An integer of 64 bits is read as itself. -/
theorem resolve_ofInt {i : Int} (h : -(twoTo 63 : Int) ≤ i ∧ i < twoTo 63) :
    resolve (Text.ofInt i) = .number (.int i) := by
  have hwords : ∀ w ∈ nullWords ++ trueWords ++ falseWords,
      w = [] ∨ w.any (fun c => !(c.isDigit || c = '-')) = true := by decide +kernel
  have hword : Text.ofInt i ∉ nullWords ++ trueWords ++ falseWords := by
    intro hm
    rcases hwords _ hm with hnil | hany
    · exact Text.ofInt_ne_nil i hnil
    · obtain ⟨c, hc, hno⟩ := List.any_eq_true.mp hany
      rcases Text.mem_ofInt hc with h | h <;> simp [h] at hno
  simp only [List.mem_append, not_or] at hword
  obtain ⟨⟨hnull, htrue⟩, hfalse⟩ := hword
  have hsmall : smallInteger? (Text.ofInt i) = some i := by
    rw [smallInteger?, Text.integer?_ofInt, Option.bind_some, if_pos h]
  unfold resolve
  simp [hnull, htrue, hfalse, hsmall]

/-- A plain value is written as a word that is read as the value. -/
theorem plain_scalar {v : Value} (h : Plain v) :
    PlainWord (Json.scalar v) ∧ resolve (Json.scalar v) = v ∧ Json.compact v = Json.scalar v := by
  cases h with
  | null => exact ⟨⟨by decide, by decide, List.all_eq_true.mp (by decide)⟩, rfl, rfl⟩
  | bool b => cases b <;> exact ⟨⟨by decide, by decide, List.all_eq_true.mp (by decide)⟩, rfl, rfl⟩
  | int h =>
    refine ⟨⟨Text.ofInt_ne_nil _, Text.ofInt_ne_dash _, fun c hc => ?_⟩, resolve_ofInt h, rfl⟩
    rcases Text.mem_ofInt hc with hc | rfl
    · simp [isPlainChar, Char.isAlphanum, hc]
    · rfl

/-! ### Lines without a key -/

theorem plainKey?_of_no_colon {t : Text} (h : ':' ∉ t) (acc : Text) (gap : Bool) :
    plainKey? acc gap t = none := by
  induction t generalizing acc gap with
  | nil => rfl
  | cons c t ih =>
    simp only [List.mem_cons, not_or] at h
    rw [plainKey?]
    split_ifs with h1 h2
    · rfl
    · exact absurd h2.1.symm h.1
    · exact ih h.2 _ _

theorem splitKey?_of_no_colon {t : Text} (h : ':' ∉ t) : splitKey? t = none := by
  cases t with
  | nil => rfl
  | cons c t =>
    rw [splitKey?]
    split_ifs
    · cases hq : quoted? (c :: t) with
      | none => rfl
      | some p =>
        obtain ⟨q, r⟩ := p
        have hr : ':' ∉ Text.trimStart r := by
          intro hm
          have hsub := (List.dropWhile_suffix _).subset hm
          rw [← (quoted?_append hq).1] at h
          exact h (List.mem_append_right _ hsub)
        cases hc : Text.after? [':'] (Text.trimStart r) with
        | none => simp [hc]
        | some rest =>
          rw [Text.after?_eq_some_iff] at hc
          exact absurd (by simp [hc]) hr
    · rfl
    · exact plainKey?_of_no_colon h _ _

theorem PlainWord.not_mem {w : Text} (h : PlainWord w) {d : Char} (hd : isPlainChar d = false) :
    d ∉ w := by
  intro hm
  exact ne_of_isPlainChar (h.chars d hm) hd rfl

theorem PlainWord.not_item {w : Text} (h : PlainWord w) : Line.isItemText w = false := by
  unfold Line.isItemText
  split
  · exact absurd rfl h.ne_dash
  · next c _ =>
    have hne : ∀ d, isPlainChar d = false → c ≠ d := fun d =>
      ne_of_isPlainChar (h.chars c (by simp))
    simp [hne ' ' rfl, hne '\t' rfl]
  · rfl

theorem PlainWord.tight {w : Text} (h : PlainWord w) : Text.Tight w :=
  Text.tight_of_no_space fun c hc => isSpace_of_isPlainChar (h.chars c hc)

theorem beforeComment_of_no_mark {t : Text} (h : '#' ∉ t) (gap : Bool) : beforeComment gap t = t := by
  induction t generalizing gap with
  | nil => rfl
  | cons c t ih =>
    simp only [List.mem_cons, not_or] at h
    rw [beforeComment, if_neg fun hc => h.1 hc.1.symm, ih h.2]

theorem deeperParts_of_not_deeper {parent : Option Nat} {ls : List Line}
    (h : ∀ l ∈ (active ls).head?, parent.all (· < l.indent) = false) :
    deeperParts parent ls = ([], active ls) := by
  induction ls with
  | nil => rfl
  | cons l ls ih =>
    cases hl : l.isIdle with
    | true =>
      have ha : active (l :: ls) = active ls := by simp [active, hl]
      rw [ha] at h ⊢
      rw [deeperParts, if_pos hl, ih h]
    | false =>
      have ha := active_cons hl ls
      have hdeep := h l (by simp [ha])
      rw [deeperParts, hl, hdeep, ha]
      rfl

/-- A word is read by itself where no deeper line follows. -/
theorem readInline_plainWord {w : Text} (hw : PlainWord w) {parent : Option Nat} {ls : List Line}
    (h : ∀ l ∈ (active ls).head?, parent.all (· < l.indent) = false) (line : Line) :
    (readInline w line parent ls).map Read.parts = .ok (resolve w, active ls) := by
  have hplain : readInline w line parent ls = .ok (readPlain w parent ls) := by
    obtain ⟨c, w', rfl⟩ := List.exists_cons_of_ne_nil hw.ne_nil
    have hne : ∀ d, isPlainChar d = false → c ≠ d := fun d =>
      ne_of_isPlainChar (hw.chars c (by simp))
    simp [readInline, Flow.isQuote, Flow.isOpening, hne '|' rfl, hne '>' rfl, hne '"' rfl,
      hne '\'' rfl, hne '[' rfl, hne '\x7b' rfl]
  have hpart : plainPart w = w := by
    rw [plainPart, stripComment, beforeComment_of_no_mark (hw.not_mem rfl),
      Text.trimEnd_of_last hw.tight.last]
  rw [hplain]
  change Except.ok (readPlain w parent ls).parts = _
  rw [readPlain_parts, deeperParts_of_not_deeper h, hpart]
  simp [Text.join]

/-! ### Keys -/

/-- Letters, digits and underscores. -/
structure Identifier (k : Text) : Prop where
  ne_nil : k ≠ []
  chars : ∀ c ∈ k, Text.isWordChar c = true ∨ c = '_'

theorem Identifier.ne {k : Text} (h : Identifier k) {c d : Char} (hc : c ∈ k)
    (hd : Text.isWordChar d = false ∧ d ≠ '_') : c ≠ d := by
  rcases h.chars c hc with hw | rfl
  · exact Text.isWordChar_ne hw hd.1
  · exact hd.2.symm

theorem Identifier.tight {k : Text} (h : Identifier k) : Text.Tight k := by
  refine Text.tight_of_no_space fun c hc => ?_
  rcases h.chars c hc with hw | rfl
  · exact Text.isSpace_of_isWordChar hw
  · rfl

theorem plainKey?_append {k rest : Text} (h : ∀ c ∈ k, c ≠ ':' ∧ c ≠ '#')
    (hrest : (rest.head?.map isGap).getD true = true) (acc : Text) (gap : Bool)
    (hne : Text.trimEnd (acc.reverse ++ k) ≠ []) :
    plainKey? acc gap (k ++ ':' :: rest) = some (Text.trimEnd (acc.reverse ++ k), rest) := by
  induction k generalizing acc gap with
  | nil =>
    rw [List.append_nil] at hne ⊢
    rw [List.nil_append, plainKey?, if_neg (by simp), if_pos ⟨rfl, hrest⟩]
    simp [hne]
  | cons c k ih =>
    obtain ⟨hcolon, hmark⟩ := h c (by simp)
    have ih := ih (fun d hd => h d (by simp [hd])) (c :: acc) (isGap c)
    rw [List.reverse_cons, List.append_assoc] at ih
    rw [List.cons_append, plainKey?, if_neg fun hc => hmark hc.1, if_neg fun hc => hcolon hc.1]
    exact ih hne

/-- An identifier and a colon before a blank or the end of the line are a key. -/
theorem Identifier.splitKey? {k rest : Text} (h : Identifier k)
    (hrest : (rest.head?.map isGap).getD true = true) :
    Outline.splitKey? (k ++ ':' :: rest) = some (k, rest) := by
  have htrim : Text.trimEnd ([].reverse ++ k) = k := Text.trimEnd_of_last h.tight.last
  have hkey := plainKey?_append
    (fun c hc => ⟨h.ne hc ⟨rfl, by decide⟩, h.ne hc ⟨rfl, by decide⟩⟩) hrest [] false
    (by rw [htrim]; exact h.ne_nil)
  rw [htrim] at hkey
  obtain ⟨c, k', rfl⟩ := List.exists_cons_of_ne_nil h.ne_nil
  have hne : ∀ d, Text.isWordChar d = false ∧ d ≠ '_' → c ≠ d := fun d => h.ne (by simp)
  have hitem : Line.isItemText (c :: (k' ++ ':' :: rest)) = false := by
    cases hi : Line.isItemText (c :: (k' ++ ':' :: rest)) with
    | false => rfl
    | true =>
      obtain ⟨t, ht⟩ := Line.exists_of_isItemText hi
      exact absurd (List.cons.inj ht).1 (hne '-' ⟨rfl, by decide⟩)
  have hquote : Flow.isQuote c = false := by
    simp [Flow.isQuote, hne '"' ⟨rfl, by decide⟩, hne '\'' ⟨rfl, by decide⟩]
  have hopen : Flow.isOpening c = false := by
    simp [Flow.isOpening, hne '[' ⟨rfl, by decide⟩, hne '\x7b' ⟨rfl, by decide⟩]
  rw [List.cons_append] at hkey ⊢
  rw [Outline.splitKey?, hquote, hopen, hitem, if_neg (by simp), if_neg ?_]
  · exact hkey
  · simp [hne '|' ⟨rfl, by decide⟩, hne '>' ⟨rfl, by decide⟩, hne '#' ⟨rfl, by decide⟩]

end Outline
end TemplateDocs
