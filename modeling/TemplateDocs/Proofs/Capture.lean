import Mathlib
import TemplateDocs.Metadata.Basic
import TemplateDocs.Outline.Plain
import TemplateDocs.Proofs.Text

/-!
# Words that ask for a capture mode

A capture mode is asked for by a word. Written plainly in an annotation, the word is read as a value
first, which may be a number; the text of that value asks for the same mode as the word.
-/
namespace TemplateDocs

namespace Text

/-! ### Numbers in digits -/

theorem digitValue_of_isDigit {c : Char} (h : c.isDigit = true) :
    digitValue c = c.toNat - '0'.toNat ∧ digitValue c < 10 := by
  simp only [Char.isDigit, Bool.and_eq_true, decide_eq_true_eq] at h
  have hc : '0' ≤ c ∧ c ≤ '9' := h
  have hn : c.toNat ≤ 57 := h.2
  unfold digitValue
  rw [if_pos hc]
  refine ⟨rfl, ?_⟩
  have : '0'.toNat = 48 := rfl
  omega

theorem digitsFrom?_of_isDigit {t : Text} (h : ∀ c ∈ t, c.isDigit = true) (acc : Nat) :
    digitsFrom? 10 acc t = some (Nat.ofDigitChars 10 t acc) := by
  induction t generalizing acc with
  | nil => rfl
  | cons c t ih =>
    obtain ⟨hv, hlt⟩ := digitValue_of_isDigit (h c (by simp))
    rw [digitsFrom?, if_pos hlt, ih (fun d hd => h d (by simp [hd])), Nat.ofDigitChars_cons, hv,
      Nat.mul_comm]

theorem ofNat_eq_toDigits (n : Nat) : ofNat n = Nat.toDigits 10 n := by
  rw [ofNat, Nat.toString_eq_repr, Nat.toList_repr]

theorem isDigit_of_mem_ofNat {n : Nat} {c : Char} (h : c ∈ ofNat n) : c.isDigit = true := by
  rw [ofNat_eq_toDigits] at h
  exact Nat.isDigit_of_mem_toDigits (by decide) (by decide) h

theorem ofNat_ne_nil (n : Nat) : ofNat n ≠ [] := by
  rw [ofNat_eq_toDigits]
  exact Nat.toDigits_ne_nil

theorem digits?_ofNat (n : Nat) : digits? 10 (ofNat n) = some n := by
  unfold digits?
  rw [if_neg (by simpa using ofNat_ne_nil n),
    digitsFrom?_of_isDigit (fun c hc => isDigit_of_mem_ofNat hc), ofNat_eq_toDigits,
    Nat.ofDigitChars_ten_toDigits]

theorem natural?_ofNat (n : Nat) : natural? 10 (ofNat n) = some n := by
  unfold natural?
  split
  · next t ht =>
    have := isDigit_of_mem_ofNat (n := n) (c := '+') (by rw [ht]; simp)
    simp at this
  · exact digits?_ofNat n

theorem digitValue_lt_of_digitsFrom? {radix acc n : Nat} {t : Text}
    (h : digitsFrom? radix acc t = some n) : ∀ c ∈ t, digitValue c < radix := by
  induction t generalizing acc with
  | nil => simp
  | cons c t ih =>
    rw [digitsFrom?] at h
    split_ifs at h with hc
    intro d hd
    rcases List.mem_cons.mp hd with rfl | hd
    · exact hc
    · exact ih h d hd

/-- The characters of a natural number. -/
theorem natural?_chars {t : Text} {n : Nat} (h : natural? 10 t = some n) :
    ∀ c ∈ t, c = '+' ∨ digitValue c < 10 := by
  have digits : ∀ {t : Text}, digits? 10 t = some n → ∀ c ∈ t, digitValue c < 10 := by
    intro t h
    unfold digits? at h
    split_ifs at h
    exact digitValue_lt_of_digitsFrom? h
  unfold natural? at h
  split at h
  · intro c hc
    rcases List.mem_cons.mp hc with rfl | hc
    · exact .inl rfl
    · exact .inr (digits h c hc)
  · exact fun c hc => .inr (digits h c hc)

theorem isSpace_of_digit {c : Char} (h : c = '+' ∨ digitValue c < 10) : isSpace c = false := by
  rcases h with rfl | h
  · rfl
  · unfold digitValue at h
    split_ifs at h with h1 h2 h3
    · have hlow : 48 ≤ c.toNat := h1.1
      have hhigh : c.toNat ≤ 57 := h1.2
      simp only [isSpace, Bool.or_eq_false_iff, Bool.and_eq_false_iff, decide_eq_false_iff_not,
        beq_eq_false_iff_ne]
      omega
    · omega
    · omega
    · omega

end Text

namespace Capture

open Text (trim natural?)

/-- What a word must be to ask for a mode. -/
theorem parse?_cases {t : Text} {mode : Capture} (h : parse? t = some mode) :
    (trim t = "all".toList ∧ mode = .all) ∨ (trim t = "section".toList ∧ mode = .untilMarker) ∨
      ∃ n, natural? 10 (trim t) = some n ∧ (0 < n ∧ n ≤ maxCount) ∧ mode = .count n := by
  unfold parse? at h
  dsimp only at h
  split_ifs at h with h1 h2
  · exact .inl ⟨h1, (Option.some.inj h).symm⟩
  · exact .inr (.inl ⟨h2, (Option.some.inj h).symm⟩)
  · cases hn : natural? 10 (trim t) with
    | none => simp [hn] at h
    | some n =>
      simp only [hn] at h
      split_ifs at h with hb
      exact .inr (.inr ⟨n, rfl, hb, (Option.some.inj h).symm⟩)

theorem parse?_ne_single (t : Text) : parse? t ≠ some .single := by
  intro h
  rcases parse?_cases h with ⟨-, h⟩ | ⟨-, h⟩ | ⟨n, -, -, h⟩ <;> cases h

/-- A text with a character that is no digit asks for nothing if one of its characters is in neither
of the two words. -/
theorem parse?_eq_none {t : Text} {c d : Char} (hc : c ∈ t) (hcs : Text.isSpace c = false)
    (hcd : ¬ (c = '+' ∨ Text.digitValue c < 10)) (hd : d ∈ t) (hds : Text.isSpace d = false)
    (hdw : d ∉ "all".toList ∧ d ∉ "section".toList) : parse? t = none := by
  cases h : parse? t with
  | none => rfl
  | some mode =>
    have hd' := Text.mem_trim_of_not_space hd hds
    rcases parse?_cases h with ⟨he, -⟩ | ⟨he, -⟩ | ⟨n, hn, -⟩
    · exact absurd (he ▸ hd') hdw.1
    · exact absurd (he ▸ hd') hdw.2
    · exact absurd (Text.natural?_chars hn c (Text.mem_trim_of_not_space hc hcs)) hcd

theorem parse?_of_natural? {t : Text} {n : Nat} (h : natural? 10 t = some n) :
    parse? t = if 0 < n ∧ n ≤ maxCount then some (.count n) else none := by
  have hchars := Text.natural?_chars h
  have htrim : trim t = t :=
    Text.trim_of_tight (Text.tight_of_no_space fun c hc => Text.isSpace_of_digit (hchars c hc))
  have hall : t ≠ "all".toList := by
    rintro rfl
    exact absurd (hchars 'l' (by decide)) (by decide)
  have hsection : t ≠ "section".toList := by
    rintro rfl
    exact absurd (hchars 's' (by decide)) (by decide)
  simp only [parse?, htrim, hall, hsection, h, if_false]

end Capture

namespace Decimal

theorem positional_point (digits : Text) (e : Int) : '.' ∈ positional digits e := by
  unfold positional
  split_ifs
  · simp
  · dsimp only
    split_ifs <;> simp

theorem scientific_exponent (plus : Bool) (digits : Text) (e : Int) :
    'e' ∈ scientific plus digits e ∧ ∃ d ∈ scientific plus digits e, d.isDigit = true := by
  obtain ⟨d, hd⟩ := List.exists_mem_of_ne_nil _ (Text.ofNat_ne_nil e.natAbs)
  refine ⟨?_, d, ?_, Text.isDigit_of_mem_ofNat hd⟩
  · simp [scientific]
  · simp [scientific, hd]

/-- A double is written with a point, or with an exponent and its digits. -/
theorem Layout.write_mark (layout : Layout) (b : Binary) :
    '.' ∈ layout.write b ∨ ('e' ∈ layout.write b ∧ ∃ d ∈ layout.write b, d.isDigit = true) := by
  unfold Layout.write
  extract_lets body
  have hbody : '.' ∈ body ∨ ('e' ∈ body ∧ ∃ d ∈ body, d.isDigit = true) := by
    unfold body
    split_ifs with hz
    · simp
    · dsimp only
      split_ifs
      · exact .inl (positional_point _ _)
      · exact .inr (scientific_exponent _ _ _)
  split_ifs
  · rcases hbody with h | ⟨h, d, hd, hdigit⟩
    · exact .inl (List.mem_cons_of_mem _ h)
    · exact .inr ⟨List.mem_cons_of_mem _ h, d, List.mem_cons_of_mem _ hd, hdigit⟩
  · exact hbody

end Decimal

namespace Metadata

open Json (Value Number)

/-- The text of a capture entry's value. -/
def directiveText : Value → Text
  | .string s => s
  | v => Json.compact v

/-- The mode that the value of a capture entry asks for. -/
def directive? (v : Value) : Option Capture := Capture.parse? (directiveText v)

theorem captureMode_getD (m : Metadata) :
    m.captureMode.toOption.getD .single = (m.capture.bind directive?).getD .single := by
  unfold captureMode
  cases hm : m.capture with
  | none => rfl
  | some v =>
    have hasked : (some v).bind directive? = Capture.parse? (directiveText v) := rfl
    rw [hasked]
    cases hp : Capture.parse? (directiveText v) <;> cases v <;>
      (simp only [directiveText] at hp; simp only [hp]; rfl)

theorem directive?_float (x : Float) : directive? (.number (.float x)) = none := by
  change Capture.parse? (Number.write (.float x)) = none
  unfold Number.write
  dsimp only
  cases Decimal.Binary.ofFloat? x with
  | none => decide
  | some b =>
    rcases Json.numberLayout.write_mark b with h | ⟨he, d, hd, hdigit⟩
    · exact Capture.parse?_eq_none h (by decide) (by decide) h (by decide) (by decide)
    · have hvalue := (Text.digitValue_of_isDigit hdigit).2
      have hwords : ("all".toList ++ "section".toList).all (10 ≤ Text.digitValue ·) = true := by
        decide
      have hword : d ∉ "all".toList ++ "section".toList := fun hm =>
        absurd (of_decide_eq_true (List.all_eq_true.mp hwords d hm)) (Nat.not_le.mpr hvalue)
      rw [List.mem_append, not_or] at hword
      exact Capture.parse?_eq_none he (by decide) (by decide) hd
        (Text.isSpace_of_digit (.inr hvalue)) hword

theorem directive?_int {w : Text} {i : Int} (h : Text.integer? 10 w = some i) :
    directive? (.number (.int i)) = Capture.parse? w := by
  have negative : ∀ t : Text, Capture.parse? ('-' :: t) = none := fun t =>
    Capture.parse?_eq_none (List.mem_cons_self ..) (by decide) (by decide) (List.mem_cons_self ..)
      (by decide) (by decide)
  change Capture.parse? (Text.ofInt i) = Capture.parse? w
  unfold Text.integer? at h
  split at h
  · next t =>
    obtain ⟨n, -, rfl⟩ := Option.map_eq_some_iff.mp h
    rw [negative]
    unfold Text.ofInt
    split_ifs with hn
    · exact negative _
    · have hz : (-(n : Int)).natAbs = 0 := by omega
      rw [hz]
      decide
  · obtain ⟨n, hn, rfl⟩ := Option.map_eq_some_iff.mp h
    have hof : Text.ofInt (Int.ofNat n) = Text.ofNat n := by
      unfold Text.ofInt
      rw [if_neg (by simp)]
      rfl
    rw [hof, Capture.parse?_of_natural? hn, Capture.parse?_of_natural? (Text.natural?_ofNat n)]

/-- A word that counts blocks is a small integer. -/
theorem smallInteger?_of_natural? {w : Text} {n : Nat} (h : Text.natural? 10 w = some n)
    (hn : n ≤ Capture.maxCount) : Outline.smallInteger? w = some (n : Int) := by
  have hint : Text.integer? 10 w = some (n : Int) := by
    unfold Text.integer?
    split
    · next t =>
      have := Text.natural?_chars h '-' (by simp)
      exact absurd this (by decide)
    · rw [h]
      rfl
  have hmax : (n : Int) < twoTo 63 := by
    have : Capture.maxCount < twoTo 63 := by decide
    omega
  unfold Outline.smallInteger?
  rw [hint, Option.bind_some, if_pos ⟨by omega, hmax⟩]

theorem isNumeric_chars {w : Text} (h : Outline.isNumeric w = true) :
    ∀ c ∈ w, Text.isDigit c = true ∨ c ∈ ['.', '-', '+', 'e', 'E'] := by
  intro c hc
  have := List.all_eq_true.mp (Bool.and_eq_true_iff.mp h).1 c hc
  simp only [Bool.or_eq_true, decide_eq_true_eq] at this
  simp only [List.mem_cons, List.not_mem_nil, or_false]
  tauto

theorem trim_of_isNumeric {w : Text} (h : Outline.isNumeric w = true) : Text.trim w = w := by
  have hmarks : ['.', '-', '+', 'e', 'E'].all (!Text.isSpace ·) = true := by decide
  refine Text.trim_of_tight (Text.tight_of_no_space fun c hc => ?_)
  rcases isNumeric_chars h c hc with hd | hm
  · exact Text.isSpace_of_digit (.inr (Text.digitValue_of_isDigit hd).2)
  · simpa using List.all_eq_true.mp hmarks c hm

/-- Reading a plain word as a value does not change the mode that it asks for. -/
theorem directive?_resolve (w : Text) : directive? (Outline.resolve w) = Capture.parse? w := by
  unfold Outline.resolve
  split_ifs with hnull htrue hfalse
  · have : ∀ w ∈ Outline.nullWords, directive? .null = Capture.parse? w := by decide
    exact this w (by simpa using hnull)
  · have : ∀ w ∈ Outline.trueWords, directive? (.bool true) = Capture.parse? w := by decide
    exact this w (by simpa using htrue)
  · have : ∀ w ∈ Outline.falseWords, directive? (.bool false) = Capture.parse? w := by decide
    exact this w (by simpa using hfalse)
  · cases hi : Outline.smallInteger? w with
    | some i =>
      obtain ⟨j, hj, hb⟩ := Option.bind_eq_some_iff.mp hi
      split_ifs at hb
      cases hb
      exact directive?_int hj
    | none =>
      cases hf : Outline.float? w with
      | none => rfl
      | some n =>
        unfold Outline.float? at hf
        split_ifs at hf with hnum
        obtain ⟨d, -, hd⟩ := Option.bind_eq_some_iff.mp hf
        unfold Number.ofFloat? at hd
        split_ifs at hd
        cases hd
        dsimp only
        rw [directive?_float]
        cases hp : Capture.parse? w with
        | none => rfl
        | some mode =>
          have hcases := Capture.parse?_cases hp
          rw [trim_of_isNumeric hnum] at hcases
          rcases hcases with ⟨rfl, -⟩ | ⟨rfl, -⟩ | ⟨n, hn, hb, -⟩
          · exact absurd (isNumeric_chars hnum 'l' (by decide)) (by decide)
          · exact absurd (isNumeric_chars hnum 's' (by decide)) (by decide)
          · rw [smallInteger?_of_natural? hn hb.2] at hi
            cases hi

end Metadata
end TemplateDocs
