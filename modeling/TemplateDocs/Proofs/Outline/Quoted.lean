import Mathlib
import TemplateDocs.Outline.Fault

/-!
# Quotes can be taken off again

A text put in quotes is closed by the quote at its end and stands for itself. In double quotes this
holds for every way to write characters in which a character is written as itself or as an escape.
-/
namespace TemplateDocs.Outline

/-! ### Double quotes -/

/-- `code` writes a character as itself, or as a backslash and a character that stands for it. -/
def Codes (code : Char → Text) (c : Char) : Prop :=
  (code c = [c] ∧ c ≠ '"' ∧ c ≠ '\\') ∨ ∃ d, code c = ['\\', d] ∧ d ≠ 'u' ∧ escaped? d = some c

/-- A text in double quotes, each character written by `code`. -/
def encased (code : Char → Text) (t : Text) : Text := '"' :: (t.flatMap code ++ ['"'])

/-- The closing quote is the one that was put there. -/
theorem closeDouble?_flatMap {code : Char → Text} {t : Text} (h : ∀ c ∈ t, Codes code c)
    (rest : Text) :
    closeDouble? (t.flatMap code ++ '"' :: rest) = some (t.flatMap code ++ ['"'], rest) := by
  induction t with
  | nil => rfl
  | cons c t ih =>
    have ih := ih fun d hd => h d (by simp [hd])
    rw [List.flatMap_cons]
    rcases h c (by simp) with ⟨hc, hq, hb⟩ | ⟨d, hc, -, -⟩
    · rw [hc, List.cons_append, List.nil_append, List.cons_append, closeDouble?, ih]
      · rfl
      · exact hq
      · rintro d r rfl
        exact absurd rfl hb
    · simp [hc, closeDouble?, ih]

theorem unescapeFrom_flatMap {code : Char → Text} {t : Text} (h : ∀ c ∈ t, Codes code c)
    (index : Nat) (rest : Text) : unescapeFrom index (t.flatMap code ++ '"' :: rest) = .ok t := by
  induction t generalizing index with
  | nil => rw [show List.flatMap code [] ++ '"' :: rest = '"' :: rest from rfl, unescapeFrom]
  | cons c t ih =>
    have ih := fun index => ih (fun d hd => h d (by simp [hd])) index
    rw [List.flatMap_cons]
    rcases h c (by simp) with ⟨hc, hq, hb⟩ | ⟨d, hc, hu, he⟩
    · rw [hc, List.cons_append, List.nil_append, List.cons_append, unescapeFrom, ih]
      · rfl
      · exact hq
      · rintro r rfl
        exact absurd rfl hb
      · rintro d r rfl
        exact absurd rfl hb
    · rw [hc]
      change unescapeFrom index ('\\' :: d :: (t.flatMap code ++ '"' :: rest)) = _
      rw [unescapeFrom]
      · rw [if_neg hu, he]
        simp only [ih]
        rfl
      · rintro r rfl
        exact absurd rfl hu

theorem quoted?_encased {code : Char → Text} {t : Text} (h : ∀ c ∈ t, Codes code c) (rest : Text) :
    quoted? (encased code t ++ rest) = some (encased code t, rest) := by
  have hform : encased code t ++ rest = '"' :: (t.flatMap code ++ '"' :: rest) := by simp [encased]
  rw [hform, quoted?, closeDouble?_flatMap h]
  rfl

theorem unquote_encased {code : Char → Text} {t : Text} (h : ∀ c ∈ t, Codes code c) :
    unquote (encased code t) = .ok t := unescapeFrom_flatMap h 1 []

theorem closeDouble?_cons {c : Char} (hquote : c ≠ '"') (hslash : c ≠ '\\') (t : Text) :
    closeDouble? (c :: t) = (closeDouble? t).map fun p => (c :: p.1, p.2) := by
  rw [closeDouble?]
  · exact hquote
  · rintro _ _ rfl
    exact absurd rfl hslash

theorem closeDouble?_append_of_open {t : Text} (h : closeDouble? t = none) (u : Text) :
    closeDouble? (t ++ ' ' :: u) = (closeDouble? u).map fun p => (t ++ ' ' :: p.1, p.2) := by
  fun_induction closeDouble? t with
  | case1 => exact closeDouble?_cons (by decide) (by decide) u
  | case2 => cases h
  | case3 c t ih =>
    rw [List.cons_append, List.cons_append, closeDouble?, ih (by simpa using h), Option.map_map]
    rfl
  | case4 c t hquote hslash ih =>
    by_cases hc : c = '\\'
    · -- a backslash at the end escapes the blank
      cases t with
      | nil =>
        subst hc
        rfl
      | cons d t => exact absurd rfl (hslash d t hc)
    · rw [List.cons_append, closeDouble?_cons hquote hc, ih (by simpa using h), Option.map_map]
      rfl

theorem quoted?_double (t : Text) :
    quoted? ('"' :: t) = (closeDouble? t).map fun p => ('"' :: p.1, p.2) := rfl

/-! ### Single quotes -/

/-- Every single quote written twice. -/
def doubled (t : Text) : Text := t.flatMap fun c => if c = '\'' then ['\'', '\''] else [c]

theorem doubled_cons (c : Char) (t : Text) :
    doubled (c :: t) = (if c = '\'' then ['\'', '\''] else [c]) ++ doubled t := rfl

def singleQuoted (t : Text) : Text := '\'' :: (doubled t ++ ['\''])

theorem closeSingle?_doubled (t : Text) {rest : Text} (hrest : ∀ c ∈ rest.head?, c ≠ '\'') :
    closeSingle? (doubled t ++ '\'' :: rest) = some (doubled t ++ ['\''], rest) := by
  induction t with
  | nil =>
    change closeSingle? ('\'' :: rest) = some (['\''], rest)
    rw [closeSingle?]
    rintro t rfl
    exact hrest '\'' rfl rfl
  | cons c t ih =>
    rw [doubled_cons]
    by_cases hc : c = '\''
    · simp [hc, closeSingle?, ih]
    · rw [if_neg hc, List.cons_append, List.nil_append, List.cons_append, closeSingle?, ih]
      · rfl
      · rintro t' rfl
        exact absurd rfl hc
      · exact hc

theorem undouble_doubled (t : Text) : undouble (doubled t) = t := by
  induction t with
  | nil => rfl
  | cons c t ih =>
    rw [doubled_cons]
    by_cases hc : c = '\''
    · simp [hc, undouble, ih]
    · rw [if_neg hc, List.cons_append, List.nil_append, undouble, ih]
      rintro t' rfl
      exact absurd rfl hc

theorem quoted?_singleQuoted (t : Text) {rest : Text} (hrest : ∀ c ∈ rest.head?, c ≠ '\'') :
    quoted? (singleQuoted t ++ rest) = some (singleQuoted t, rest) := by
  have hform : singleQuoted t ++ rest = '\'' :: (doubled t ++ '\'' :: rest) := by simp [singleQuoted]
  rw [hform, quoted?, closeSingle?_doubled t hrest]
  rfl

theorem unquote_singleQuoted (t : Text) : unquote (singleQuoted t) = .ok t := by
  rw [singleQuoted, unquote, List.dropLast_concat, undouble_doubled]

theorem closeSingle?_cons {c : Char} (hc : c ≠ '\'') (t : Text) :
    closeSingle? (c :: t) = (closeSingle? t).map fun p => (c :: p.1, p.2) := by
  rw [closeSingle?]
  · rintro _ rfl
    exact absurd rfl hc
  · exact hc

theorem closeSingle?_append_left {x : Text} (hx : '\'' ∉ x) (t : Text) :
    closeSingle? (x ++ t) = (closeSingle? t).map fun p => (x ++ p.1, p.2) := by
  induction x with
  | nil => simp
  | cons c x ih =>
    rw [List.mem_cons, not_or] at hx
    rw [List.cons_append, closeSingle?_cons (Ne.symm hx.1), ih hx.2, Option.map_map]
    rfl

/-- A text that is still open is closed where the text after a blank is. -/
theorem closeSingle?_append_of_open {t : Text} (h : closeSingle? t = none) (u : Text) :
    closeSingle? (t ++ ' ' :: u) = (closeSingle? u).map fun p => (t ++ ' ' :: p.1, p.2) := by
  fun_induction closeSingle? t with
  | case1 => exact closeSingle?_cons (by decide) u
  | case2 t ih =>
    rw [List.cons_append, List.cons_append, closeSingle?, ih (by simpa using h), Option.map_map]
    rfl
  | case3 => cases h
  | case4 c t _ hc ih =>
    rw [List.cons_append, closeSingle?_cons hc, ih (by simpa using h), Option.map_map]
    rfl

theorem closeSingle?_last {t s r : Text} (h : closeSingle? t = some (s, r)) : ∃ u, s = u ++ ['\''] := by
  fun_induction closeSingle? t generalizing s r with
  | case1 => cases h
  | case2 t ih =>
    obtain ⟨⟨s₀, r₀⟩, hs, he⟩ := Option.map_eq_some_iff.mp h
    cases he
    obtain ⟨u, rfl⟩ := ih hs
    exact ⟨'\'' :: '\'' :: u, rfl⟩
  | case3 t => cases h; exact ⟨[], rfl⟩
  | case4 c t _ _ ih =>
    obtain ⟨⟨s₀, r₀⟩, hs, he⟩ := Option.map_eq_some_iff.mp h
    cases he
    obtain ⟨u, rfl⟩ := ih hs
    exact ⟨c :: u, rfl⟩

theorem quoted?_single (t : Text) :
    quoted? ('\'' :: t) = (closeSingle? t).map fun p => ('\'' :: p.1, p.2) := rfl

theorem count_undouble (t : Text) : (undouble t).count '"' = t.count '"' := by
  fun_induction undouble t with
  | case1 => rfl
  | case2 t ih => simp [ih]
  | case3 c t _ ih => rw [List.count_cons, List.count_cons, ih]

theorem count_unquoted_single {b front trailing s : Text}
    (hq : quoted? ('\'' :: b) = some (front, trailing)) (hs : unquoted front = .ok s) :
    s.count '"' = front.count '"' := by
  rw [quoted?_single] at hq
  obtain ⟨⟨x, r⟩, hclose, he⟩ := Option.map_eq_some_iff.mp hq
  cases he
  obtain ⟨u, rfl⟩ := closeSingle?_last hclose
  rw [unquoted, unquote, List.dropLast_concat] at hs
  cases hs
  rw [count_undouble]
  simp

end TemplateDocs.Outline
