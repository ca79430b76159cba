import Mathlib
import TemplateDocs.Outline.Flow

/-!
# What is read of a flow collection

The readers of flow collections call each other on shorter and shorter texts. `Takes` says, rule by
rule, what each of them takes off the front of a text, and with it which plain scalars it meets.
-/
namespace TemplateDocs.Outline.Flow

open Json (Value Fields)
open Text (trimStart)

/-- What is taken off the front of a text. Items and fields go up to and with the closing bracket. -/
inductive Part where
  | value (v : Value)
  | items (vs : List Value)
  | key (k : Text)
  /-- What stands under a key: null if no colon follows the key. -/
  | slot (v : Value)
  /-- The fields with those read before, and the fields read before. -/
  | fields (acc fs : Fields)

/-- A part is taken off a text; the plain scalars in it as they are written, and the text left. -/
inductive Takes : Part → Text → List Text → Text → Prop
  | array {t u r : Text} {vs : List Value} {ps : List Text} (h : trimStart t = '[' :: u)
      (hitems : Takes (.items vs) u ps r) : Takes (.value (.array vs)) t ps r
  | object {t u r : Text} {fs : Fields} {ps : List Text} (h : trimStart t = '\x7b' :: u)
      (hfields : Takes (.fields [] fs) u ps r) : Takes (.value (.object fs)) t ps r
  | quoted {t q r s : Text} (h : quoted? (trimStart t) = some (q, r)) (hs : unquoted q = .ok s) :
      Takes (.value (.string s)) t [] r
  | plain {t p r : Text} (h : ∀ c ∈ (trimStart t).head?, isOpening c = false ∧ isQuote c = false)
      (hrun : plainRun false (trimStart t) = (p, r)) :
      Takes (.value (resolve (Text.trim p))) t [p] r
  | itemsEnd {t r : Text} (h : trimStart t = ']' :: r) : Takes (.items []) t [] r
  | itemsLast {t u r : Text} {v : Value} {ps : List Text} (h : ∀ c ∈ (trimStart t).head?, c ≠ ']')
      (hv : Takes (.value v) t ps u) (hend : trimStart u = ']' :: r) : Takes (.items [v]) t ps r
  | itemsMore {t u w r : Text} {v : Value} {vs : List Value} {ps qs : List Text}
      (h : ∀ c ∈ (trimStart t).head?, c ≠ ']') (hv : Takes (.value v) t ps u)
      (hcomma : trimStart u = ',' :: w) (hrest : Takes (.items vs) w qs r) :
      Takes (.items (v :: vs)) t (ps ++ qs) r
  | keyQuoted {t q r k : Text} (h : quoted? t = some (q, r)) (hk : unquoted q = .ok k) :
      Takes (.key k) t [] r
  | keyPlain {t p r : Text} (h : ∀ c ∈ t.head?, isQuote c = false) (hrun : plainRun true t = (p, r)) :
      Takes (.key (Text.trim p)) t [p] r
  | slotValue {t u r : Text} {v : Value} {ps : List Text} (h : trimStart t = ':' :: u)
      (hv : Takes (.value v) u ps r) : Takes (.slot v) t ps r
  | slotNull {t : Text} (h : ∀ c ∈ (trimStart t).head?, c ≠ ':') :
      Takes (.slot .null) t [] (trimStart t)
  | fieldsEnd {acc : Fields} {t r : Text} (h : trimStart t = '\x7d' :: r) :
      Takes (.fields acc acc) t [] r
  | fieldsLast {acc : Fields} {t u w r k : Text} {v : Value} {ps qs : List Text}
      (h : ∀ c ∈ (trimStart t).head?, c ≠ '\x7d') (hk : Takes (.key k) (trimStart t) ps u)
      (hne : k ≠ []) (hv : Takes (.slot v) u qs w) (hnew : Fields.has k acc = false)
      (hend : trimStart w = '\x7d' :: r) :
      Takes (.fields acc (Fields.insert k v acc)) t (ps ++ qs) r
  | fieldsMore {acc fs : Fields} {t u w x r k : Text} {v : Value} {ps qs os : List Text}
      (h : ∀ c ∈ (trimStart t).head?, c ≠ '\x7d') (hk : Takes (.key k) (trimStart t) ps u)
      (hne : k ≠ []) (hv : Takes (.slot v) u qs w) (hnew : Fields.has k acc = false)
      (hcomma : trimStart w = ',' :: x) (hrest : Takes (.fields (Fields.insert k v acc) fs) x os r) :
      Takes (.fields acc fs) t (ps ++ qs ++ os) r

/-! ### Scalars and keys -/

theorem quotedText_eq_ok {t : Text} {r : Read Text t} (h : quotedText t = .ok r) :
    ∃ q, quoted? t = some (q, r.rest) ∧ unquoted q = .ok r.value := by
  unfold quotedText at h
  split at h
  · cases h
  · next q rest hq =>
    cases hs : unquoted q with
    | error e => simp [hs, Except.map] at h
    | ok s =>
      simp only [hs, Except.map, Except.ok.injEq] at h
      subst h
      exact ⟨q, hq, hs⟩

theorem isQuote_head {t : Text} :
    (t.head?.map isQuote).getD false = false ↔ ∀ c ∈ t.head?, isQuote c = false := by
  cases t <;> simp

theorem takes_key {t : Text} {k : Read Text t} (h : key t = .ok k) :
    ∃ ps, Takes (.key k.value) t ps k.rest := by
  unfold key at h
  split_ifs at h with hquote
  · obtain ⟨q, hq, hs⟩ := quotedText_eq_ok h
    exact ⟨[], .keyQuoted hq hs⟩
  · cases h
    exact ⟨_, .keyPlain (isQuote_head.mp (Bool.eq_false_iff.mpr hquote)) rfl⟩

/-! ### The readers -/

def ValueTaken (t : Text) : Prop :=
  ∀ r, readValue t = .ok r → ∃ ps, Takes (.value r.value) t ps r.rest

def ItemsTaken (t : Text) : Prop :=
  ∀ r, readItems t = .ok r → ∃ ps, Takes (.items r.value) t ps r.rest

def FieldsTaken (t : Text) : Prop :=
  ∀ acc r, readFields acc t = .ok r → ∃ ps, Takes (.fields acc r.value) t ps r.rest

theorem valueTaken_of_shorter {t : Text} (hitems : ∀ s, s.length < t.length → ItemsTaken s)
    (hfields : ∀ s, s.length < t.length → FieldsTaken s) : ValueTaken t := by
  intro r h
  rw [readValue] at h
  split at h
  · next s hs =>
    cases hread : readItems s with
    | error e => simp [hread, Except.map] at h
    | ok items =>
      simp only [hread, Except.map, Except.ok.injEq] at h
      subst h
      obtain ⟨ps, htakes⟩ := hitems s (length_lt_of_trimStart hs) items hread
      exact ⟨ps, .array hs htakes⟩
  · next s hs =>
    cases hread : readFields [] s with
    | error e => simp [hread, Except.map] at h
    | ok fields =>
      simp only [hread, Except.map, Except.ok.injEq] at h
      subst h
      obtain ⟨ps, htakes⟩ := hfields s (length_lt_of_trimStart hs) [] fields hread
      exact ⟨ps, .object hs htakes⟩
  · next hbracket hbrace =>
    split_ifs at h with hquote
    · cases hread : quotedText (trimStart t) with
      | error e => simp [hread, Except.map] at h
      | ok q =>
        simp only [hread, Except.map, Except.ok.injEq] at h
        subst h
        obtain ⟨q', hq, hs⟩ := quotedText_eq_ok hread
        exact ⟨[], .quoted hq hs⟩
    · cases h
      refine ⟨_, .plain ?_ rfl⟩
      intro c hc
      refine ⟨?_, isQuote_head.mp (Bool.eq_false_iff.mpr hquote) c hc⟩
      obtain ⟨rest, hrest⟩ := List.head?_eq_some_iff.mp hc
      rw [Bool.eq_false_iff]
      intro hopen
      simp only [isOpening, Bool.or_eq_true, decide_eq_true_eq] at hopen
      rcases hopen with rfl | rfl
      · exact hbracket rest hrest
      · exact hbrace rest hrest

theorem itemsTaken_of_shorter {t : Text} (hvalue : ValueTaken t)
    (hitems : ∀ s, s.length < t.length → ItemsTaken s) : ItemsTaken t := by
  intro r h
  rw [readItems] at h
  split at h
  · next s hs =>
    cases h
    exact ⟨[], .itemsEnd hs⟩
  · next hno =>
    have hhead : ∀ c ∈ (trimStart t).head?, c ≠ ']' := by
      rintro c hc rfl
      obtain ⟨rest, hrest⟩ := List.head?_eq_some_iff.mp hc
      exact hno rest hrest
    split at h
    · cases h
    · next v hv =>
      obtain ⟨ps, hfirst⟩ := hvalue v hv
      split at h
      · next s hs =>
        have hshort := Nat.lt_of_lt_of_le (length_lt_of_trimStart hs) v.le
        cases hread : readItems s with
        | error e => simp [hread, Except.map] at h
        | ok items =>
          simp only [hread, Except.map, Except.ok.injEq] at h
          subst h
          obtain ⟨qs, hrest⟩ := hitems s hshort items hread
          exact ⟨ps ++ qs, .itemsMore hhead hfirst hs hrest⟩
      · next s hs =>
        cases h
        exact ⟨ps, .itemsLast hhead hfirst hs⟩
      · cases h

theorem fieldsTaken_of_shorter {t : Text} (hvalue : ∀ s, s.length < t.length → ValueTaken s)
    (hfields : ∀ s, s.length < t.length → FieldsTaken s) : FieldsTaken t := by
  intro acc r h
  rw [readFields] at h
  split at h
  · next s hs =>
    cases h
    exact ⟨[], .fieldsEnd hs⟩
  · next hno =>
    have hhead : ∀ c ∈ (trimStart t).head?, c ≠ '\x7d' := by
      rintro c hc rfl
      obtain ⟨rest, hrest⟩ := List.head?_eq_some_iff.mp hc
      exact hno rest hrest
    split at h
    · cases h
    · next k hk =>
      obtain ⟨ps, hkey⟩ := takes_key hk
      by_cases hempty : k.value = []
      · rw [if_pos hempty] at h
        cases h
      rw [if_neg hempty] at h
      extract_lets value at h
      have hslot : ∀ v, value = .ok v → ∃ qs, Takes (.slot v.value) k.rest qs v.rest := by
        intro v hv
        unfold value at hv
        split at hv
        · next s hs =>
          have hshort : s.length < t.length := Nat.lt_of_lt_of_le (length_lt_of_trimStart hs)
            (k.le.trans (trimStart_length t))
          cases hread : readValue s with
          | error e => simp [hread, Except.map] at hv
          | ok w =>
            simp only [hread, Except.map, Except.ok.injEq] at hv
            subst hv
            obtain ⟨qs, htakes⟩ := hvalue s hshort w hread
            exact ⟨qs, .slotValue hs htakes⟩
        · next hcolon =>
          cases hv
          refine ⟨[], .slotNull ?_⟩
          rintro c hc rfl
          obtain ⟨rest, hrest⟩ := List.head?_eq_some_iff.mp hc
          exact hcolon rest hrest
      clear_value value
      cases value with
      | error e => cases h
      | ok v =>
        obtain ⟨qs, hv⟩ := hslot v rfl
        by_cases hnew : Fields.has k.value acc = true
        · simp [hnew] at h
        rw [Bool.not_eq_true] at hnew
        simp only [hnew, Bool.false_eq_true, if_false] at h
        split at h
        · next s hs =>
          have hshort := Nat.lt_of_lt_of_le (length_lt_of_trimStart hs) v.le
          cases hread : readFields (Fields.insert k.value v.value acc) s with
          | error e => simp [hread, Except.map] at h
          | ok fields =>
            simp only [hread, Except.map, Except.ok.injEq] at h
            subst h
            obtain ⟨os, hrest⟩ := hfields s hshort _ fields hread
            exact ⟨ps ++ qs ++ os, .fieldsMore hhead hkey hempty hv hnew hs hrest⟩
        · next s hs =>
          cases h
          exact ⟨ps ++ qs, .fieldsLast hhead hkey hempty hv hnew hs⟩
        · cases h

theorem reads_taken (t : Text) : ValueTaken t ∧ ItemsTaken t ∧ FieldsTaken t := by
  induction hn : t.length using Nat.strong_induction_on generalizing t with
  | _ n ih =>
    subst hn
    have hvalue : ValueTaken t :=
      valueTaken_of_shorter (fun s hs => (ih _ hs s rfl).2.1) (fun s hs => (ih _ hs s rfl).2.2)
    exact ⟨hvalue, itemsTaken_of_shorter hvalue (fun s hs => (ih _ hs s rfl).2.1),
      fieldsTaken_of_shorter (fun s hs => (ih _ hs s rfl).1) (fun s hs => (ih _ hs s rfl).2.2)⟩

/-- Whatever is read was taken by the rules. -/
theorem takes_of_readValue {t : Text} {r : Read Value t} (h : readValue t = .ok r) :
    ∃ ps, Takes (.value r.value) t ps r.rest := (reads_taken t).1 r h

end TemplateDocs.Outline.Flow
