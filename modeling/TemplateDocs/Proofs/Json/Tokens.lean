import Mathlib
import TemplateDocs.Json.Reader
import TemplateDocs.Json.Writer
import TemplateDocs.Proofs.Canonical

/-!
# The tokens of written values

The written form of a value is taken apart into the tokens of that value, whatever follows it, as
long as that does not go on with a number.
-/
namespace TemplateDocs.Json

/-! ### The tokens of a value -/

/-- Entries with commas between them, and the token that closes them. -/
def separated (closing : Token) : List (List Token) → List Token
  | [] => [closing]
  | [entry] => entry ++ [closing]
  | entry :: next :: rest => entry ++ .comma :: separated closing (next :: rest)

mutual

def valueTokens : Value → List Token
  | .null => [.scalar .null]
  | .bool b => [.scalar (.bool b)]
  | .number n => [.scalar (.number n)]
  | .string s => [.scalar (.string s)]
  | .array items => .openArray :: separated .closeArray (itemTokens items)
  | .object fields => .openObject :: separated .closeObject (fieldTokens fields)

def itemTokens : List Value → List (List Token)
  | [] => []
  | v :: rest => valueTokens v :: itemTokens rest

def fieldTokens : List (Text × Value) → List (List Token)
  | [] => []
  | (k, v) :: rest => (.scalar (.string k) :: .colon :: valueTokens v) :: fieldTokens rest

end

theorem itemTokens_eq_map (items : List Value) : itemTokens items = items.map valueTokens := by
  induction items with
  | nil => rfl
  | cons v rest ih => rw [itemTokens, ih, List.map_cons]

/-! ### Characters -/

theorem tokens?_space {c : Char} (h : isJsonSpace c = true) (t : Text) : tokens? (c :: t) = tokens? t := by
  rw [tokens?, if_pos h]

theorem tokens?_spaces {blanks : Text} (h : ∀ c ∈ blanks, isJsonSpace c = true) (t : Text) :
    tokens? (blanks ++ t) = tokens? t := by
  induction blanks with
  | nil => rfl
  | cons c blanks ih =>
    rw [List.cons_append, tokens?_space (h c List.mem_cons_self),
      ih fun d hd => h d (List.mem_cons_of_mem _ hd)]

theorem punctuation?_start {c : Char} {p : Token} (h : punctuation? c = some p) :
    isJsonSpace c = false ∧ Text.isDigit c = false ∧ c ≠ '.' ∧ c ≠ 'e' ∧ c ≠ 'E' := by
  unfold punctuation? at h
  split_ifs at h with h1 h2 h3 h4 h5 h6 <;> subst c <;> decide

theorem tokens?_punctuation {c : Char} {p : Token} (h : punctuation? c = some p) (t : Text) :
    tokens? (c :: t) = (tokens? t).map (p :: ·) := by
  rw [tokens?, if_neg (by simp [(punctuation?_start h).1]), h]

theorem tokens?_scalar {c : Char} {t rest : Text} {v : Value} (hspace : isJsonSpace c = false)
    (hpunctuation : punctuation? c = none) (h : scalar? (c :: t) = some (v, rest)) :
    tokens? (c :: t) = (tokens? rest).map (.scalar v :: ·) := by
  rw [tokens?, if_neg (by simp [hspace]), hpunctuation]
  dsimp only
  split
  · next hnone => simp [h] at hnone
  · next hsome =>
    rw [h] at hsome
    cases hsome
    rfl

/-! ### Strings -/

theorem hex4?_control : ∀ n < 32, hex4? '0' '0' (hexDigit (n / 16)) (hexDigit (n % 16)) = some n := by
  decide

theorem stringBody?_escape {e : Char} {t rest : Text} (h : escape? t = some (e, rest)) :
    stringBody? ('\\' :: t) = (stringBody? rest).map fun p => (e :: p.1, p.2) := by
  rw [stringBody?, if_neg (by decide), if_pos rfl]
  split
  · next hnone => simp [h] at hnone
  · next hsome =>
    rw [h] at hsome
    cases hsome
    rfl

theorem stringBody?_escapeChar (c : Char) (t : Text) :
    stringBody? (escapeChar c ++ t) = (stringBody? t).map fun p => (c :: p.1, p.2) := by
  unfold escapeChar
  split_ifs with hquote hback hfeed hreturn htab hbell hform hcontrol
  · subst hquote
    exact stringBody?_escape rfl
  · subst hback
    exact stringBody?_escape rfl
  · subst hfeed
    exact stringBody?_escape rfl
  · subst hreturn
    exact stringBody?_escape rfl
  · subst htab
    exact stringBody?_escape rfl
  · subst hbell
    exact stringBody?_escape rfl
  · subst hform
    exact stringBody?_escape rfl
  · apply stringBody?_escape
    have hlow : isLowSurrogate c.toNat = false := by
      simp only [isLowSurrogate, Bool.and_eq_false_iff, decide_eq_false_iff_not]
      omega
    have hhigh : isHighSurrogate c.toNat = false := by
      simp only [isHighSurrogate, Bool.and_eq_false_iff, decide_eq_false_iff_not]
      omega
    change escape? ('u' :: '0' :: '0' :: hexDigit (c.toNat / 16) :: hexDigit (c.toNat % 16) :: t) = _
    rw [escape?, hex4?_control c.toNat hcontrol]
    simp [hlow, hhigh, Char.ofNat_toNat]
  · rw [List.singleton_append, stringBody?, if_neg hquote, if_neg hback, if_neg hcontrol]

/-- A quoted text is read up to its closing quote. -/
theorem stringBody?_flatMap (s t : Text) :
    stringBody? (s.flatMap escapeChar ++ '"' :: t) = some (s, t) := by
  induction s with
  | nil => rw [List.flatMap_nil, List.nil_append, stringBody?, if_pos rfl]
  | cons c s ih =>
    rw [List.flatMap_cons, List.append_assoc, stringBody?_escapeChar, ih]
    rfl

theorem tokens?_quote (s t : Text) :
    tokens? (quote s ++ t) = (tokens? t).map (.scalar (.string s) :: ·) := by
  have hscalar : scalar? ('"' :: (s.flatMap escapeChar ++ '"' :: t)) = some (.string s, t) := by
    rw [scalar?, stringBody?_flatMap]
    rfl
  rw [quote, List.cons_append, List.append_assoc, List.singleton_append]
  exact tokens?_scalar rfl rfl hscalar

/-! ### Numbers -/

/-- The text does not go on with a number. -/
def EndsNumber (t : Text) : Prop :=
  ∀ c ∈ t.head?, Text.isDigit c = false ∧ c ≠ '.' ∧ c ≠ 'e' ∧ c ≠ 'E'

theorem endsNumber_cons {c : Char} (h : Text.isDigit c = false ∧ c ≠ '.' ∧ c ≠ 'e' ∧ c ≠ 'E')
    (t : Text) : EndsNumber (c :: t) := by
  intro d hd
  cases hd
  exact h

theorem isDigit_of_char {c : Char} (h : c.isDigit = true) : Text.isDigit c = true := by
  simp only [Char.isDigit, Bool.and_eq_true, decide_eq_true_eq] at h
  have hbounds : '0' ≤ c ∧ c ≤ '9' := h
  simp [Text.isDigit, hbounds]

theorem isDigit_of_mem_ofNat {n : Nat} : ∀ c ∈ Text.ofNat n, Text.isDigit c = true :=
  fun _ hc => isDigit_of_char (Text.isDigit_of_mem_ofNat hc)

theorem head?_ofNat {n : Nat} (h : 0 < n) : (Text.ofNat n).head? ≠ some '0' := by
  rw [Text.ofNat_eq_toDigits]
  induction n using Nat.strong_induction_on with
  | _ n ih =>
    rw [Nat.toDigits_eq_if (by decide)]
    split_ifs with hsmall
    · have hdigits : ∀ m < 10, 0 < m → [Nat.digitChar m].head? ≠ some '0' := by decide
      exact hdigits n hsmall h
    · have hrest := ih (n / 10) (by omega) (by omega)
      rw [List.head?_append]
      cases hhead : (Nat.toDigits 10 (n / 10)).head? with
      | none => exact absurd (List.head?_eq_none_iff.mp hhead) Nat.toDigits_ne_nil
      | some c =>
        rw [hhead] at hrest
        exact hrest

theorem digitRun_ofNat {n : Nat} {t : Text} (h : EndsNumber t) :
    digitRun (Text.ofNat n ++ t) = (Text.ofNat n, t) := by
  have hrest : t.takeWhile Text.isDigit = [] ∧ t.dropWhile Text.isDigit = t := by
    cases t with
    | nil => exact ⟨rfl, rfl⟩
    | cons c t =>
      have hc := (h c rfl).1
      simp [hc]
  rw [digitRun, List.takeWhile_append_of_pos isDigit_of_mem_ofNat,
    List.dropWhile_append_of_pos isDigit_of_mem_ofNat, hrest.1, hrest.2, List.append_nil]

theorem le_of_digitsFrom? {t : Text} {acc n : Nat} (h : Text.digitsFrom? 10 acc t = some n) :
    acc ≤ n := by
  induction t generalizing acc with
  | nil =>
    cases h
    exact Nat.le_refl _
  | cons c t ih =>
    rw [Text.digitsFrom?] at h
    split_ifs at h
    have hle := ih h
    omega

theorem appendDigits_of_digitsFrom? {t : Text} {acc n : Nat}
    (h : Text.digitsFrom? 10 acc t = some n) (hn : n ≤ maxSignificand) :
    appendDigits acc t = (n, []) := by
  induction t generalizing acc with
  | nil =>
    cases h
    rfl
  | cons c t ih =>
    rw [Text.digitsFrom?] at h
    split_ifs at h
    have hle := le_of_digitsFrom? h
    rw [appendDigits, if_neg (by omega)]
    exact ih h

theorem appendDigits_ofNat {n : Nat} (hn : n ≤ maxSignificand) :
    appendDigits 0 (Text.ofNat n) = (n, []) := by
  have hdigits := Text.digits?_ofNat n
  rw [Text.digits?, if_neg (by simpa using Text.ofNat_ne_nil n)] at hdigits
  exact appendDigits_of_digitsFrom? hdigits hn

theorem numeral?_ofInt {i : Int} {t : Text} (h : EndsNumber t) :
    numeral? (Text.ofInt i ++ t) = some (⟨decide (i < 0), Text.ofNat i.natAbs, none, none⟩, t) := by
  have hminus : minus (Text.ofInt i ++ t) = (decide (i < 0), Text.ofNat i.natAbs ++ t) := by
    unfold Text.ofInt
    split_ifs with hi
    · simp [minus, hi]
    · cases hdigits : Text.ofNat i.natAbs with
      | nil => exact absurd hdigits (Text.ofNat_ne_nil _)
      | cons c rest =>
        have hc := isDigit_of_mem_ofNat c (hdigits ▸ List.mem_cons_self)
        unfold minus
        split
        · next hdash =>
          cases hdash
          simp [Text.isDigit] at hc
        · simp [hi]
  have hwhole : ¬ ((Text.ofNat i.natAbs).isEmpty = true ∨
      ((Text.ofNat i.natAbs).length > 1 ∧ (Text.ofNat i.natAbs).head? = some '0')) := by
    rintro (hempty | ⟨hlong, hzero⟩)
    · exact Text.ofNat_ne_nil _ (List.isEmpty_iff.mp hempty)
    · rcases Nat.eq_zero_or_pos i.natAbs with hi | hi
      · rw [hi] at hlong
        exact absurd hlong (by decide)
      · exact head?_ofNat hi hzero
  have hfraction : fraction? t = some (none, t) := by
    unfold fraction?
    split
    · exact absurd rfl (h '.' rfl).2.1
    · rfl
  have hexponent : exponent? t = some (none, t) := by
    unfold exponent?
    split
    · next c rest =>
      have hc := h c rfl
      rw [if_neg (by simp [hc])]
    · rfl
  simp only [numeral?, hminus, digitRun_ofNat h, if_neg hwhole, hfraction, hexponent, Option.bind_some,
    Option.map_some]

theorem number?_ofInt {i : Int} (hi : -(twoTo 63 : Int) ≤ i ∧ i < twoTo 63) :
    Numeral.number? ⟨decide (i < 0), Text.ofNat i.natAbs, none, none⟩ = some (.int i) := by
  have hpower : twoTo 63 ≤ maxSignificand := by decide
  have hbound : i.natAbs ≤ twoTo 63 := by omega
  simp only [Numeral.number?, appendDigits_ofNat (hbound.trans hpower), List.isEmpty_nil, if_true]
  by_cases hneg : i < 0
  · have hpos : 0 < i.natAbs ∧ i.natAbs ≤ twoTo 63 := ⟨by omega, hbound⟩
    simp only [hneg, decide_true, if_true, hpos, and_self, Option.some.injEq, Number.int.injEq]
    omega
  · simp only [hneg, decide_false, Bool.false_eq_true, if_false, Option.some.injEq,
      Number.int.injEq]
    omega

/-- The characters that blanks, punctuation, strings and words start with. -/
def otherStarts : List Char :=
  [' ', '\n', '\t', '\r', '[', ']', '\x7b', '\x7d', ',', ':', '"', 'n', 't', 'f']

theorem numberStart_ne {c : Char} (h : Text.isDigit c = true ∨ c = '-') : ∀ d ∈ otherStarts, c ≠ d := by
  have hothers : ∀ d ∈ otherStarts, Text.isDigit d = false ∧ d ≠ '-' := by
    simp [otherStarts, Text.isDigit]
  rintro d hd rfl
  obtain ⟨hdigit, hdash⟩ := hothers c hd
  rcases h with h | h
  · rw [hdigit] at h
    cases h
  · exact hdash h

theorem tokens?_ofInt {i : Int} (hi : -(twoTo 63 : Int) ≤ i ∧ i < twoTo 63) {t : Text}
    (h : EndsNumber t) :
    tokens? (Text.ofInt i ++ t) = (tokens? t).map (.scalar (.number (.int i)) :: ·) := by
  have hnumeral := numeral?_ofInt (i := i) h
  obtain ⟨c, rest, htext⟩ := List.exists_cons_of_ne_nil (Text.ofInt_ne_nil i)
  have hc : Text.isDigit c = true ∨ c = '-' :=
    (Text.mem_ofInt (htext ▸ List.mem_cons_self : c ∈ Text.ofInt i)).imp_left isDigit_of_char
  have hne := numberStart_ne hc
  simp only [otherStarts, List.forall_mem_cons, ne_eq] at hne
  rw [htext, List.cons_append] at hnumeral ⊢
  have hword : wordValue? (c :: (rest ++ t)) = none := by
    simp [wordValue?, Text.after?, hne, @eq_comm _ _ c]
  have hscalar : scalar? (c :: (rest ++ t)) = some (.number (.int i), t) := by
    unfold scalar?
    split
    · next hquote =>
      cases hquote
      simp at hne
    · simp [hword, hnumeral, number?_ofInt hi]
  refine tokens?_scalar ?_ ?_ hscalar
  · simp [isJsonSpace, hne]
  · simp [punctuation?, hne]

/-! ### Values -/

/-- The text is taken apart into these tokens, whatever follows. -/
def Lexes (text : Text) (ts : List Token) : Prop :=
  ∀ t, EndsNumber t → tokens? (text ++ t) = (tokens? t).map (ts ++ ·)

theorem lexes_null : Lexes "null".toList [.scalar .null] :=
  fun _ _ => tokens?_scalar rfl rfl rfl

theorem lexes_bool (b : Bool) : Lexes (scalar (.bool b)) [.scalar (.bool b)] := by
  intro t _
  cases b with
  | false => exact tokens?_scalar rfl rfl rfl
  | true => exact tokens?_scalar rfl rfl rfl

theorem map_map_append (ts : Option (List Token)) (before after : List Token) :
    (ts.map (after ++ ·)).map (before ++ ·) = ts.map (before ++ after ++ ·) := by
  simp [Option.map_map, Function.comp_def]

theorem endsNumber_spaces {blanks : Text} (h : ∀ c ∈ blanks, isJsonSpace c = true) {t : Text}
    (ht : EndsNumber t) : EndsNumber (blanks ++ t) := by
  cases blanks with
  | nil => exact ht
  | cons c blanks =>
    have hc := h c List.mem_cons_self
    refine endsNumber_cons ?_ _
    simp only [isJsonSpace, Bool.or_eq_true, decide_eq_true_eq] at hc
    rcases hc with ((rfl | rfl) | rfl) | rfl <;> decide

/-- Entries with commas between them, up to the closing bracket. -/
theorem tokens?_join {blanks last : Text} (hblanks : ∀ c ∈ blanks, isJsonSpace c = true)
    (hlast : ∀ c ∈ last, isJsonSpace c = true) {closing : Char} {p : Token}
    (hclosing : punctuation? closing = some p) {entries : List Text} {parts : List (List Token)}
    (h : List.Forall₂ Lexes entries parts) (hne : entries ≠ []) (t : Text) :
    tokens? (Text.join (',' :: blanks) entries ++ (last ++ closing :: t)) =
      (tokens? t).map (separated p parts ++ ·) := by
  have hclose : tokens? (last ++ closing :: t) = (tokens? t).map ([p] ++ ·) := by
    rw [tokens?_spaces hlast]
    exact tokens?_punctuation hclosing t
  have hends : EndsNumber (last ++ closing :: t) :=
    endsNumber_spaces hlast (endsNumber_cons (punctuation?_start hclosing).2 t)
  have hcomma : ∀ u, EndsNumber (',' :: blanks ++ u) ∧
      tokens? (',' :: blanks ++ u) = (tokens? u).map ([.comma] ++ ·) := by
    intro u
    refine ⟨endsNumber_cons (by decide) _, ?_⟩
    rw [List.cons_append, tokens?_punctuation rfl, tokens?_spaces hblanks]
    rfl
  induction h with
  | nil => exact absurd rfl hne
  | @cons text ts texts parts htext hrest ih =>
    cases hrest with
    | nil =>
      rw [Text.join_singleton, htext _ hends, hclose, map_map_append]
      rfl
    | @cons next ts' texts parts hnext hrest =>
      obtain ⟨hend, htokens⟩ := hcomma (Text.join (',' :: blanks) (next :: texts) ++
        (last ++ closing :: t))
      rw [Text.join_cons_cons, List.append_assoc, List.append_assoc, htext _ hend, htokens, ih (by simp),
        map_map_append, map_map_append, separated]
      simp

theorem newline_spaces (depth : Nat) : ∀ c ∈ newline depth, isJsonSpace c = true := by
  intro c hc
  rcases List.mem_cons.mp hc with rfl | hc
  · rfl
  · rw [List.eq_of_mem_replicate hc]
    rfl

theorem lexes_bracketed {opening closing : Char} {o p : Token} (hopening : punctuation? opening = some o)
    (hclosing : punctuation? closing = some p) (depth : Nat) {entries : List Text}
    {parts : List (List Token)} (h : List.Forall₂ Lexes entries parts) :
    Lexes (bracketed opening closing depth entries) (o :: separated p parts) := by
  intro t _
  unfold bracketed
  split_ifs with hempty
  · cases h with
    | nil =>
      rw [List.cons_append, List.singleton_append, tokens?_punctuation hopening,
        tokens?_punctuation hclosing, Option.map_map]
      rfl
    | cons => cases hempty
  · have hne : entries ≠ [] := fun hnil => hempty (List.isEmpty_iff.mpr hnil)
    have hjoin := tokens?_join (newline_spaces (depth + 1)) (newline_spaces depth) hclosing h hne t
    simp only [List.cons_append, List.append_assoc, List.nil_append]
    rw [tokens?_punctuation hopening, tokens?_spaces (newline_spaces (depth + 1)), hjoin,
      Option.map_map]
    rfl

/-- Whole numbers of 64 bits are the only numbers in the value. -/
inductive Integral : Value → Prop
  | null : Integral .null
  | bool (b : Bool) : Integral (.bool b)
  | int {i : Int} (h : -(twoTo 63 : Int) ≤ i ∧ i < twoTo 63) : Integral (.number (.int i))
  | string (s : Text) : Integral (.string s)
  | array {items : List Value} (h : ∀ v ∈ items, Integral v) : Integral (.array items)
  | object {fields : Fields} (h : ∀ f ∈ fields, Integral f.2) : Integral (.object fields)

theorem lexes_items {items : List Value} {depth : Nat}
    (h : ∀ v ∈ items, Lexes (prettyAt depth v) (valueTokens v)) :
    List.Forall₂ Lexes (prettyItems depth items) (itemTokens items) := by
  induction items with
  | nil => exact .nil
  | cons v rest ih =>
    exact .cons (h v List.mem_cons_self) (ih fun w hw => h w (List.mem_cons_of_mem _ hw))

theorem lexes_fields {fields : Fields} {depth : Nat}
    (h : ∀ f ∈ fields, Lexes (prettyAt depth f.2) (valueTokens f.2)) :
    List.Forall₂ Lexes (prettyFields depth fields) (fieldTokens fields) := by
  induction fields with
  | nil => exact .nil
  | cons f rest ih =>
    obtain ⟨k, v⟩ := f
    refine .cons ?_ (ih fun f hf => h f (List.mem_cons_of_mem _ hf))
    intro t ht
    rw [List.append_assoc, tokens?_quote, List.cons_append, List.cons_append,
      tokens?_punctuation rfl, tokens?_space rfl, h _ List.mem_cons_self t ht, Option.map_map,
      Option.map_map]
    rfl

/-- The written form of a value has the tokens of the value. -/
theorem lexes_prettyAt {v : Value} (h : Integral v) (depth : Nat) :
    Lexes (prettyAt depth v) (valueTokens v) := by
  induction h generalizing depth with
  | null => exact lexes_null
  | bool b => exact lexes_bool b
  | int hi => exact fun t ht => tokens?_ofInt hi ht
  | string s => exact fun t _ => tokens?_quote s t
  | array _ ih => exact lexes_bracketed rfl rfl depth (lexes_items fun v hv => ih v hv _)
  | object _ ih => exact lexes_bracketed rfl rfl depth (lexes_fields fun f hf => ih f hf _)

end TemplateDocs.Json
