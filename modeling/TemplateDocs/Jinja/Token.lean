import TemplateDocs.Jinja.Fault
import TemplateDocs.Json.Token
import TemplateDocs.Text.Taken

/-!
# Jinja tokens

A template is text with variable blocks, statement blocks and comments in it. A minus sign at the
edge of any of these removes the blanks next to it. What cannot be read is the last token, so that a
fault counts only once everything before it was accepted.
-/
namespace TemplateDocs.Jinja

inductive Token where
  | data (t : Text)
  | variableStart
  | variableEnd
  | blockStart
  | blockEnd
  | name (n : Text)
  | string (s : Text)
  | integer (n : Nat)
  | float (x : Float)
  | mark (m : Text)
  | fault (cause : Cause)
  /-- The end of the template. -/
  | finish

/-- What a token is called in a message. -/
def Token.shown : Token → Text
  | .data _ => "template-data".toList
  | .variableStart => "start of variable block".toList
  | .variableEnd => "end of variable block".toList
  | .blockStart => "start of block".toList
  | .blockEnd => "end of block".toList
  | .name _ => "identifier".toList
  | .string _ => "string".toList
  | .integer _ => "integer".toList
  | .float _ => "float".toList
  | .mark m => '`' :: m ++ ['`']
  | .fault _ | .finish => "end of input".toList

/-- A token and the line it starts on. -/
structure Lexeme where
  token : Token
  line : Nat

/-! ## Tokens inside a block -/

def isNameStart (c : Char) : Bool := c = '_' || c.isAlpha

def isNameChar (c : Char) : Bool := isNameStart c || Text.isDigit c

/-- Blanks that may stand between the tokens of a block. -/
def isGap (c : Char) : Bool := c = ' ' || c = '\t' || c = '\n' || c = '\r' || c = '\x0c'

def doubleMarks : List Text := ["//", "**", "==", "!=", ">=", "<="].map String.toList

def singleMarks : Text := "+-*/%!.,:~|=><()[]\x7b\x7d".toList

/-- Resolves the escapes of a string. -/
def unescape? (t : Text) : Option Text :=
  match t with
  | [] => some []
  | '\\' :: '\'' :: rest => (unescape? rest).map ('\'' :: ·)
  | '\\' :: rest =>
    match h : Json.escape? rest with
    | none => none
    | some (c, r) =>
      have := Json.escape?_length h
      (unescape? r).map (c :: ·)
  | c :: rest => (unescape? rest).map (c :: ·)
termination_by t.length

/-- The characters up to a closing quote that no backslash precedes, and what follows it. -/
def quoted? (quote : Char) : Text → Option (Text × Text)
  | [] => none
  | ['\\'] => none
  | '\\' :: c :: rest => (quoted? quote rest).map fun (s, r) => ('\\' :: c :: s, r)
  | c :: rest =>
    if c = quote then some ([], rest) else (quoted? quote rest).map fun (s, r) => (c :: s, r)

theorem quoted?_length {quote : Char} {t s r : Text} (h : quoted? quote t = some (s, r)) :
    r.length < t.length := by
  fun_induction quoted? quote t generalizing s r with
  | case1 => simp at h
  | case2 => simp at h
  | case3 c rest ih =>
    obtain ⟨⟨s', r'⟩, hs, hr⟩ := Option.map_eq_some_iff.1 h
    simp only [Prod.mk.injEq] at hr
    have := ih hs
    simp only [hr.2] at this
    simp
    omega
  | case4 rest => simp_all
  | case5 c rest _ _ _ ih =>
    obtain ⟨⟨s', r'⟩, hs, hr⟩ := Option.map_eq_some_iff.1 h
    simp only [Prod.mk.injEq] at hr
    have := ih hs
    simp only [hr.2] at this
    simp
    omega

/-- How far the reading of a decimal number has come. -/
inductive NumberPart where
  | whole | fraction | exponent | exponentDigits
  deriving DecidableEq

def NumberPart.next? (part : NumberPart) (c : Char) : Option NumberPart :=
  match part with
  | .whole =>
    if c = '.' then some .fraction
    else if c = 'e' ∨ c = 'E' then some .exponent
    else if Text.isDigit c ∨ c = '_' then some .whole
    else none
  | .fraction =>
    if c = 'e' ∨ c = 'E' then some .exponent
    else if Text.isDigit c ∨ c = '_' then some .fraction
    else none
  | .exponent =>
    if c = '+' ∨ c = '-' ∨ Text.isDigit c then some .exponentDigits
    else if c = '_' then some .exponent
    else none
  | .exponentDigits => if Text.isDigit c ∨ c = '_' then some .exponentDigits else none

/-- The characters of a decimal number, the part it ends in, and what follows. -/
def numeral (part : NumberPart) : Text → Text × NumberPart × Text
  | [] => ([], part, [])
  | c :: rest =>
    match part.next? c with
    | none => ([], part, c :: rest)
    | some next =>
      let (s, last, r) := numeral next rest
      (c :: s, last, r)

theorem numeral_length (part : NumberPart) (t : Text) : (numeral part t).2.2.length ≤ t.length := by
  fun_induction numeral part t with
  | case1 => simp
  | case2 => simp
  | case3 part c rest next _ s last r heq ih =>
    rw [heq] at ih
    simp only [List.length_cons] at ih ⊢
    omega

def radixOf : Char → Option Nat
  | 'b' | 'B' => some 2
  | 'o' | 'O' => some 8
  | 'x' | 'X' => some 16
  | _ => none

def isRadixChar (radix : Nat) (c : Char) : Bool :=
  Text.isDigit c || c = '_' || (radix == 16 && decide (Text.digitValue c < 16))

/-- The largest integer that can be written. -/
def maxInteger : Nat := twoTo 128 - 1

/-- A whole number in the digits that were read. -/
def integerToken (radix : Nat) (written : Text) : Token :=
  let digits := written.filter (· ≠ '_')
  if written.getLast? = some '_' then .fault .openNumber
  else
    match Text.digits? radix digits with
    | some n => if n ≤ maxInteger then .integer n else .fault .numberTooLarge
    | none => .fault .numberTooLarge

def decimalToken (part : NumberPart) (written : Text) : Token :=
  let digits := written.filter (· ≠ '_')
  if part = .whole then integerToken 10 written
  else if written.getLast? = some '_' then .fault .openNumber
  else
    match Decimal.parse? digits with
    | some w => .float w.toFloat
    | none => .fault .badNumber

theorem length_dropWhile_le (p : Char → Bool) (t : Text) : (t.dropWhile p).length ≤ t.length :=
  (List.dropWhile_suffix p).length_le

/-- A number whose first digit is `first`. -/
def number (first : Char) (rest : Text) : Taken Token (first :: rest) :=
  match rest with
  | [] => .step (decimalToken .whole [first])
  | c :: more =>
    match if first = '0' then radixOf c else none with
    | some radix =>
      ⟨integerToken radix (more.takeWhile (isRadixChar radix)), more.dropWhile (isRadixChar radix),
        Nat.lt_succ_of_lt (Nat.lt_succ_of_le (length_dropWhile_le (isRadixChar radix) more))⟩
    | none =>
      ⟨decimalToken (numeral .whole (first :: c :: more)).2.1 (numeral .whole (first :: c :: more)).1,
        (numeral .whole (c :: more)).2.2,
        Nat.lt_succ_of_le (numeral_length .whole (c :: more))⟩

/-- One token of a block; the text starts with no blank and no end of the block. -/
def blockToken (c : Char) (rest : Text) : Taken Token (c :: rest) :=
  if Text.isDigit c then number c rest
  else if c = '"' ∨ c = '\'' then
    match h : quoted? c rest with
    | none => .step (.fault (.unclosed "string".toList))
    | some (s, r) =>
      ⟨((unescape? s).map Token.string).getD (.fault .badEscape), r,
        Nat.lt_succ_of_lt (quoted?_length h)⟩
  else
    match rest with
    | d :: more =>
      if doubleMarks.contains [c, d] then ⟨.mark [c, d], more, Nat.lt_succ_of_lt (Nat.lt_succ_self _)⟩
      else if singleMarks.elem c then .step (.mark [c])
      else if isNameStart c then
        ⟨.name (c :: (d :: more).takeWhile isNameChar), (d :: more).dropWhile isNameChar,
          Nat.lt_succ_of_le (length_dropWhile_le _ _)⟩
      else .step (.fault .badCharacter)
    | [] =>
      if singleMarks.elem c then .step (.mark [c])
      else if isNameStart c then .step (.name [c])
      else .step (.fault .badCharacter)

/-! ## Blocks and text -/

inductive Opening where
  | variable_ | block | comment
  deriving DecidableEq

def opening? : Char → Option Opening
  | '\x7b' => some .variable_
  | '%' => some .block
  | '#' => some .comment
  | _ => none

/-- The text before the first opening, and what follows the opening's two characters. -/
def cutOpening : Text → Text × Option (Opening × Text)
  | [] => ([], none)
  | [c] => ([c], none)
  | c :: d :: rest =>
    match if c = '\x7b' then opening? d else none with
    | some o => ([], some (o, rest))
    | none =>
      let (lead, found) := cutOpening (d :: rest)
      (c :: lead, found)

theorem cutOpening_length {t lead rest : Text} {o : Opening}
    (h : cutOpening t = (lead, some (o, rest))) : rest.length < t.length := by
  fun_induction cutOpening t generalizing lead rest o with
  | case1 => simp at h
  | case2 => simp at h
  | case3 c d rest' o' _ =>
    simp only [Prod.mk.injEq, Option.some.injEq] at h
    rw [← h.2.2, List.length_cons, List.length_cons]
    omega
  | case4 c d rest' _ lead' found heq ih =>
    simp only [Prod.mk.injEq] at h
    have := ih (heq.trans (by rw [h.2]))
    simp at this ⊢
    omega

/-- A sign that controls blanks, and what follows it. -/
def control : Text → Option Char × Text
  | '-' :: rest => (some '-', rest)
  | '+' :: rest => (some '+', rest)
  | rest => (none, rest)

theorem control_length (t : Text) : (control t).2.length ≤ t.length := by
  unfold control
  split <;> simp

/-- Reads `name` and the end of a block, with blanks around the name, off the front. -/
def plainTag? (name : Text) (t : Text) : Option (Option Char × Text) :=
  (Text.after? name (t.dropWhile isGap)).bind fun rest =>
    let (sign, rest) := control (rest.dropWhile isGap)
    (Text.after? "%\x7d".toList rest).map fun rest => (sign, rest)

/-- The content of a raw block, whether blanks at its end go, the sign at the end of the closing
tag, and what follows it. -/
def rawContent? : Text → Option (Text × Option Char × Option Char × Text)
  | [] => none
  | c :: rest =>
    let closing :=
      (Text.after? "\x7b%".toList (c :: rest)).bind fun inner =>
        let (sign, inner) := control inner
        (plainTag? "endraw".toList inner).map fun (after, r) => (([] : Text), sign, after, r)
    match closing with
    | some found => some found
    | none => (rawContent? rest).map fun (content, found) => (c :: content, found)

theorem plainTag?_length {name t r : Text} {sign : Option Char}
    (h : plainTag? name t = some (sign, r)) : r.length < t.length := by
  unfold plainTag? at h
  simp only [Option.bind_eq_some_iff, Option.map_eq_some_iff] at h
  obtain ⟨rest, h₁, rest', h₂, h₃⟩ := h
  have e₁ := Text.after?_length h₁
  have e₂ := Text.after?_length h₂
  have e₃ := length_dropWhile_le isGap t
  have e₄ := length_dropWhile_le isGap rest
  have e₅ := control_length (rest.dropWhile isGap)
  simp only [Prod.mk.injEq] at h₃
  rw [← h₃.2]
  simp at e₂
  omega

theorem rawContent?_length {t content r : Text} {sign after : Option Char}
    (h : rawContent? t = some (content, sign, after, r)) : r.length < t.length := by
  induction t generalizing content with
  | nil => simp [rawContent?] at h
  | cons c rest ih =>
    unfold rawContent? at h
    simp only at h
    split at h
    · rename_i found hfound
      simp only [Option.bind_eq_some_iff, Option.map_eq_some_iff] at hfound
      obtain ⟨inner, h₁, ⟨s, r'⟩, h₂, h₃⟩ := hfound
      have e₁ := Text.after?_length h₁
      have e₂ := plainTag?_length h₂
      have e₃ := control_length inner
      simp only [Option.some.injEq] at h
      rw [h] at h₃
      simp only [Prod.mk.injEq] at h₃
      rw [← h₃.2.2.2]
      omega
    · obtain ⟨⟨content', found⟩, hs, h₂⟩ := Option.map_eq_some_iff.1 h
      simp only [Prod.mk.injEq] at h₂
      have := ih (hs.trans (by rw [h₂.2]))
      simp
      omega

def newlines (t : Text) : Nat := t.count '\n'

/-- The line reached when reading goes on with `rest`, a suffix of `t` that starts on `line`. -/
def lineAt (line : Nat) (t rest : Text) : Nat := line + newlines (t.take (t.length - rest.length))

/-- The end of a block at the front of a text: the sign before it and what follows. -/
def blockEnd? (closing : Text) (t : Text) : Option (Option Char × Text) :=
  let (sign, rest) := control t
  (Text.after? closing rest).map fun r => (sign, r)

theorem blockEnd?_length {closing t r : Text} {sign : Option Char}
    (h : blockEnd? closing t = some (sign, r)) : r.length + closing.length ≤ t.length := by
  unfold blockEnd? at h
  obtain ⟨r', h₁, h₂⟩ := Option.map_eq_some_iff.1 h
  have e₁ := Text.after?_length h₁
  have e₂ : (control t).2.length ≤ t.length := control_length t
  simp only [Prod.mk.injEq] at h₂
  rw [← h₂.2, e₁]
  exact e₂

def isOpenBracket (t : Token) : Bool :=
  match t with
  | .mark [c] => c = '(' || c = '[' || c = '\x7b'
  | _ => false

def isCloseBracket (t : Token) : Bool :=
  match t with
  | .mark [c] => c = ')' || c = ']' || c = '\x7d'
  | _ => false

def balanceAfter (balance : Int) (t : Token) : Int :=
  if isOpenBracket t then balance + 1 else if isCloseBracket t then balance - 1 else balance

def Token.isFault : Token → Bool
  | .fault _ => true
  | _ => false

/-- Which block is being read: its closing characters and the token for them. -/
structure Closing where
  mark : Text
  token : Token
  positive : 0 < mark.length := by decide

def Closing.ofVariable : Closing := { mark := "\x7d\x7d".toList, token := .variableEnd }

def Closing.ofBlock : Closing := { mark := "%\x7d".toList, token := .blockEnd }

/-- The end of the block at the front of a text; inside brackets there is none. -/
def Closing.end? (closing : Closing) (balance : Int) (t : Text) : Option (Option Char × Text) :=
  if balance = 0 then blockEnd? closing.mark t else none

theorem Closing.end?_length {closing : Closing} {balance : Int} {t r : Text} {sign : Option Char}
    (h : closing.end? balance t = some (sign, r)) : r.length < t.length := by
  unfold Closing.end? at h
  split at h
  · have := blockEnd?_length h
    have := closing.positive
    omega
  · simp at h

/-- A token for text, unless there is none. -/
def dataToken (line : Nat) (t : Text) : List Lexeme :=
  if t.isEmpty then [] else [⟨.data t, line⟩]

def trimIf (sign : Option Char) (trim : Text → Text) (t : Text) : Text :=
  if sign = some '-' then trim t else t

theorem trimIf_trimStart_length (sign : Option Char) (t : Text) :
    (trimIf sign Text.trimStart t).length ≤ t.length := by
  unfold trimIf
  split
  · exact length_dropWhile_le _ _
  · exact Nat.le_refl _

mutual

/-- The tokens of a text outside blocks, after a block that ended with `sign`. -/
def textTokens (line : Nat) (sign : Option Char) (t : Text) : List Lexeme :=
  have := trimIf_trimStart_length sign t
  let start := lineAt line t (trimIf sign Text.trimStart t)
  match h : cutOpening (trimIf sign Text.trimStart t) with
  | (lead, none) => dataToken start lead
  | (lead, some (o, rest)) =>
    have := cutOpening_length h
    have := control_length rest
    let here := start + newlines lead
    dataToken start (trimIf (control rest).1 Text.trimEnd lead) ++
      match o with
      | .comment =>
        match hc : Text.cut? "#\x7d".toList (control rest).2 with
        | none => [⟨.fault (.unclosed "comment".toList), here⟩]
        | some (body, after) =>
          have := Text.cut?_length hc
          let last := (if body.isEmpty then (control rest).1 else body.getLast?).filter (· = '-')
          textTokens (here + newlines body) last after
      | .variable_ => ⟨.variableStart, here⟩ :: blockTokens .ofVariable 0 here (control rest).2
      | .block =>
        match hr : plainTag? "raw".toList (control rest).2 with
        | none => ⟨.blockStart, here⟩ :: blockTokens .ofBlock 0 here (control rest).2
        | some (first, inner) =>
          have := plainTag?_length hr
          let here := lineAt here (control rest).2 inner
          match hi : rawContent? inner with
          | none => [⟨.fault (.unclosed "raw block".toList), here⟩]
          | some (content, before, after, r) =>
            have := rawContent?_length hi
            let kept := trimIf before Text.trimEnd (trimIf first Text.trimStart content)
            dataToken here kept ++ textTokens (lineAt here inner r) after r
termination_by t.length

/-- The tokens from inside a block on. -/
def blockTokens (closing : Closing) (balance : Int) (line : Nat) (t : Text) : List Lexeme :=
  have gap := length_dropWhile_le isGap t
  let here := lineAt line t (t.dropWhile isGap)
  match h : t.dropWhile isGap with
  | [] => []
  | c :: rest =>
    have : (c :: rest).length ≤ t.length := h ▸ gap
    match he : closing.end? balance (c :: rest) with
    | some (sign, after) =>
      have := Closing.end?_length he
      ⟨closing.token, here⟩ :: textTokens here sign after
    | none =>
      have := (blockToken c rest).shorter
      if (blockToken c rest).value.isFault then [⟨(blockToken c rest).value, here⟩]
      else
        ⟨(blockToken c rest).value, here⟩ ::
          blockTokens closing (balanceAfter balance (blockToken c rest).value)
            (lineAt here (c :: rest) (blockToken c rest).rest) (blockToken c rest).rest
termination_by t.length

end

/-- A template ends without its last line end. -/
def dropLineEnd (t : Text) : Text :=
  let t := if t.getLast? = some '\n' then t.dropLast else t
  if t.getLast? = some '\r' then t.dropLast else t

/-- The tokens of a template and its end, which counts to the line of the last token. -/
def tokens (t : Text) : List Lexeme :=
  let ts := textTokens 1 none (dropLineEnd t)
  ts ++ [⟨.finish, (ts.getLast?.map Lexeme.line).getD 1⟩]

end TemplateDocs.Jinja
