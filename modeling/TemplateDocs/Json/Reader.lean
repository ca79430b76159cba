import TemplateDocs.Json.Token
import TemplateDocs.Text.Taken

/-!
# Reading JSON

`parse?` accepts exactly one value between blanks. Arrays and objects may be nested up to
`maxDepth` deep. Of two entries with one key the last counts.
-/
namespace TemplateDocs.Json

def isJsonSpace (c : Char) : Bool := c = ' ' || c = '\n' || c = '\t' || c = '\r'

/-- The words and what they stand for. -/
def wordValue? (t : Text) : Option (Value × Text) :=
  match Text.after? "null".toList t with
  | some r => some (.null, r)
  | none =>
    match Text.after? "true".toList t with
    | some r => some (.bool true, r)
    | none => (Text.after? "false".toList t).map fun r => (.bool false, r)

theorem wordValue?_length {t r : Text} {v : Value} (h : wordValue? t = some (v, r)) :
    r.length < t.length := by
  unfold wordValue? at h
  split at h
  · rename_i r' hr
    have := Text.after?_length hr
    simp only [Option.some.injEq, Prod.mk.injEq] at h
    simp only [h.2] at this
    simp at this
    omega
  · split at h
    · rename_i r' hr
      have := Text.after?_length hr
      simp only [Option.some.injEq, Prod.mk.injEq] at h
      simp only [h.2] at this
      simp at this
      omega
    · obtain ⟨r', hr, h⟩ := Option.map_eq_some_iff.1 h
      have := Text.after?_length hr
      simp only [Prod.mk.injEq] at h
      simp only [h.2] at this
      simp at this
      omega

def punctuation? (c : Char) : Option Token :=
  if c = '[' then some .openArray
  else if c = ']' then some .closeArray
  else if c = '\x7b' then some .openObject
  else if c = '\x7d' then some .closeObject
  else if c = ',' then some .comma
  else if c = ':' then some .colon
  else none

/-- A string, number or word at the front of a text. -/
def scalar? (t : Text) : Option (Value × Text) :=
  match t with
  | '"' :: rest => (stringBody? rest).map fun (s, r) => (.string s, r)
  | _ =>
    match wordValue? t with
    | some found => some found
    | none => (numeral? t).bind fun (n, r) => n.number?.map fun n => (.number n, r)

theorem scalar?_length {t r : Text} {v : Value} (h : scalar? t = some (v, r)) :
    r.length < t.length := by
  unfold scalar? at h
  split at h
  · obtain ⟨⟨s, r'⟩, hs, h⟩ := Option.map_eq_some_iff.1 h
    have := stringBody?_length hs
    simp only [Prod.mk.injEq] at h
    simp only [h.2] at this
    simp
    omega
  · split at h
    · rename_i hw
      simp only [Option.some.injEq] at h
      exact wordValue?_length (h ▸ hw)
    · obtain ⟨⟨n, r'⟩, hn, h⟩ := Option.bind_eq_some_iff.1 h
      obtain ⟨n', _, h⟩ := Option.map_eq_some_iff.1 h
      have := numeral?_length hn
      simp only [Prod.mk.injEq] at h
      simp only [h.2] at this
      exact this

/-- The tokens of a text. -/
def tokens? (t : Text) : Option (List Token) :=
  match t with
  | [] => some []
  | c :: rest =>
    if isJsonSpace c then tokens? rest
    else
      match punctuation? c with
      | some p => (tokens? rest).map (p :: ·)
      | none =>
        match h : scalar? (c :: rest) with
        | none => none
        | some (v, r) =>
          have : r.length ≤ rest.length := Nat.le_of_lt_succ (scalar?_length h)
          (tokens? r).map (.scalar v :: ·)
termination_by t.length

/-- Brackets may be open this many levels deep. -/
def maxDepth : Nat := 127

mutual

def readValue (depth : Nat) (ts : List Token) : Option (Taken Value ts) :=
  match ts with
  | .scalar v :: r => some ⟨v, r, by simp⟩
  | .openArray :: .closeArray :: r =>
    if depth = 0 then none else some ⟨.array [], r, by simp only [List.length_cons]; omega⟩
  | .openArray :: r =>
    match depth with
    | 0 => none
    | d + 1 => (readItems d r).map fun items =>
      ⟨.array items.value, items.rest, Nat.lt_succ_of_lt items.shorter⟩
  | .openObject :: .closeObject :: r =>
    if depth = 0 then none else some ⟨.object [], r, by simp only [List.length_cons]; omega⟩
  | .openObject :: r =>
    match depth with
    | 0 => none
    | d + 1 => (readFields d r).map fun fields =>
      ⟨.object (Fields.ofList fields.value), fields.rest, Nat.lt_succ_of_lt fields.shorter⟩
  | _ => none
termination_by (ts.length, 0)

/-- The items up to the closing bracket. -/
def readItems (depth : Nat) (ts : List Token) : Option (Taken (List Value) ts) :=
  match readValue depth ts with
  | some ⟨v, .comma :: r, h⟩ =>
    have hr : r.length < ts.length := Nat.lt_trans (Nat.lt_succ_self _) h
    (readItems depth r).map fun items =>
      ⟨v :: items.value, items.rest, Nat.lt_trans items.shorter hr⟩
  | some ⟨v, .closeArray :: r, h⟩ => some ⟨[v], r, Nat.lt_trans (Nat.lt_succ_self _) h⟩
  | _ => none
termination_by (ts.length, 1)

/-- The entries up to the closing brace, in the order they stand. -/
def readFields (depth : Nat) (ts : List Token) : Option (Taken (List (Text × Value)) ts) :=
  match ts with
  | .scalar (.string k) :: .colon :: s =>
    match readValue depth s with
    | some ⟨v, .comma :: r, h⟩ =>
      have hr : r.length < (Token.scalar (.string k) :: Token.colon :: s).length := by
        simp at h ⊢
        omega
      (readFields depth r).map fun fields =>
        ⟨(k, v) :: fields.value, fields.rest, Nat.lt_trans fields.shorter hr⟩
    | some ⟨v, .closeObject :: r, h⟩ => some ⟨[(k, v)], r, by simp at h ⊢; omega⟩
    | _ => none
  | _ => none
termination_by (ts.length, 1)

end

/-- The value a text holds. -/
def parse? (t : Text) : Option Value :=
  (tokens? t).bind fun ts =>
    (readValue maxDepth ts).bind fun r => if r.rest.isEmpty then some r.value else none

end TemplateDocs.Json
