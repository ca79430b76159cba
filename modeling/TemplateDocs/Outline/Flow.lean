import TemplateDocs.Outline.Fault
import TemplateDocs.Outline.Plain

/-!
# Flow collections

Sequences `[a, b]` and mappings in braces, written on one line or gathered from several.
-/
namespace TemplateDocs.Outline.Flow

open Json (Value Fields)

/-- A value read off the front of a text, with a rest that is not longer. -/
structure Read (α : Type) (t : Text) where
  value : α
  rest : Text
  le : rest.length ≤ t.length

def isQuote (c : Char) : Bool := c = '"' || c = '\''

def isOpening (c : Char) : Bool := c = '[' || c = '\x7b'

def isClosing (c : Char) : Bool := c = ']' || c = '\x7d'

/-- The text up to and with the bracket that closes the collection at the front, and what follows
it. Brackets inside quotes do not count. -/
def collection? (depth : Nat) (t : Text) : Option (Text × Text) :=
  match t with
  | [] => none
  | c :: t =>
    if isQuote c then
      match h : quoted? (c :: t) with
      | none => none
      | some (q, r) =>
        have : r.length ≤ t.length := Nat.le_of_lt_succ (quoted?_length h)
        (collection? depth r).map fun (s, r) => (q ++ s, r)
    else if isOpening c then (collection? (depth + 1) t).map fun (s, r) => (c :: s, r)
    else if isClosing c then
      if depth ≤ 1 then some ([c], t)
      else (collection? (depth - 1) t).map fun (s, r) => (c :: s, r)
    else (collection? depth t).map fun (s, r) => (c :: s, r)
termination_by t.length

/-- Whether a plain scalar ends at the character `c` before `t`. Inside a key every colon ends it;
elsewhere a colon does so only before a blank or an indicator. -/
def endsPlain (inKey : Bool) (c : Char) (t : Text) : Bool :=
  c = ',' || isClosing c ||
    (c = ':' && (inKey ||
      match t with
      | [] => true
      | d :: _ => Text.isSpace d || d = ',' || isClosing d))

/-- The characters of a plain scalar and what follows it. -/
def plainRun (inKey : Bool) : Text → Text × Text
  | [] => ([], [])
  | c :: t =>
    if endsPlain inKey c t then ([], c :: t)
    else ((c :: (plainRun inKey t).1), (plainRun inKey t).2)

theorem plainRun_length (inKey : Bool) (t : Text) : (plainRun inKey t).2.length ≤ t.length := by
  induction t with
  | nil => simp [plainRun]
  | cons c t ih =>
    unfold plainRun
    split
    · simp
    · simp
      omega

theorem trimStart_length (t : Text) : (Text.trimStart t).length ≤ t.length :=
  (List.dropWhile_suffix _).length_le

theorem length_lt_of_trimStart {t r : Text} {c : Char} (h : Text.trimStart t = c :: r) :
    r.length < t.length := by
  have := trimStart_length t
  rw [h] at this
  exact this

/-- The text of the quoted scalar at the front. -/
def quotedText (t : Text) : Except Fault (Read Text t) :=
  match h : quoted? t with
  | none => .error .unterminatedQuote
  | some (q, r) => (unquoted q).map fun s => ⟨s, r, Nat.le_of_lt (quoted?_length h)⟩

/-- A key, quoted or plain. -/
def key (t : Text) : Except Fault (Read Text t) :=
  if (t.head?.map isQuote).getD false then quotedText t
  else .ok ⟨Text.trim (plainRun true t).1, (plainRun true t).2, plainRun_length true t⟩

mutual

def readValue (t : Text) : Except Fault (Read Value t) :=
  match h : Text.trimStart t with
  | '[' :: r =>
    have hr : r.length < t.length := length_lt_of_trimStart h
    (readItems r).map fun s => ⟨.array s.value, s.rest, Nat.le_trans s.le (Nat.le_of_lt hr)⟩
  | '\x7b' :: r =>
    have hr : r.length < t.length := length_lt_of_trimStart h
    (readFields [] r).map fun s => ⟨.object s.value, s.rest, Nat.le_trans s.le (Nat.le_of_lt hr)⟩
  | s =>
    have hs : s.length ≤ t.length := h ▸ trimStart_length t
    if (s.head?.map isQuote).getD false then
      (quotedText s).map fun q => ⟨.string q.value, q.rest, Nat.le_trans q.le hs⟩
    else
      .ok ⟨resolve (Text.trim (plainRun false s).1), (plainRun false s).2,
        Nat.le_trans (plainRun_length false s) hs⟩
termination_by 2 * t.length

/-- The items up to the closing bracket, which may follow a comma. -/
def readItems (t : Text) : Except Fault (Read (List Value) t) :=
  match h : Text.trimStart t with
  | ']' :: r => .ok ⟨[], r, Nat.le_of_lt (length_lt_of_trimStart h)⟩
  | _ =>
    match readValue t with
    | .error e => .error e
    | .ok v =>
      match h : Text.trimStart v.rest with
      | ',' :: r =>
        have hr : r.length < t.length := Nat.lt_of_lt_of_le (length_lt_of_trimStart h) v.le
        (readItems r).map fun s => ⟨v.value :: s.value, s.rest, Nat.le_trans s.le (Nat.le_of_lt hr)⟩
      | ']' :: r =>
        .ok ⟨[v.value], r, Nat.le_trans (Nat.le_of_lt (length_lt_of_trimStart h)) v.le⟩
      | _ => .error .expectedItemEnd
termination_by 2 * t.length + 1

/-- The entries up to the closing brace, added to those read before. An entry without a colon is
null. -/
def readFields (acc : Fields) (t : Text) : Except Fault (Read Fields t) :=
  match h : Text.trimStart t with
  | '\x7d' :: r => .ok ⟨acc, r, Nat.le_of_lt (length_lt_of_trimStart h)⟩
  | s =>
    have hs : s.length ≤ t.length := h ▸ trimStart_length t
    match key s with
    | .error e => .error e
    | .ok k =>
      if k.value = [] then .error .expectedKey
      else
        let value : Except Fault (Read Value t) :=
          match hc : Text.trimStart k.rest with
          | ':' :: r =>
            have hr : r.length < t.length :=
              Nat.lt_of_lt_of_le (length_lt_of_trimStart hc) (Nat.le_trans k.le hs)
            (readValue r).map fun v => ⟨v.value, v.rest, Nat.le_trans v.le (Nat.le_of_lt hr)⟩
          | r => .ok ⟨.null, r,
              Nat.le_trans (hc ▸ trimStart_length k.rest) (Nat.le_trans k.le hs)⟩
        match value with
        | .error e => .error e
        | .ok v =>
          if Fields.has k.value acc then .error (.duplicateKey k.value)
          else
            match h : Text.trimStart v.rest with
            | ',' :: r =>
              have hr : r.length < t.length := Nat.lt_of_lt_of_le (length_lt_of_trimStart h) v.le
              (readFields (Fields.insert k.value v.value acc) r).map fun s =>
                ⟨s.value, s.rest, Nat.le_trans s.le (Nat.le_of_lt hr)⟩
            | '\x7d' :: r =>
              .ok ⟨Fields.insert k.value v.value acc, r, by
                have := trimStart_length v.rest
                have := v.le
                simp_all
                omega⟩
            | _ => .error .expectedFieldEnd
termination_by 2 * t.length + 1

end

/-- The value of a whole collection. -/
def read (t : Text) : Except Fault Value := (readValue t).map Read.value

end TemplateDocs.Outline.Flow
