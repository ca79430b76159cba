import TemplateDocs.Toml.Scalar

/-!
# Reading TOML

Lines with entries and headers are applied one after another to the table of the document.
-/
namespace TemplateDocs.Toml

/-- What follows a comment that holds no control character. -/
def comment? : Text → Option Text
  | [] => some []
  | c :: rest =>
    if (lineFeed? (c :: rest)).isSome then some (c :: rest)
    else if isControl c then none
    else comment? rest

theorem comment?_length {t r : Text} (h : comment? t = some r) : r.length ≤ t.length := by
  induction t with
  | nil => simp_all [comment?]
  | cons c rest ih =>
    unfold comment? at h
    split at h
    · simp_all
    · split at h
      · simp at h
      · exact Nat.le_succ_of_le (ih h)

/-- Skips blanks, line ends and comments. -/
def gap? (t : Text) : Option (Passed Unit t) :=
  match t with
  | [] => some (.stay ())
  | c :: rest =>
    if isBlank c then (gap? rest).map fun r => r.widen (Nat.le_succ _)
    else if c = '#' then
      match h : comment? rest with
      | none => none
      | some after =>
        have := comment?_length h
        (gap? after).map fun r => r.widen (Nat.le_succ_of_le this)
    else
      match h : lineFeed? (c :: rest) with
      | some after =>
        have := lineFeed?_length h
        (gap? after).map fun r => r.widen (Nat.le_of_lt this)
      | none => some (.stay ())
termination_by t.length
decreasing_by all_goals (simp at *; try omega)

/-- What follows the end of a line, which may hold blanks and a comment. -/
def lineEnd? (t : Text) : Option Text :=
  match t.dropWhile isBlank with
  | [] => some []
  | '#' :: rest =>
    (comment? rest).bind fun after => if after.isEmpty then some [] else lineFeed? after
  | rest => lineFeed? rest

theorem lineEnd?_length {t r : Text} (h : lineEnd? t = some r) : r.length ≤ t.length := by
  have trimmed := dropWhile_length isBlank t
  unfold lineEnd? at h
  split at h
  · simp_all
  · rename_i rest heq
    obtain ⟨after, hc, ha⟩ := Option.bind_eq_some_iff.1 h
    have := comment?_length hc
    rw [heq] at trimmed
    simp at trimmed
    split at ha
    · simp only [Option.some.injEq] at ha
      simp [← ha]
    · have := lineFeed?_length ha
      omega
  · have := lineFeed?_length h
    omega

/-! ## Keys -/

def isKeyChar (c : Char) : Bool := c.isAlpha || Text.isDigit c || c = '_' || c = '-'

/-- One part of a key. -/
def simpleKey? (t : Text) : Option (Taken Text t) :=
  match t with
  | [] => none
  | c :: rest =>
    if c = '"' then (basic? rest).map fun r => r.widen (Nat.le_succ _)
    else if c = '\'' then (literal? rest).map fun r => r.widen (Nat.le_succ _)
    else if isKeyChar c then
      some ⟨c :: rest.takeWhile isKeyChar, rest.dropWhile isKeyChar,
        Nat.lt_succ_of_le (dropWhile_length _ _)⟩
    else none

/-- A key of one or more parts with dots between them; blanks around it are taken too. -/
def key? (t : Text) : Option (Taken (List Text) t) :=
  have leading := dropWhile_length isBlank t
  match simpleKey? (t.dropWhile isBlank) with
  | none => none
  | some first =>
    have := first.shorter
    have trailing := dropWhile_length isBlank first.rest
    match h : first.rest.dropWhile isBlank with
    | '.' :: rest =>
      have : rest.length < first.rest.length := by rw [h] at trailing; exact trailing
      have : rest.length < t.length :=
        Nat.lt_of_lt_of_le (Nat.lt_trans this first.shorter) leading
      (key? rest).map fun r => (r.map (first.value :: ·)).widen (Nat.le_of_lt this)
    | rest =>
      some ⟨[first.value], rest,
        Nat.lt_of_le_of_lt (h ▸ trailing) (Nat.lt_of_lt_of_le first.shorter leading)⟩
termination_by t.length

/-! ## Values -/

/-- Adds an entry under a dotted key. -/
def addKey (key : List Text) (v : Value) (t : Table) : Option Table :=
  match key.getLast? with
  | some last => t.addEntry key.dropLast last v
  | none => none

mutual

def value? (t : Text) : Option (Taken Value t) :=
  match t with
  | [] => none
  | c :: rest =>
    if c = '"' ∨ c = '\'' then
      (string? c rest).map fun r => (r.map .string).widen (Nat.le_succ _)
    else if c = '[' then
      (items? rest).map fun r => (r.map (.array false)).widen (Nat.le_succ _)
    else if c = '\x7b' then
      (inline? ⟨.inline, []⟩ rest).map fun r => (r.map Table.toValue).widen (Nat.le_succ _)
    else bare? (c :: rest)
termination_by 4 * t.length + 1

/-- The items of an array up to its closing bracket. -/
def items? (t : Text) : Option (Taken (List Value) t) :=
  match gap? t with
  | none => none
  | some ⟨_, [], _⟩ => none
  | some ⟨_, c :: rest, h⟩ =>
    have h : rest.length + 1 ≤ t.length := h
    if c = ']' then some ⟨[], rest, h⟩
    else
      match value? (c :: rest) with
      | none => none
      | some v =>
        have : v.rest.length ≤ rest.length := Nat.le_of_lt_succ v.shorter
        match gap? v.rest with
        | none => none
        | some ⟨_, [], _⟩ => none
        | some ⟨_, d :: after, h'⟩ =>
          have h' : after.length + 1 ≤ v.rest.length := h'
          if d = ']' then some ⟨[v.value], after, by omega⟩
          else if d = ',' then
            (items? after).map fun r =>
              ⟨v.value :: r.value, r.rest, by have := r.shorter; omega⟩
          else none
termination_by 4 * t.length + 2

/-- The entries of an inline table up to its closing brace, on top of those read before. -/
def inline? (done : Table) (t : Text) : Option (Taken Table t) :=
  match gap? t with
  | none => none
  | some ⟨_, [], _⟩ => none
  | some ⟨_, c :: rest, h⟩ =>
    have h : rest.length + 1 ≤ t.length := h
    if c = '\x7d' then some ⟨done, rest, h⟩
    else
      match key? (c :: rest) with
      | none => none
      | some k =>
        have : k.rest.length ≤ rest.length := Nat.le_of_lt_succ k.shorter
        match hk : k.rest with
        | [] => none
        | e :: after =>
          have : k.rest.length = after.length + 1 := by simp [hk]
          have := dropWhile_length isBlank after
          if e = '=' then
            match value? (after.dropWhile isBlank) with
            | none => none
            | some v =>
              have := v.shorter
              match addKey k.value v.value done with
              | none => none
              | some table =>
                match gap? v.rest with
                | none => none
                | some ⟨_, [], _⟩ => none
                | some ⟨_, d :: left, h'⟩ =>
                  have h' : left.length + 1 ≤ v.rest.length := h'
                  if d = '\x7d' then some ⟨table, left, by omega⟩
                  else if d = ',' then
                    (inline? table left).map fun r => r.widen (by omega)
                  else none
          else none
termination_by 4 * t.length + 2

end

/-! ## Documents -/

/-- Headers and entries of a document. -/
inductive Line where
  | entry (key : List Text) (v : Value)
  | header (key : List Text)
  | arrayHeader (key : List Text)

/-- A header after its first bracket. -/
def header? (t : Text) : Option (Passed Line t) :=
  match h : Text.after? ['['] t with
  | some inner => do
    let k ← key? inner
    match h' : Text.after? "]]".toList k.rest with
    | some rest =>
      some ⟨.arrayHeader k.value, rest, Nat.le_trans (Text.after?_le h')
        (Nat.le_trans (Nat.le_of_lt k.shorter) (Text.after?_le h))⟩
    | none => none
  | none => do
    let k ← key? t
    match h' : Text.after? [']'] k.rest with
    | some rest =>
      some ⟨.header k.value, rest, Nat.le_trans (Text.after?_le h') (Nat.le_of_lt k.shorter)⟩
    | none => none

/-- An entry with its value. -/
def entryLine? (t : Text) : Option (Taken Line t) := do
  let k ← key? t
  match h : Text.after? ['='] k.rest with
  | none => none
  | some rest =>
    (value? (rest.dropWhile isBlank)).map fun v =>
      ⟨.entry k.value v.value, v.rest, by
        have := Text.after?_length h
        have := k.shorter
        have := v.shorter
        have := dropWhile_length isBlank rest
        omega⟩

/-- The lines of a document. -/
def lines? (t : Text) : Option (List Line) :=
  match gap? t with
  | none => none
  | some ⟨_, [], _⟩ => some []
  | some ⟨_, c :: rest, h⟩ =>
    have : rest.length + 1 ≤ t.length := h
    if c = '[' then
      match header? rest with
      | none => none
      | some line =>
        have := line.bound
        match he : lineEnd? line.rest with
        | none => none
        | some after =>
          have := lineEnd?_length he
          (lines? after).map (line.value :: ·)
    else
      match entryLine? (c :: rest) with
      | none => none
      | some line =>
        have : line.rest.length ≤ rest.length := Nat.le_of_lt_succ line.shorter
        match he : lineEnd? line.rest with
        | none => none
        | some after =>
          have := lineEnd?_length he
          (lines? after).map (line.value :: ·)
termination_by t.length

/-- A document as far as it was applied, and the table that entries go to. -/
structure Document where
  root : Table := {}
  current : List Text := []

def Document.apply (d : Document) : Line → Option Document
  | .entry key v => do
    let root ← d.root.updateAt false (addKey key v) d.current
    return { d with root := root }
  | .header key => do
    let root ← d.root.openTable key.dropLast (← key.getLast?)
    return ⟨root, key⟩
  | .arrayHeader key => do
    let root ← d.root.appendTable key.dropLast (← key.getLast?)
    return ⟨root, key⟩

/-- The entries of a document. -/
def parse? (t : Text) : Option Entries := do
  let t := if t.head? = some '\uFEFF' then t.drop 1 else t
  let lines ← lines? t
  let d ← lines.foldlM Document.apply {}
  return d.root.entries

end TemplateDocs.Toml
