import TemplateDocs.Outline.Scalar

/-!
# Reading an outline

An outline is the indented key-value notation of annotations: block mappings and sequences, whose
entries may be scalars, flow collections or deeper blocks. Reading is a mutual recursion on what is
left of the lines. A sequence item is read again as a line of its own that starts at the item's
column; its content is shorter, so the weight of the lines falls on every path.
-/
namespace TemplateDocs.Outline

open Json (Value Fields)

def plainKey? (acc : Text) (gap : Bool) : Text → Option (Text × Text)
  | [] => none
  | c :: t =>
    if c = '#' ∧ gap then none
    else if c = ':' ∧ (t.head?.map isGap).getD true then
      let key := Text.trimEnd acc.reverse
      if key.isEmpty then none else some (key, t)
    else plainKey? (c :: acc) (isGap c) t

/-- The key of a mapping entry and the text after its colon, which is the end of the line or a
blank. -/
def splitKey? (t : Text) : Option (Text × Text) :=
  match t with
  | [] => none
  | c :: _ =>
    if Flow.isQuote c then
      (quoted? t).bind fun (quoted, after) =>
        (Text.after? [':'] (Text.trimStart after)).bind fun rest =>
          if (rest.head?.map isGap).getD true then
            match unquote quoted with
            | .ok key => some (key, rest)
            | .error _ => none
          else none
    else if Flow.isOpening c ∨ c = '|' ∨ c = '>' ∨ c = '#' ∨ Line.isItemText t then none
    else plainKey? [] false t

/-- The content of a sequence item, moved to its own column. -/
def itemLine (line : Line) (content : Text) : Line :=
  { line with
    indent := line.indent + 1 + ((line.text.drop 1).length - content.length)
    text := content }

theorem itemLine_weight {line : Line} {content : Text} (h : content.length < line.text.length)
    (rest : List Line) : weight (itemLine line content :: rest) < weight (line :: rest) := by
  simp only [weight_cons, itemLine]
  omega

/-- The content after the dash of an item. -/
def itemContent (line : Line) : Text := Text.trimStart (line.text.drop 1)

theorem itemContent_length {line : Line} (h : Line.isItemText line.text) :
    (itemContent line).length < line.text.length := by
  have h1 : (itemContent line).length ≤ (line.text.drop 1).length := Flow.trimStart_length _
  rcases ht : line.text with _ | ⟨c, t⟩
  · simp [ht, Line.isItemText] at h
  · simp [ht] at h1 ⊢
    omega

mutual

/-- The value that the next line with content starts. No content is null. -/
def readNode (parent : Option Nat) (ls : List Line) : Except ReadError (Read Value ls) :=
  match h : active ls with
  | [] => .ok ⟨.null, [], by simp⟩
  | line :: rest =>
    have hw : weight (line :: rest) ≤ weight ls := h ▸ active_weight ls
    if Line.isItemText line.text then
      (readSequence line.indent (line :: rest)).map fun r =>
        ⟨.array r.value, r.rest, Nat.le_trans r.le hw⟩
    else if (splitKey? line.text).isSome then
      (readMapping line.indent [] (line :: rest)).map fun r =>
        ⟨.object r.value, r.rest, Nat.le_trans r.le hw⟩
    else
      (readInline line.text line parent rest).map fun r =>
        ⟨r.value, r.rest, by have := r.le; simp only [weight_cons] at hw; omega⟩
termination_by 4 * weight ls + 2

/-- The entries at `indent`, added to those read before. -/
def readMapping (indent : Nat) (acc : Fields) (ls : List Line) :
    Except ReadError (Read Fields ls) :=
  match h : active ls with
  | [] => .ok ⟨acc, [], by simp⟩
  | line :: rest =>
    have hw : weight (line :: rest) ≤ weight ls := h ▸ active_weight ls
    if line.indent < indent then .ok ⟨acc, line :: rest, hw⟩
    else if indent < line.indent then .error ⟨line.number, .unexpectedIndent⟩
    else
      match splitKey? line.text with
      | none => .error ⟨line.number, .expectedEntry⟩
      | some (key, after) =>
        if Fields.has key acc then .error ⟨line.number, .duplicateKey key⟩
        else
          have hr : weight rest < weight ls := by simp only [weight_cons] at hw; omega
          match readEntry (Text.trim after) line indent rest with
          | .error e => .error e
          | .ok v =>
            have hv : weight v.rest < weight ls := Nat.lt_of_le_of_lt v.le hr
            (readMapping indent (Fields.insert key v.value acc) v.rest).map fun r =>
              ⟨r.value, r.rest, Nat.le_trans r.le (Nat.le_of_lt hv)⟩
termination_by 4 * weight ls + 1

/-- The items at `indent`. -/
def readSequence (indent : Nat) (ls : List Line) : Except ReadError (Read (List Value) ls) :=
  match h : active ls with
  | [] => .ok ⟨[], [], by simp⟩
  | line :: rest =>
    have hw : weight (line :: rest) ≤ weight ls := h ▸ active_weight ls
    if line.indent < indent then .ok ⟨[], line :: rest, hw⟩
    else if indent < line.indent then .error ⟨line.number, .unexpectedIndent⟩
    else if hi : Line.isItemText line.text then
      have hr : weight rest < weight ls := by simp only [weight_cons] at hw; omega
      let item : Except ReadError { v : Value × List Line // weight v.2 < weight ls } :=
        if isTrailingComment (itemContent line) then
          match active rest with
          | [] => .ok ⟨(.null, rest), hr⟩
          | next :: _ =>
            if indent < next.indent then
              (readNode (some indent) rest).map fun v =>
                ⟨(v.value, v.rest), Nat.lt_of_le_of_lt v.le hr⟩
            else .ok ⟨(.null, rest), hr⟩
        else
          have hc : weight (itemLine line (itemContent line) :: rest) < weight ls :=
            Nat.lt_of_lt_of_le (itemLine_weight (itemContent_length hi) rest) hw
          (readNode (some indent) (itemLine line (itemContent line) :: rest)).map fun v =>
            ⟨(v.value, v.rest), Nat.lt_of_le_of_lt v.le hc⟩
      match item with
      | .error e => .error e
      | .ok ⟨(v, after), hv⟩ =>
        have hv : weight after < weight ls := hv
        (readSequence indent after).map fun r =>
          ⟨v :: r.value, r.rest, Nat.le_trans r.le (Nat.le_of_lt hv)⟩
    else .ok ⟨[], line :: rest, hw⟩
termination_by 4 * weight ls + 1

/-- The value after the colon of a mapping entry. With nothing on the line, a deeper block follows
or a sequence at the entry's own indentation. -/
def readEntry (text : Text) (line : Line) (indent : Nat) (ls : List Line) :
    Except ReadError (Read Value ls) :=
  if isTrailingComment text then
    match active ls with
    | [] => .ok ⟨.null, ls, Nat.le_refl _⟩
    | next :: _ =>
      if indent < next.indent then readNode (some indent) ls
      else if next.indent = indent ∧ Line.isItemText next.text then
        (readSequence indent ls).map fun r => ⟨.array r.value, r.rest, r.le⟩
      else .ok ⟨.null, ls, Nat.le_refl _⟩
  else readInline text line (some indent) ls
termination_by 4 * weight ls + 3

end

/-- Reads the lines of a whole document, which may start with a line `---`. -/
def readLines (ls : List Line) : Except ReadError Value :=
  let body :=
    match active ls with
    | [] => []
    | line :: rest => if line.text = "---".toList then rest else line :: rest
  match readNode none body with
  | .error e => .error e
  | .ok r =>
    match active r.rest with
    | [] => .ok r.value
    | line :: _ => .error ⟨line.number, .contentAfterDocument⟩

/-- Reads a text whose first line has the number `firstLine`. -/
def read (t : Text) (firstLine : Nat) : Except ReadError Value :=
  readLines (Line.numbered firstLine (Text.split '\n' t))

end TemplateDocs.Outline
