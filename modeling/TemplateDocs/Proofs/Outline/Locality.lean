import Mathlib
import TemplateDocs.Proofs.Outline.Reading

/-!
# Reading is local

A reader leaves a suffix of its lines, and of the lines that it leaves it looks at no more than
indentation, blankness and whether an item starts. So behind a value that starts on a line, the lines
that are left may be replaced by lines alike without any effect on the value.
-/
namespace TemplateDocs.Outline

open Json (Value Fields)

/-- The same to a reader that does not take the line. -/
structure Alike (l l' : Line) : Prop where
  indent : l.indent = l'.indent
  idle : l.isIdle = l'.isIdle
  empty : l.text.isEmpty = l'.text.isEmpty
  item : Line.isItemText l.text = Line.isItemText l'.text

theorem Line.exists_of_isItemText {t : Text} (h : Line.isItemText t = true) : ∃ rest, t = '-' :: rest := by
  unfold Line.isItemText at h
  split at h
  · exact ⟨_, rfl⟩
  · exact ⟨_, rfl⟩
  · cases h

/-! ### Lines with content -/

theorem active_cons {line : Line} (h : line.isIdle = false) (ls : List Line) :
    active (line :: ls) = line :: ls := by
  simp [active, h]

theorem active_active (ls : List Line) : active (active ls) = active ls := by
  unfold active
  exact List.dropWhile_idempotent _ _

theorem isIdle_of_active {ls rest : List Line} {line : Line} (h : active ls = line :: rest) :
    line.isIdle = false := by
  have := List.head?_dropWhile_not Line.isIdle ls
  rw [show ls.dropWhile Line.isIdle = line :: rest from h] at this
  simpa using this

theorem active_append_of_nil {seg : List Line} (h : active seg = []) (tail : List Line) :
    active (seg ++ tail) = active tail := by
  unfold active at h ⊢
  rw [List.dropWhile_append, h]
  rfl

theorem active_append_of_cons {seg rest : List Line} {line : Line} (h : active seg = line :: rest)
    (tail : List Line) : active (seg ++ tail) = line :: (rest ++ tail) := by
  unfold active at h ⊢
  rw [List.dropWhile_append, h]
  rfl

theorem active_length_le (ls : List Line) : (active ls).length ≤ ls.length :=
  (active_suffix ls).length_le

/-! ### Values that start on a line -/

/-- The outcome of gathering lines, without the proof that a suffix is left. -/
def gathered (complete : Text → Option (Text × Text)) (buffer : Text) (ls : List Line) :
    Option (Text × Text × List Line) :=
  (gather complete buffer ls).map fun (front, trailing, rest) => (front, trailing, rest.1)

theorem gathered_of_some {complete : Text → Option (Text × Text)} {buffer front trailing : Text}
    (h : complete buffer = some (front, trailing)) (ls : List Line) :
    gathered complete buffer ls = some (front, trailing, ls) := by
  unfold gathered gather
  simp [h]

theorem gathered_nil {complete : Text → Option (Text × Text)} {buffer : Text}
    (h : complete buffer = none) : gathered complete buffer [] = none := by
  unfold gathered gather
  simp [h]

theorem gathered_cons {complete : Text → Option (Text × Text)} {buffer : Text}
    (h : complete buffer = none) (l : Line) (rest : List Line) :
    gathered complete buffer (l :: rest) = gathered complete (buffer ++ ' ' :: l.text) rest := by
  unfold gathered
  rw [gather]
  simp [h, Option.map_map, Function.comp_def]

theorem gathered_suffix {complete : Text → Option (Text × Text)} {buffer front trailing : Text}
    {ls left : List Line} (h : gathered complete buffer ls = some (front, trailing, left)) :
    left <:+ ls := by
  obtain ⟨⟨front', trailing', rest⟩, -, he⟩ := Option.map_eq_some_iff.mp h
  cases he
  exact rest.2

theorem gathered_complete {complete : Text → Option (Text × Text)} {buffer front trailing : Text}
    {ls left : List Line} (h : gathered complete buffer ls = some (front, trailing, left)) :
    ∃ more, complete (buffer ++ more) = some (front, trailing) := by
  induction ls generalizing buffer with
  | nil =>
    cases hc : complete buffer with
    | none => simp [gathered_nil hc] at h
    | some p =>
      rw [gathered_of_some hc] at h
      cases h
      exact ⟨[], by rw [List.append_nil, hc]⟩
  | cons l ls ih =>
    cases hc : complete buffer with
    | none =>
      rw [gathered_cons hc] at h
      obtain ⟨more, hmore⟩ := ih h
      exact ⟨' ' :: l.text ++ more, by rw [← hmore, List.append_assoc]⟩
    | some p =>
      rw [gathered_of_some hc] at h
      cases h
      exact ⟨[], by rw [List.append_nil, hc]⟩

theorem gathered_congr {complete : Text → Option (Text × Text)} {buffer front trailing : Text}
    {seg tail s : List Line}
    (h : gathered complete buffer (seg ++ tail) = some (front, trailing, s ++ tail))
    (tail' : List Line) :
    gathered complete buffer (seg ++ tail') = some (front, trailing, s ++ tail') := by
  induction seg generalizing buffer with
  | nil =>
    cases hc : complete buffer with
    | some p =>
      obtain ⟨front', trailing'⟩ := p
      simp only [gathered_of_some hc, List.nil_append, Option.some.injEq, Prod.mk.injEq] at h ⊢
      obtain ⟨rfl, rfl, ht⟩ := h
      have hs : s = [] := by simpa using congrArg List.length ht
      simp [hs]
    | none =>
      -- taking a line of the tail leaves too little
      cases tail with
      | nil => simp [gathered_nil hc] at h
      | cons l rest =>
        rw [List.nil_append, gathered_cons hc] at h
        have := (gathered_suffix h).length_le
        simp at this
        omega
  | cons l seg ih =>
    cases hc : complete buffer with
    | some p =>
      obtain ⟨front', trailing'⟩ := p
      simp only [gathered_of_some hc, Option.some.injEq, Prod.mk.injEq] at h ⊢
      obtain ⟨rfl, rfl, ht⟩ := h
      simp [← List.append_cancel_right ht]
    | none =>
      rw [List.cons_append, gathered_cons hc] at h ⊢
      exact ih h

theorem deeperParts_congr {parent : Option Nat} {parts : List Text} {seg tail tail' s : List Line}
    (ht : List.Forall₂ Alike tail tail')
    (h : deeperParts parent (seg ++ tail) = (parts, s ++ tail)) :
    deeperParts parent (seg ++ tail') = (parts, s ++ tail') := by
  induction seg generalizing parts with
  | nil =>
    cases ht with
    | nil => simpa using h
    | @cons l l' rest rest' hl _ =>
      have hshort : ∀ {q}, (deeperParts parent rest).2 = q → q ≠ s ++ l :: rest := by
        rintro q rfl he
        have := (deeperParts_suffix parent rest).length_le
        simp [he] at this
        omega
      simp only [List.nil_append, deeperParts, ← hl.idle, ← hl.indent] at h ⊢
      split_ifs at h with h1 h2
      · exact absurd rfl (hshort (congrArg Prod.snd h))
      · simp only [Prod.mk.injEq] at h
        exact absurd rfl (hshort h.2)
      · simp only [Prod.mk.injEq] at h
        obtain ⟨rfl, hs⟩ := h
        have : s = [] := by simpa using congrArg List.length hs
        simp [h1, h2, this]
  | cons l seg ih =>
    simp only [List.cons_append, deeperParts] at h ⊢
    split_ifs at h ⊢ with h1 h2
    · exact ih h
    · simp only [Prod.mk.injEq] at h
      have hd : deeperParts parent (seg ++ tail) =
          ((deeperParts parent (seg ++ tail)).1, s ++ tail) := Prod.ext rfl h.2
      rw [ih hd]
      simp [← h.1]
    · simp only [Prod.mk.injEq] at h
      obtain ⟨rfl, hs⟩ := h
      rw [← List.cons_append] at hs
      simp [← List.append_cancel_right hs]

theorem blockIndent_congr (h : Header) (parent : Option Nat) (seg : List Line)
    {tail tail' : List Line} (ht : List.Forall₂ Alike tail tail') :
    h.blockIndent parent (seg ++ tail) = h.blockIndent parent (seg ++ tail') := by
  have hfind : ((seg ++ tail).find? fun l => !l.text.isEmpty).map Line.indent =
      ((seg ++ tail').find? fun l => !l.text.isEmpty).map Line.indent := by
    induction seg with
    | nil =>
      induction ht with
      | nil => rfl
      | @cons l l' rest rest' hl _ ih =>
        simp only [List.nil_append] at ih ⊢
        simp only [List.find?_cons, ← hl.empty]
        cases l.text.isEmpty with
        | true => simpa using ih
        | false => simp [hl.indent]
    | cons l seg ih =>
      simp only [List.cons_append, List.find?_cons]
      cases l.text.isEmpty with
      | true => simpa using ih
      | false => rfl
  unfold Header.blockIndent
  cases h.indent with
  | some digit => rfl
  | none =>
    dsimp only
    cases h1 : (seg ++ tail).find? fun l => !l.text.isEmpty <;>
      cases h2 : (seg ++ tail').find? fun l => !l.text.isEmpty <;> simp_all

theorem takeWhile_dropWhile_congr {p : Line → Bool} {seg tail tail' s : List Line}
    (ht : List.Forall₂ (fun l l' => p l = p l') tail tail')
    (h : (seg ++ tail).dropWhile p = s ++ tail) :
    (seg ++ tail').dropWhile p = s ++ tail' ∧
      (seg ++ tail').takeWhile p = (seg ++ tail).takeWhile p := by
  induction seg with
  | nil =>
    cases ht with
    | nil => simpa using h
    | @cons l l' rest rest' hl _ =>
      rw [List.nil_append] at h ⊢
      cases hp : p l with
      | true =>
        rw [List.dropWhile_cons_of_pos hp] at h
        have := (List.dropWhile_suffix (l := rest) p).length_le
        simp [h] at this
        omega
      | false =>
        have hp' : p l' = false := hl ▸ hp
        have hs : s = [] := by simpa [hp] using congrArg List.length h
        simp [hp, hp', hs]
  | cons l seg ih =>
    cases hp : p l with
    | true =>
      simp only [List.cons_append, List.dropWhile_cons_of_pos hp] at h
      obtain ⟨hd, htk⟩ := ih h
      simp [hp, hd, htk]
    | false =>
      simp only [List.cons_append, List.dropWhile_cons, hp, Bool.false_eq_true, if_false] at h
      rw [← List.cons_append] at h
      simp [hp, ← List.append_cancel_right h]

/-- What a value in brackets or quotes makes of the text and the lines that were gathered. -/
def finish (line : Line) (unfinished : Fault) (after : Text → Fault) (meaning : Text → Except Fault Value) :
    Option (Text × Text × List Line) → Except ReadError (Value × List Line)
  | none => .error ⟨line.number, unfinished⟩
  | some (front, trailing, rest) =>
    if isTrailingComment (Text.trim trailing) then
      match meaning front with
      | .ok v => .ok (v, rest)
      | .error fault => .error ⟨line.number, fault⟩
    else .error ⟨line.number, after (Text.trim trailing)⟩

theorem readQuoted_parts (text : Text) (line : Line) (ls : List Line) :
    (readQuoted text line ls).map Read.parts =
      finish line .unterminatedQuote .afterQuoted (fun q => (unquoted q).map .string)
        (gathered quoted? text ls) := by
  unfold readQuoted gathered
  cases gather quoted? text ls with
  | none => rfl
  | some p =>
    obtain ⟨front, trailing, rest⟩ := p
    simp only [Option.map_some, finish]
    split_ifs
    · cases unquoted front <;> rfl
    · rfl

theorem readFlow_parts (text : Text) (line : Line) (ls : List Line) :
    (readFlow text line ls).map Read.parts =
      finish line .unterminatedFlow .afterFlow Flow.read (gathered (Flow.collection? 0) text ls) := by
  unfold readFlow gathered
  cases gather (Flow.collection? 0) text ls with
  | none => rfl
  | some p =>
    obtain ⟨front, trailing, rest⟩ := p
    simp only [Option.map_some, finish]
    split_ifs
    · cases Flow.read front <;> rfl
    · rfl

theorem finish_ok {line : Line} {unfinished : Fault} {after : Text → Fault}
    {meaning : Text → Except Fault Value} {found : Option (Text × Text × List Line)} {v : Value}
    {left : List Line} (h : finish line unfinished after meaning found = .ok (v, left)) :
    ∃ front trailing, found = some (front, trailing, left) ∧ meaning front = .ok v ∧
      ∀ left', finish line unfinished after meaning (some (front, trailing, left')) =
        .ok (v, left') := by
  rcases found with _ | ⟨front, trailing, rest⟩
  · simp [finish] at h
  · simp only [finish] at h ⊢
    split_ifs at h with hc
    cases hm : meaning front with
    | error fault => simp [hm] at h
    | ok w =>
      simp only [hm, Except.ok.injEq, Prod.mk.injEq] at h
      obtain ⟨rfl, rfl⟩ := h
      exact ⟨front, trailing, rfl, hm, fun left' => by simp [hc, hm]⟩

theorem trailing_of_finish {line : Line} {unfinished : Fault} {after : Text → Fault}
    {meaning : Text → Except Fault Value} {front trailing : Text} {left : List Line} {r : Value × List Line}
    (h : finish line unfinished after meaning (some (front, trailing, left)) = .ok r) :
    isTrailingComment (Text.trim trailing) = true := by
  rw [finish] at h
  split_ifs at h with hc
  exact hc

theorem readBlock_parts (header : Text) (line : Line) (parent : Option Nat) (ls : List Line) :
    (readBlock header line parent ls).map Read.parts =
      match Header.parse? (plainPart header) with
      | none => .error ⟨line.number, .badScalarHeader (plainPart header)⟩
      | some h =>
        let indent := h.blockIndent parent ls
        if parent.elim 0 (· + 1) ≤ indent then
          .ok (.string (h.body (Lines.dedent indent ((ls.takeWhile (inBlock indent)).map Line.raw))),
            ls.dropWhile (inBlock indent))
        else .ok (.string (h.body []), ls) := by
  unfold readBlock plainPart
  dsimp only
  cases Header.parse? (Text.trimEnd (stripComment header)) with
  | none => rfl
  | some h =>
    dsimp only
    split_ifs <;> rfl

theorem readPlain_parts (text : Text) (parent : Option Nat) (ls : List Line) :
    (readPlain text parent ls).parts =
      (resolve (Text.join [' '] (plainPart text :: (deeperParts parent ls).1)),
        (deeperParts parent ls).2) := rfl

/-- The kinds of values that can start on a line, and what decides between them. -/
theorem readInline_cases (text : Text) (line : Line) (parent : Option Nat) :
    (∀ ls, readInline text line parent ls = readBlock text line parent ls) ∨
    (∀ ls, readInline text line parent ls = readQuoted text line ls) ∨
    (∀ ls, readInline text line parent ls = readFlow text line ls) ∨
    ∀ ls, readInline text line parent ls = .ok (readPlain text parent ls) := by
  unfold readInline
  cases text with
  | nil => exact .inr (.inr (.inr fun _ => rfl))
  | cons c t =>
    dsimp only
    split_ifs
    · exact .inl fun _ => rfl
    · exact .inr (.inl fun _ => rfl)
    · exact .inr (.inr (.inl fun _ => rfl))
    · exact .inr (.inr (.inr fun _ => rfl))

/-- A quoted scalar that closes on its line takes no line after it. -/
theorem readInline_quoted {quoted trailing s : Text} (hq : quoted? (quoted ++ trailing) = some (quoted, trailing))
    (hs : unquoted quoted = .ok s) (ht : isTrailingComment (Text.trim trailing) = true) (line : Line)
    (parent : Option Nat) (ls : List Line) :
    (readInline (quoted ++ trailing) line parent ls).map Read.parts = .ok (.string s, ls) := by
  have hread : readInline (quoted ++ trailing) line parent ls =
      readQuoted (quoted ++ trailing) line ls := by
    generalize quoted ++ trailing = text at hq
    unfold quoted? at hq
    split at hq
    · rfl
    · rfl
    · cases hq
  rw [hread, readQuoted_parts, gathered_of_some hq]
  simp [finish, ht, hs, Except.map]

theorem readInline_suffix {text : Text} {line : Line} {parent : Option Nat} {ls left : List Line}
    {v : Value} (h : (readInline text line parent ls).map Read.parts = .ok (v, left)) :
    left <:+ ls := by
  rcases readInline_cases text line parent with hr | hr | hr | hr
  · rw [hr, readBlock_parts] at h
    split at h
    · cases h
    · dsimp only at h
      split_ifs at h <;> cases h
      · exact List.dropWhile_suffix _
      · exact List.suffix_refl _
  · rw [hr, readQuoted_parts] at h
    obtain ⟨front, trailing, hg, -, -⟩ := finish_ok h
    exact gathered_suffix hg
  · rw [hr, readFlow_parts] at h
    obtain ⟨front, trailing, hg, -, -⟩ := finish_ok h
    exact gathered_suffix hg
  · rw [hr] at h
    cases h
    exact deeperParts_suffix parent ls

theorem inBlock_alike (indent : Nat) {l l' : Line} (h : Alike l l') :
    inBlock indent l = inBlock indent l' := by
  simp [inBlock, h.empty, h.indent]

theorem readInline_congr {text : Text} {line : Line} {parent : Option Nat}
    {seg tail tail' s : List Line} {v : Value} (ht : List.Forall₂ Alike tail tail')
    (h : (readInline text line parent (seg ++ tail)).map Read.parts = .ok (v, s ++ tail)) :
    (readInline text line parent (seg ++ tail')).map Read.parts = .ok (v, s ++ tail') := by
  rcases readInline_cases text line parent with hr | hr | hr | hr
  · rw [hr, readBlock_parts] at h ⊢
    cases hp : Header.parse? (plainPart text) with
    | none => simp [hp] at h
    | some header =>
      simp only [hp, ← blockIndent_congr header parent seg ht] at h ⊢
      split_ifs at h ⊢ with hb
      · simp only [Except.ok.injEq, Prod.mk.injEq] at h
        obtain ⟨hd, htk⟩ := takeWhile_dropWhile_congr
          (ht.imp fun _ _ => inBlock_alike (header.blockIndent parent (seg ++ tail))) h.2
        rw [hd, htk, h.1]
      · simp only [Except.ok.injEq, Prod.mk.injEq] at h
        rw [h.1, List.append_cancel_right h.2]
  · rw [hr, readQuoted_parts] at h ⊢
    obtain ⟨front, trailing, hg, -, hf⟩ := finish_ok h
    rw [gathered_congr hg tail', hf]
  · rw [hr, readFlow_parts] at h ⊢
    obtain ⟨front, trailing, hg, -, hf⟩ := finish_ok h
    rw [gathered_congr hg tail', hf]
  · rw [hr] at h ⊢
    simp only [Except.map, readPlain_parts, Except.ok.injEq, Prod.mk.injEq] at h ⊢
    have hd : deeperParts parent (seg ++ tail) =
        ((deeperParts parent (seg ++ tail)).1, s ++ tail) := Prod.ext rfl h.2
    rw [deeperParts_congr ht hd]
    exact ⟨h.1, rfl⟩

/-! ### Tasks -/

/-- Whether a task, given a next line with content, takes that line. -/
def Task.Takes : Task → Line → Prop
  | .node _, _ => True
  | .mapping indent _, line => line.indent = indent
  | .sequence indent, line => line.indent = indent ∧ Line.isItemText line.text = true
  | .item _ _, _ => False
  | .entry _ _ _, _ => False

theorem blockTask?_takes {line : Line} {task : Task} (h : blockTask? line = some task) :
    task.Takes line := by
  unfold blockTask? at h
  split_ifs at h with hi hk <;> cases h
  · exact ⟨rfl, hi⟩
  · exact rfl

theorem itemLine_isIdle {line : Line} (h : isTrailingComment (itemContent line) = false) :
    (itemLine line (itemContent line)).isIdle = false := h

theorem Reads.suffix {task : Task} {ls left : List Line} {v : Value} (h : Reads task ls v left) :
    left <:+ ls ∧ ∀ line rest, active ls = line :: rest → task.Takes line → left <:+ rest := by
  have from_rest : ∀ {ls rest left : List Line} {line : Line}, active ls = line :: rest →
      left <:+ rest → left <:+ ls := fun ha hs =>
    (hs.trans (List.suffix_cons _ _)).trans (ha ▸ active_suffix _)
  induction h with
  | nothing h => exact ⟨List.nil_suffix, fun _ _ ha => by simp [h] at ha⟩
  | @block parent ls rest left line task v h ht _ ih =>
    have hs := ih.2 line rest (active_cons (isIdle_of_active h) rest) (blockTask?_takes ht)
    refine ⟨from_rest h hs, fun line' rest' ha _ => ?_⟩
    cases h.symm.trans ha
    exact hs
  | @inline parent ls rest left line v h ht hr =>
    have hs := readInline_suffix hr
    refine ⟨from_rest h hs, fun line' rest' ha _ => ?_⟩
    cases h.symm.trans ha
    exact hs
  | mappingEnd h =>
    refine ⟨active_suffix _, fun line rest ha ht => ?_⟩
    have := h line (by simp [ha])
    exact absurd ht this.ne
  | @mappingEntry indent acc ls rest mid left line key after v w h _ _ _ _ _ ihv ihr =>
    have hs := ihr.1.trans ihv.1
    refine ⟨from_rest h hs, fun line' rest' ha _ => ?_⟩
    cases h.symm.trans ha
    exact hs
  | sequenceEnd h =>
    refine ⟨active_suffix _, fun line rest ha ht => ?_⟩
    rcases h line (by simp [ha]) with hl | ⟨_, hn⟩
    · exact absurd ht.1 hl.ne
    · simp [ht.2] at hn
  | @sequenceItem indent ls rest mid left line v vs h _ _ _ _ ihv ihr =>
    have hs := ihr.1.trans ihv.1
    refine ⟨from_rest h hs, fun line' rest' ha _ => ?_⟩
    cases h.symm.trans ha
    exact hs
  | itemNull => exact ⟨List.suffix_refl _, fun _ _ _ ht => ht.elim⟩
  | itemBelow _ _ _ _ ih => exact ⟨ih.1, fun _ _ _ ht => ht.elim⟩
  | itemInline hc _ ih =>
    exact ⟨ih.2 _ _ (active_cons (itemLine_isIdle hc) _) trivial, fun _ _ _ ht => ht.elim⟩
  | entryNull => exact ⟨List.suffix_refl _, fun _ _ _ ht => ht.elim⟩
  | entryBelow _ _ _ _ ih => exact ⟨ih.1, fun _ _ _ ht => ht.elim⟩
  | entryList _ _ _ _ _ ih => exact ⟨ih.1, fun _ _ _ ht => ht.elim⟩
  | entryInline _ hr => exact ⟨readInline_suffix hr, fun _ _ _ ht => ht.elim⟩

theorem Reads.taken {task : Task} {ls rest left : List Line} {line : Line} {v : Value}
    (h : Reads task ls v left) (ha : active ls = line :: rest) (ht : task.Takes line) :
    left <:+ rest := h.suffix.2 line rest ha ht

end TemplateDocs.Outline
