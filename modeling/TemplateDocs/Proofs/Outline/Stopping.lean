import Mathlib
import TemplateDocs.Proofs.Outline.Entries

/-!
# Values before another line

The values of a mapping are read up to the line that starts the next entry. That line shows where a value
ends, and nothing else about it matters. The end of the text does the same, with one exception: a block
that keeps its line breaks and has only blank lines takes these at the end of the text and leaves them
in front of another line.
-/
namespace TemplateDocs.Outline

open Json (Value Fields)
open Lines (isBlank)
open Text (trim)

/-! ### A line that ends what stands before it -/

/-- The line ends whatever is deeper than `indent`, and a sequence at `indent`. -/
structure Stops (indent : Nat) (line : Line) : Prop where
  idle : line.isIdle = false
  column : line.indent < indent ∨ line.indent = indent ∧ Line.isItemText line.text = false

variable {p : Nat} {stop : Line}

theorem Stops.le (h : Stops p stop) : stop.indent ≤ p := by
  rcases h.column with hlt | ⟨heq, -⟩
  · exact hlt.le
  · exact heq.le

theorem Stops.isEmpty (h : Stops p stop) : stop.text.isEmpty = false := by
  have := h.idle
  simp only [Line.isIdle, Bool.or_eq_false_iff] at this
  exact this.1

theorem Stops.inBlock (h : Stops p stop) {indent : Nat} (hi : p < indent) : inBlock indent stop = false := by
  have := h.le
  simp only [Outline.inBlock, h.isEmpty, Bool.false_or, decide_eq_false_iff_not]
  omega

theorem Stops.active (h : Stops p stop) (rest : List Line) : active (stop :: rest) = stop :: rest :=
  active_cons h.idle rest

theorem exists_stops (p : Nat) : ∃ stop, Stops p stop := by
  refine ⟨⟨0, 0, ['x'], ['x']⟩, rfl, ?_⟩
  rcases Nat.eq_zero_or_pos p with rfl | hp
  · exact .inr ⟨rfl, rfl⟩
  · exact .inl hp

/-- A condition that holds of the next line with content goes on to hold, if it holds of the stop. -/
theorem head_active_append {P : Line → Prop} {ls : List Line} (h : ∀ l ∈ (active ls).head?, P l)
    (hs : Stops p stop) (hstop : P stop) (rest : List Line) :
    ∀ l ∈ (active (ls ++ stop :: rest)).head?, P l := by
  cases ha : active ls with
  | nil =>
    rw [active_append_of_nil ha, hs.active]
    simpa using hstop
  | cons line others =>
    rw [active_append_of_cons ha]
    rw [ha] at h
    simpa using h

theorem active_active_append (ls tail : List Line) : active (active ls ++ tail) = active (ls ++ tail) := by
  cases ha : active ls with
  | nil => rw [active_append_of_nil ha, List.nil_append]
  | cons line others =>
    rw [active_append_of_cons ha, List.cons_append, active_cons (isIdle_of_active ha)]

theorem takeWhile_dropWhile_stop {q : Line → Bool} (hq : q stop = false) (ls rest : List Line) :
    (ls ++ stop :: rest).takeWhile q = ls.takeWhile q ∧
      (ls ++ stop :: rest).dropWhile q = ls.dropWhile q ++ stop :: rest := by
  induction ls with
  | nil => simp [hq]
  | cons l ls ih => cases hl : q l <;> simp [hl, ih]

theorem deeperParts_stop (hs : Stops p stop) {q : Nat} (hq : p ≤ q) (ls rest : List Line) :
    deeperParts (some q) (ls ++ stop :: rest) =
      ((deeperParts (some q) ls).1, (deeperParts (some q) ls).2 ++ stop :: rest) := by
  induction ls with
  | nil =>
    have hstop : ¬q < stop.indent := Nat.not_lt.mpr (hs.le.trans hq)
    simp [deeperParts, hs.idle, hstop]
  | cons l ls ih =>
    rw [List.cons_append, deeperParts, deeperParts, ih]
    split_ifs <;> rfl

/-! ### Blocks with nothing but blank lines -/

/-- Lines without content are blank. -/
def BlankRaws (ls : List Line) : Prop := ∀ l ∈ ls, l.text = [] → isBlank l.raw = true

theorem BlankRaws.suffix {ls ls' : List Line} (h : BlankRaws ls) (hs : ls' <:+ ls) : BlankRaws ls' :=
  fun l hl => h l (hs.subset hl)

theorem AsCut.blankRaws {ls : List Line} (h : AsCut ls) : BlankRaws ls := by
  intro l hl htext
  rw [h.text hl] at htext
  exact Lines.isBlank_iff_trim.mpr htext

theorem dropBlankEnd_of_blank {raws : Lines} (h : ∀ l ∈ raws, isBlank l = true) :
    Lines.dropBlankEnd raws = [] := by
  rw [Lines.dropBlankEnd, List.dropWhile_eq_nil_iff.mpr (by simpa using h)]
  rfl

theorem Header.body_of_blank (h : Header) {raws : Lines} (hraws : ∀ l ∈ raws, isBlank l = true) :
    h.body raws = h.body [] ↔ (h.chomp = .keep → raws = []) := by
  have hend : Lines.dropBlankEnd [] = [] := rfl
  unfold Header.body
  rw [dropBlankEnd_of_blank hraws, hend]
  cases h.chomp with
  | strip | clip => simp
  | keep => simp

theorem isBlank_drop {raw : Text} (h : isBlank raw = true) (n : Nat) : isBlank (raw.drop n) = true := by
  rw [isBlank, List.all_eq_true] at h ⊢
  exact fun c hc => h c (List.mem_of_mem_drop hc)

/-- A block that keeps its line breaks, states no indentation and has blank lines only. -/
structure Unfilled (text : Text) (ls : List Line) : Prop where
  mark : text.head? = some '|' ∨ text.head? = some '>'
  header : ∃ h, Header.parse? (plainPart text) = some h ∧ h.chomp = .keep ∧ h.indent = none
  nonempty : ls ≠ []
  blank : ∀ l ∈ ls, l.text = []

/-- What another line after it changes about a value: nothing, or the value itself, but that only where
the value went on to the end. -/
def Shifts (shifting : Prop) (left : List Line) (v v' : Value) : Prop :=
  (¬shifting ∧ v' = v) ∨ (shifting ∧ v' ≠ v ∧ active left = [])

theorem Header.blockIndent_append {h : Header} {ls : List Line} (parent : Option Nat)
    (hstated : h.indent ≠ none ∨ ∃ l ∈ ls, l.text ≠ []) (tail : List Line) :
    h.blockIndent parent (ls ++ tail) = h.blockIndent parent ls := by
  unfold Header.blockIndent
  cases hindent : h.indent with
  | some digit => rfl
  | none =>
    obtain ⟨l, hl, htext⟩ := hstated.resolve_left (absurd hindent)
    cases hfind : ls.find? fun l => !l.text.isEmpty with
    | none =>
      have := List.find?_eq_none.mp hfind l hl
      simp [htext] at this
    | some first => rw [List.find?_append, hfind, Option.some_or]

theorem find?_of_blank {ls : List Line} (h : ∀ l ∈ ls, l.text = []) :
    (ls.find? fun l => !l.text.isEmpty) = none := by
  refine List.find?_eq_none.mpr fun l hl => ?_
  simp [h l hl]

theorem Header.blockIndent_stop {h : Header} (hindent : h.indent = none) {ls : List Line}
    (hblank : ∀ l ∈ ls, l.text = []) (hs : Stops p stop) (parent : Option Nat) (rest : List Line) :
    h.blockIndent parent (ls ++ stop :: rest) = stop.indent := by
  have hfirst : (ls ++ stop :: rest).find? (fun l => !l.text.isEmpty) = some stop := by
    rw [List.find?_append, find?_of_blank hblank, Option.none_or, List.find?_cons, hs.isEmpty]
    rfl
  simp only [Header.blockIndent, hindent, hfirst]

theorem active_of_blank {ls : List Line} (h : ∀ l ∈ ls, l.text = []) : active ls = [] := by
  refine List.dropWhile_eq_nil_iff.mpr fun l hl => ?_
  simp [Line.isIdle, h l hl]

section Blocks

variable {text : Text} {header : Header} {line : Line} {q : Nat} {ls left : List Line} {v : Value}

/-- A block whose column is known without the stop. -/
theorem readBlock_stop_of_stated (hq : p ≤ q) (hparse : Header.parse? (plainPart text) = some header)
    (hstated : header.indent ≠ none ∨ ∃ l ∈ ls, l.text ≠ [])
    (h : (readBlock text line (some q) ls).map Read.parts = .ok (v, left)) (hs : Stops p stop)
    (rest : List Line) :
    (readBlock text line (some q) (ls ++ stop :: rest)).map Read.parts = .ok (v, left ++ stop :: rest) := by
  rw [readBlock_parts, hparse] at h ⊢
  dsimp only at h ⊢
  rw [header.blockIndent_append (some q) hstated]
  split_ifs at h ⊢ with hdeep
  · obtain ⟨rfl, rfl⟩ := Prod.mk.inj (Except.ok.inj h)
    obtain ⟨htake, hdrop⟩ := takeWhile_dropWhile_stop (hs.inBlock (Nat.lt_of_le_of_lt hq hdeep)) ls rest
    rw [htake, hdrop]
  · obtain ⟨rfl, rfl⟩ := Prod.mk.inj (Except.ok.inj h)
    rfl

/-- At the end of the text a block takes the blank lines that are left. -/
theorem readBlock_of_blank (hparse : Header.parse? (plainPart text) = some header)
    (hindent : header.indent = none) (hempty : ∀ l ∈ ls, l.text = []) (line : Line) (q : Nat) :
    (readBlock text line (some q) ls).map Read.parts =
      .ok (.string (header.body (Lines.dedent (q + 1) (ls.map Line.raw))), []) := by
  have hbase : (some q).elim 0 (· + 1) = q + 1 := rfl
  have hcolumn : header.blockIndent (some q) ls = q + 1 := by
    simp only [Header.blockIndent, hindent, find?_of_blank hempty, hbase]
  have hin : ∀ l ∈ ls, inBlock (q + 1) l = true := by
    intro l hl
    simp [inBlock, hempty l hl]
  rw [readBlock_parts, hparse]
  dsimp only
  rw [hcolumn, hbase, if_pos (Nat.le_refl _), List.takeWhile_eq_self_iff.mpr hin,
    List.dropWhile_eq_nil_iff.mpr hin]

/-- In front of a stop it takes none of them, as the stop is taken for its first line. -/
theorem readBlock_stop_of_blank (hq : p ≤ q) (hparse : Header.parse? (plainPart text) = some header)
    (hindent : header.indent = none) (hempty : ∀ l ∈ ls, l.text = []) (line : Line) (hs : Stops p stop)
    (rest : List Line) :
    (readBlock text line (some q) (ls ++ stop :: rest)).map Read.parts =
      .ok (.string (header.body []), ls ++ stop :: rest) := by
  have hshallow : ¬(some q).elim 0 (· + 1) ≤ stop.indent :=
    Nat.not_le.mpr (Nat.lt_succ_of_le (hs.le.trans hq))
  rw [readBlock_parts, hparse]
  dsimp only
  rw [Header.blockIndent_stop hindent hempty hs, if_neg hshallow]

/-- The block that a header starts, before a line that ends it. -/
theorem readBlock_stop (hq : p ≤ q) (hblank : BlankRaws ls)
    (hmark : text.head? = some '|' ∨ text.head? = some '>')
    (h : (readBlock text line (some q) ls).map Read.parts = .ok (v, left)) :
    ∃ v', Shifts (Unfilled text ls) left v v' ∧ ∀ stop rest, Stops p stop →
      ∃ left', (readBlock text line (some q) (ls ++ stop :: rest)).map Read.parts = .ok (v', left') ∧
        active left' = active (left ++ stop :: rest) := by
  cases hparse : Header.parse? (plainPart text) with
  | none => simp [readBlock_parts, hparse] at h
  | some header =>
    have hunfilled : Unfilled text ls ↔
        (header.chomp = .keep ∧ ls ≠ []) ∧ header.indent = none ∧ ∀ l ∈ ls, l.text = [] := by
      constructor
      · rintro ⟨-, ⟨header', hparse', hchomp, hindent⟩, hne, hempty⟩
        cases hparse.symm.trans hparse'
        exact ⟨⟨hchomp, hne⟩, hindent, hempty⟩
      · rintro ⟨⟨hchomp, hne⟩, hindent, hempty⟩
        exact ⟨hmark, ⟨header, hparse, hchomp, hindent⟩, hne, hempty⟩
    by_cases hopen : header.indent = none ∧ ∀ l ∈ ls, l.text = []
    · obtain ⟨hindent, hempty⟩ := hopen
      rw [readBlock_of_blank hparse hindent hempty] at h
      obtain ⟨rfl, rfl⟩ := Prod.mk.inj (Except.ok.inj h)
      have hraws : ∀ raw ∈ Lines.dedent (q + 1) (ls.map Line.raw), isBlank raw = true := by
        intro raw hraw
        obtain ⟨_, hmem, rfl⟩ := List.mem_map.mp hraw
        obtain ⟨l, hl, rfl⟩ := List.mem_map.mp hmem
        exact isBlank_drop (hblank l hl (hempty l hl)) _
      have hbody := header.body_of_blank hraws
      refine ⟨.string (header.body []), ?_, fun stop rest hs => ?_⟩
      · by_cases hkeep : header.chomp = .keep ∧ ls ≠ []
        · refine .inr ⟨hunfilled.mpr ⟨hkeep, hindent, hempty⟩, fun heq => ?_, rfl⟩
          have hnil := hbody.mp (Value.string.inj heq).symm hkeep.1
          exact hkeep.2 (by simpa [Lines.dedent] using hnil)
        · refine .inl ⟨fun hu => hkeep (hunfilled.mp hu).1, ?_⟩
          refine congrArg Value.string (hbody.mpr fun hchomp => ?_).symm
          have hnil : ls = [] := by simpa [hchomp] using hkeep
          rw [hnil]
          rfl
      · exact ⟨_, readBlock_stop_of_blank hq hparse hindent hempty line hs rest,
          active_append_of_nil (active_of_blank hempty) _⟩
    · have hstated : header.indent ≠ none ∨ ∃ l ∈ ls, l.text ≠ [] :=
        (not_and_or.mp hopen).imp_right fun hno => by simpa using hno
      exact ⟨v, .inl ⟨fun hu => hopen (hunfilled.mp hu).2, rfl⟩, fun stop rest hs =>
        ⟨_, readBlock_stop_of_stated hq hparse hstated h hs rest, rfl⟩⟩

end Blocks

theorem readInline_marked {text : Text} (h : text.head? = some '|' ∨ text.head? = some '>') (line : Line)
    (parent : Option Nat) (ls : List Line) :
    readInline text line parent ls = readBlock text line parent ls := by
  cases text with
  | nil => simp at h
  | cons c t =>
    have hc : c = '|' ∨ c = '>' := by simpa using h
    simp only [readInline, if_pos hc]

theorem readInline_unmarked {text : Text} (h : ¬(text.head? = some '|' ∨ text.head? = some '>'))
    (line : Line) (parent : Option Nat) :
    (∀ ls, readInline text line parent ls = readQuoted text line ls) ∨
    (∀ ls, readInline text line parent ls = readFlow text line ls) ∨
    ∀ ls, readInline text line parent ls = .ok (readPlain text parent ls) := by
  cases text with
  | nil => exact .inr (.inr fun _ => rfl)
  | cons c t =>
    have hc : ¬(c = '|' ∨ c = '>') := by simpa using h
    simp only [readInline, if_neg hc]
    split_ifs
    · exact .inl fun _ => rfl
    · exact .inr (.inl fun _ => rfl)
    · exact .inr (.inr fun _ => rfl)

/-- Of the values that start on a line, only a block without content shows whether a line follows. -/
theorem readInline_stop {text : Text} {line : Line} {q : Nat} {ls left : List Line} {v : Value}
    (hq : p ≤ q) (hblank : BlankRaws ls)
    (h : (readInline text line (some q) ls).map Read.parts = .ok (v, left)) :
    ∃ v', Shifts (Unfilled text ls) left v v' ∧ ∀ stop rest, Stops p stop →
      ∃ left', (readInline text line (some q) (ls ++ stop :: rest)).map Read.parts = .ok (v', left') ∧
        active left' = active (left ++ stop :: rest) := by
  by_cases hmark : text.head? = some '|' ∨ text.head? = some '>'
  · simp only [readInline_marked hmark] at h ⊢
    exact readBlock_stop hq hblank hmark h
  · refine ⟨v, .inl ⟨fun hu => hmark hu.mark, rfl⟩, fun stop rest hs => ⟨_, ?_, rfl⟩⟩
    rcases readInline_unmarked hmark line (some q) with hr | hr | hr
    · rw [hr, readQuoted_parts] at h ⊢
      obtain ⟨front, trailing, hg, -, hf⟩ := finish_ok h
      rw [← List.append_nil ls, ← List.append_nil left] at hg
      rw [gathered_congr hg (stop :: rest), hf]
    · rw [hr, readFlow_parts] at h ⊢
      obtain ⟨front, trailing, hg, -, hf⟩ := finish_ok h
      rw [← List.append_nil ls, ← List.append_nil left] at hg
      rw [gathered_congr hg (stop :: rest), hf]
    · rw [hr] at h ⊢
      simp only [Except.map, readPlain_parts, deeperParts_stop hs hq, Except.ok.injEq,
        Prod.mk.injEq] at h ⊢
      exact ⟨h.1, by rw [h.2]⟩

/-! ### Values that end in such a block -/

/-- The task reads lines up to their end, and the last value in it is a block without content. -/
inductive Dangling : Task → List Line → Prop
  | block {parent : Option Nat} {ls rest : List Line} {line : Line} {task : Task}
      (h : active ls = line :: rest) (ht : blockTask? line = some task)
      (hd : Dangling task (line :: rest)) : Dangling (.node parent) ls
  | inline {parent : Option Nat} {ls rest : List Line} {line : Line} (h : active ls = line :: rest)
      (ht : blockTask? line = none) (hd : Unfilled line.text rest) : Dangling (.node parent) ls
  | entry {indent : Nat} {acc : Fields} {ls rest : List Line} {line : Line} {key after : Text}
      (h : active ls = line :: rest) (hi : line.indent = indent)
      (hk : splitKey? line.text = some (key, after))
      (hd : Dangling (.entry (trim after) line indent) rest) : Dangling (.mapping indent acc) ls
  | laterEntry {indent : Nat} {acc : Fields} {ls rest mid : List Line} {line : Line} {key after : Text}
      {v : Value} (h : active ls = line :: rest) (hi : line.indent = indent)
      (hk : splitKey? line.text = some (key, after))
      (hv : Reads (.entry (trim after) line indent) rest v mid)
      (hd : Dangling (.mapping indent (Fields.insert key v acc)) mid) : Dangling (.mapping indent acc) ls
  | item {indent : Nat} {ls rest : List Line} {line : Line} (h : active ls = line :: rest)
      (hi : line.indent = indent) (ht : Line.isItemText line.text = true)
      (hd : Dangling (.item line indent) rest) : Dangling (.sequence indent) ls
  | laterItem {indent : Nat} {ls rest mid : List Line} {line : Line} {v : Value}
      (h : active ls = line :: rest) (hi : line.indent = indent)
      (ht : Line.isItemText line.text = true) (hv : Reads (.item line indent) rest v mid)
      (hd : Dangling (.sequence indent) mid) : Dangling (.sequence indent) ls
  | itemBelow {line next : Line} {indent : Nat} {ls rest : List Line}
      (hc : isTrailingComment (itemContent line) = true) (h : active ls = next :: rest)
      (hi : indent < next.indent) (hd : Dangling (.node (some indent)) ls) :
      Dangling (.item line indent) ls
  | itemInline {line : Line} {indent : Nat} {ls : List Line}
      (hc : isTrailingComment (itemContent line) = false)
      (hd : Dangling (.node (some indent)) (itemLine line (itemContent line) :: ls)) :
      Dangling (.item line indent) ls
  | entryBelow {text : Text} {line next : Line} {indent : Nat} {ls rest : List Line}
      (hc : isTrailingComment text = true) (h : active ls = next :: rest) (hi : indent < next.indent)
      (hd : Dangling (.node (some indent)) ls) : Dangling (.entry text line indent) ls
  | entryList {text : Text} {line next : Line} {indent : Nat} {ls rest : List Line}
      (hc : isTrailingComment text = true) (h : active ls = next :: rest) (hi : next.indent = indent)
      (ht : Line.isItemText next.text = true) (hd : Dangling (.sequence indent) ls) :
      Dangling (.entry text line indent) ls
  | entryInline {text : Text} {line : Line} {indent : Nat} {ls : List Line}
      (hc : isTrailingComment text = false) (hd : Unfilled text ls) :
      Dangling (.entry text line indent) ls

namespace Dangling

variable {parent : Option Nat} {indent : Nat} {ls rest mid : List Line} {line next : Line} {text : Text}

theorem node_block_iff {task : Task} (h : active ls = line :: rest) (ht : blockTask? line = some task) :
    Dangling (.node parent) ls ↔ Dangling task (line :: rest) := by
  refine ⟨fun hd => ?_, .block h ht⟩
  cases hd with
  | block h' ht' hd =>
    cases h.symm.trans h'
    cases ht.symm.trans ht'
    exact hd
  | inline h' ht' _ =>
    cases h.symm.trans h'
    cases ht.symm.trans ht'

theorem node_inline_iff (h : active ls = line :: rest) (ht : blockTask? line = none) :
    Dangling (.node parent) ls ↔ Unfilled line.text rest := by
  refine ⟨fun hd => ?_, .inline h ht⟩
  cases hd with
  | block h' ht' _ =>
    cases h.symm.trans h'
    cases ht.symm.trans ht'
  | inline h' _ hd =>
    cases h.symm.trans h'
    exact hd

theorem mapping_iff (acc : Fields) {key after : Text} {v : Value} (h : active ls = line :: rest)
    (hi : line.indent = indent) (hk : splitKey? line.text = some (key, after))
    (hv : Reads (.entry (trim after) line indent) rest v mid) :
    Dangling (.mapping indent acc) ls ↔ Dangling (.entry (trim after) line indent) rest ∨
      Dangling (.mapping indent (Fields.insert key v acc)) mid := by
  constructor
  · intro hd
    cases hd with
    | entry h' _ hk' hd =>
      cases h.symm.trans h'
      cases hk.symm.trans hk'
      exact .inl hd
    | laterEntry h' _ hk' hv' hd =>
      cases h.symm.trans h'
      cases hk.symm.trans hk'
      obtain ⟨rfl, rfl⟩ := hv.unique hv'
      exact .inr hd
  · rintro (hd | hd)
    · exact .entry h hi hk hd
    · exact .laterEntry h hi hk hv hd

theorem not_mapping {acc : Fields} (h : ∀ line ∈ (active ls).head?, line.indent < indent) :
    ¬Dangling (.mapping indent acc) ls := by
  intro hd
  cases hd with
  | entry h' hi _ _ | laterEntry h' hi _ _ _ =>
    have := h _ (by rw [h']; rfl)
    omega

theorem sequence_iff {v : Value} (h : active ls = line :: rest) (hi : line.indent = indent)
    (ht : Line.isItemText line.text = true) (hv : Reads (.item line indent) rest v mid) :
    Dangling (.sequence indent) ls ↔ Dangling (.item line indent) rest ∨ Dangling (.sequence indent) mid := by
  constructor
  · intro hd
    cases hd with
    | item h' _ _ hd =>
      cases h.symm.trans h'
      exact .inl hd
    | laterItem h' _ _ hv' hd =>
      cases h.symm.trans h'
      obtain ⟨rfl, rfl⟩ := hv.unique hv'
      exact .inr hd
  · rintro (hd | hd)
    · exact .item h hi ht hd
    · exact .laterItem h hi ht hv hd

theorem not_sequence (h : ∀ line ∈ (active ls).head?,
    line.indent < indent ∨ (line.indent = indent ∧ Line.isItemText line.text = false)) :
    ¬Dangling (.sequence indent) ls := by
  intro hd
  cases hd with
  | item h' hi ht _ | laterItem h' hi ht _ _ =>
    rcases h _ (by rw [h']; rfl) with hlt | ⟨-, hno⟩
    · omega
    · rw [ht] at hno
      cases hno

theorem item_below_iff (hc : isTrailingComment (itemContent line) = true) (h : active ls = next :: rest)
    (hi : indent < next.indent) :
    Dangling (.item line indent) ls ↔ Dangling (.node (some indent)) ls := by
  refine ⟨fun hd => ?_, .itemBelow hc h hi⟩
  cases hd with
  | itemBelow _ _ _ hd => exact hd
  | itemInline hc' _ =>
    rw [hc] at hc'
    cases hc'

theorem item_inline_iff (hc : isTrailingComment (itemContent line) = false) :
    Dangling (.item line indent) ls ↔
      Dangling (.node (some indent)) (itemLine line (itemContent line) :: ls) := by
  refine ⟨fun hd => ?_, .itemInline hc⟩
  cases hd with
  | itemBelow hc' _ _ _ =>
    rw [hc] at hc'
    cases hc'
  | itemInline _ hd => exact hd

theorem not_item (hc : isTrailingComment (itemContent line) = true)
    (h : ∀ next ∈ (active ls).head?, next.indent ≤ indent) : ¬Dangling (.item line indent) ls := by
  intro hd
  cases hd with
  | itemBelow _ h' hi _ =>
    have := h _ (by rw [h']; rfl)
    omega
  | itemInline hc' _ =>
    rw [hc] at hc'
    cases hc'

theorem entry_below_iff (hc : isTrailingComment text = true) (h : active ls = next :: rest)
    (hi : indent < next.indent) :
    Dangling (.entry text line indent) ls ↔ Dangling (.node (some indent)) ls := by
  refine ⟨fun hd => ?_, .entryBelow hc h hi⟩
  cases hd with
  | entryBelow _ _ _ hd => exact hd
  | entryList _ h' hi' _ _ =>
    cases h.symm.trans h'
    omega
  | entryInline hc' _ =>
    rw [hc] at hc'
    cases hc'

theorem entry_list_iff (hc : isTrailingComment text = true) (h : active ls = next :: rest)
    (hi : next.indent = indent) (ht : Line.isItemText next.text = true) :
    Dangling (.entry text line indent) ls ↔ Dangling (.sequence indent) ls := by
  refine ⟨fun hd => ?_, .entryList hc h hi ht⟩
  cases hd with
  | entryBelow _ h' hi' _ =>
    cases h.symm.trans h'
    omega
  | entryList _ _ _ _ hd => exact hd
  | entryInline hc' _ =>
    rw [hc] at hc'
    cases hc'

theorem entry_inline_iff (hc : isTrailingComment text = false) :
    Dangling (.entry text line indent) ls ↔ Unfilled text ls := by
  refine ⟨fun hd => ?_, .entryInline hc⟩
  cases hd with
  | entryBelow hc' _ _ _ | entryList hc' _ _ _ _ =>
    rw [hc] at hc'
    cases hc'
  | entryInline _ hd => exact hd

theorem not_entry (hc : isTrailingComment text = true)
    (h : ∀ next ∈ (active ls).head?, next.indent ≤ indent ∧
      ¬(next.indent = indent ∧ Line.isItemText next.text = true)) :
    ¬Dangling (.entry text line indent) ls := by
  intro hd
  cases hd with
  | entryBelow _ h' hi _ =>
    have := (h _ (by rw [h']; rfl)).1
    omega
  | entryList _ h' hi ht _ => exact (h _ (by rw [h']; rfl)).2 ⟨hi, ht⟩
  | entryInline hc' _ =>
    rw [hc] at hc'
    cases hc'

end Dangling

/-- The task reads only what is deeper than `p`, or a sequence at `p`. -/
def Task.Under (p : Nat) : Task → List Line → Prop
  | .node parent, ls =>
    (∃ q, parent = some q ∧ p ≤ q) ∧ ∃ line rest, active ls = line :: rest ∧ p < line.indent
  | .mapping indent _, _ => p < indent
  | .sequence indent, _ => p ≤ indent
  | .item line indent, _ => p ≤ indent ∧ p ≤ line.indent
  | .entry _ _ indent, _ => p ≤ indent

theorem Task.under_of_blockTask? {line : Line} {task : Task} (h : blockTask? line = some task)
    (hp : p < line.indent) (ls : List Line) : task.Under p ls := by
  unfold blockTask? at h
  split_ifs at h <;> cases h
  · exact hp.le
  · exact hp

theorem Shifts.congr {a b : Prop} {left : List Line} {v v' : Value} (h : Shifts a left v v')
    (hab : b ↔ a) : Shifts b left v v' := by
  rwa [Shifts, hab]

theorem Shifts.cons {a : Prop} {left : List Line} {vs vs' : List Value}
    (h : Shifts a left (.array vs) (.array vs')) (v : Value) :
    Shifts a left (.array (v :: vs)) (.array (v :: vs')) := by
  simpa [Shifts] using h

/-- Mappings and sequences start at the next line with content. -/
theorem Task.run_mapping_active {indent : Nat} {acc : Fields} {ls ls' : List Line}
    (h : active ls' = active ls) : (mapping indent acc).run ls' = (mapping indent acc).run ls := by
  rw [run_mapping, h, ← run_mapping]

theorem Reads.mapping_active {indent : Nat} {acc : Fields} {ls ls' left : List Line} {v : Value}
    (h : Reads (.mapping indent acc) ls v left) (ha : active ls' = active ls) :
    Reads (.mapping indent acc) ls' v left :=
  reads_iff.mpr ((Task.run_mapping_active ha).trans h.run)

theorem Reads.sequence_active {indent : Nat} {ls ls' left : List Line} {v : Value}
    (h : Reads (.sequence indent) ls v left) (ha : active ls' = active ls) :
    Reads (.sequence indent) ls' v left := by
  rw [reads_iff, Task.run_sequence, ha, ← Task.run_sequence]
  exact h.run

/-- The task reads `v` if a stop follows its lines, and leaves `left` in front of the stop. -/
def ReadsBefore (p : Nat) (task : Task) (ls : List Line) (v : Value) (left : List Line) : Prop :=
  ∀ stop rest, Stops p stop → ∃ left', Reads task (ls ++ stop :: rest) v left' ∧
    active left' = active (left ++ stop :: rest)

namespace ReadsBefore

variable {task task' : Task} {indent : Nat} {ls ls' rest mid left : List Line} {line : Line} {v w : Value}

theorem imp (h : ReadsBefore p task ls v left)
    (hstep : ∀ tail left', Reads task (ls ++ tail) v left' → Reads task' (ls' ++ tail) v left') :
    ReadsBefore p task' ls' v left := by
  intro stop rest hs
  obtain ⟨left', hread, hleft⟩ := h stop rest hs
  exact ⟨left', hstep _ _ hread, hleft⟩

theorem mappingEnd {acc : Fields} (hp : p < indent) (h : ∀ line ∈ (active ls).head?, line.indent < indent) :
    ReadsBefore p (.mapping indent acc) ls (.object acc) (active ls) := by
  intro stop rest hs
  refine ⟨_, .mappingEnd (head_active_append h hs (Nat.lt_of_le_of_lt hs.le hp) rest), ?_⟩
  rw [active_active, active_active_append]

theorem mappingEntry {acc : Fields} {key after : Text} (h : active ls = line :: rest)
    (hi : line.indent = indent) (hk : splitKey? line.text = some (key, after))
    (hd : Fields.has key acc = false)
    (hv : ReadsBefore p (.entry (trim after) line indent) rest v mid)
    (hw : ReadsBefore p (.mapping indent (Fields.insert key v acc)) mid w left) :
    ReadsBefore p (.mapping indent acc) ls w left := by
  intro stop others hs
  obtain ⟨mid', hentry, hmid⟩ := hv stop others hs
  obtain ⟨left', hrest, hleft⟩ := hw stop others hs
  exact ⟨left', .mappingEntry (active_append_of_cons h _) hi hk hd hentry (hrest.mapping_active hmid),
    hleft⟩

theorem sequenceEnd (hp : p ≤ indent) (h : ∀ line ∈ (active ls).head?,
    line.indent < indent ∨ (line.indent = indent ∧ Line.isItemText line.text = false)) :
    ReadsBefore p (.sequence indent) ls (.array []) (active ls) := by
  intro stop rest hs
  have hstop : stop.indent < indent ∨ (stop.indent = indent ∧ Line.isItemText stop.text = false) := by
    rcases hs.column with hlt | ⟨heq, hitem⟩
    · exact .inl (Nat.lt_of_lt_of_le hlt hp)
    · rcases Nat.lt_or_eq_of_le hp with hlt | rfl
      · exact .inl (heq ▸ hlt)
      · exact .inr ⟨heq, hitem⟩
  refine ⟨_, .sequenceEnd (head_active_append h hs hstop rest), ?_⟩
  rw [active_active, active_active_append]

theorem sequenceItem {vs : List Value} (h : active ls = line :: rest) (hi : line.indent = indent)
    (ht : Line.isItemText line.text = true) (hv : ReadsBefore p (.item line indent) rest v mid)
    (hw : ReadsBefore p (.sequence indent) mid (.array vs) left) :
    ReadsBefore p (.sequence indent) ls (.array (v :: vs)) left := by
  intro stop others hs
  obtain ⟨mid', hitem, hmid⟩ := hv stop others hs
  obtain ⟨left', hrest, hleft⟩ := hw stop others hs
  exact ⟨left', .sequenceItem (active_append_of_cons h _) hi ht hitem (hrest.sequence_active hmid), hleft⟩

theorem itemNull (hc : isTrailingComment (itemContent line) = true) (hp : p ≤ indent)
    (h : ∀ next ∈ (active ls).head?, next.indent ≤ indent) :
    ReadsBefore p (.item line indent) ls .null ls := fun _ rest hs =>
  ⟨_, .itemNull hc (head_active_append h hs (hs.le.trans hp) rest), rfl⟩

theorem entryNull {text : Text} (hc : isTrailingComment text = true) (hp : p ≤ indent)
    (h : ∀ next ∈ (active ls).head?, next.indent ≤ indent ∧
      ¬(next.indent = indent ∧ Line.isItemText next.text = true)) :
    ReadsBefore p (.entry text line indent) ls .null ls := by
  intro stop rest hs
  have hstop : ¬(stop.indent = indent ∧ Line.isItemText stop.text = true) := by
    rintro ⟨heq, hitem⟩
    rcases hs.column with hlt | ⟨-, hno⟩
    · omega
    · rw [hitem] at hno
      cases hno
  exact ⟨_, .entryNull hc (head_active_append h hs ⟨hs.le.trans hp, hstop⟩ rest), rfl⟩

theorem exists_array (h : ReadsBefore p (.sequence indent) ls v left) : ∃ vs, v = .array vs := by
  obtain ⟨stop, hs⟩ := exists_stops p
  obtain ⟨left', hread, -⟩ := h stop [] hs
  cases hread with
  | sequenceEnd _ | sequenceItem _ _ _ _ _ => exact ⟨_, rfl⟩

end ReadsBefore

/-- A mapping without further entries. -/
theorem Reads.mapping_nil {indent : Nat} {acc : Fields} {ls left : List Line} {v : Value}
    (h : Reads (.mapping indent acc) ls v left) (ha : active ls = []) :
    v = .object acc ∧ left = [] := by
  have hend : Reads (.mapping indent acc) ls (.object acc) (active ls) := .mappingEnd (by simp [ha])
  rw [ha] at hend
  exact h.unique hend

theorem Reads.sequence_nil {indent : Nat} {ls left : List Line} {v : Value}
    (h : Reads (.sequence indent) ls v left) (ha : active ls = []) : v = .array [] ∧ left = [] := by
  have hend : Reads (.sequence indent) ls (.array []) (active ls) := .sequenceEnd (by simp [ha])
  rw [ha] at hend
  exact h.unique hend

/-- Of what is read below `p`, only a value that ends in a block without content shows whether a line
follows it. -/
theorem Reads.before_stop {task : Task} {ls left : List Line} {v : Value} (h : Reads task ls v left)
    (hu : task.Under p ls) (hblank : BlankRaws ls) :
    ∃ v', Shifts (Dangling task ls) left v v' ∧ ReadsBefore p task ls v' left := by
  have hrest : ∀ {ls rest : List Line} {line : Line}, BlankRaws ls → active ls = line :: rest →
      BlankRaws rest := fun hblank h =>
    hblank.suffix ((List.suffix_cons _ _).trans (h ▸ active_suffix _))
  induction h with
  | nothing h =>
    obtain ⟨-, line, rest, hactive, -⟩ := hu
    rw [h] at hactive
    cases hactive
  | @block parent ls rest left line task v h ht hr ih =>
    obtain ⟨-, line', rest', hactive, hp⟩ := hu
    cases h.symm.trans hactive
    obtain ⟨v', hshift, hread⟩ := ih (Task.under_of_blockTask? ht hp _)
      (hblank.suffix (h ▸ active_suffix ls))
    refine ⟨v', hshift.congr (Dangling.node_block_iff h ht), hread.imp fun tail left' hr => ?_⟩
    exact .block (active_append_of_cons h tail) ht hr
  | inline h ht hr =>
    obtain ⟨⟨q, rfl, hq⟩, -⟩ := hu
    obtain ⟨v', hshift, hread⟩ := readInline_stop hq (hrest hblank h) hr
    refine ⟨v', hshift.congr (Dangling.node_inline_iff h ht), fun stop rest' hs => ?_⟩
    obtain ⟨left', hread, hleft⟩ := hread stop rest' hs
    exact ⟨left', .inline (active_append_of_cons h _) ht hread, hleft⟩
  | mappingEnd h => exact ⟨_, .inl ⟨Dangling.not_mapping h, rfl⟩, .mappingEnd hu h⟩
  | @mappingEntry indent acc ls rest mid left line key after v w h hi hk hd hv hr ihv ihr =>
    have hrest := hrest hblank h
    obtain ⟨v', hshift, hentry⟩ := ihv (Nat.le_of_lt hu) hrest
    rcases hshift with ⟨hno, rfl⟩ | ⟨hyes, hne, hend⟩
    · obtain ⟨w', hshift', hothers⟩ := ihr hu (hrest.suffix hv.suffix.1)
      have hiff := (Dangling.mapping_iff acc h hi hk hv).trans (or_iff_right hno)
      exact ⟨w', hshift'.congr hiff, hentry.mappingEntry h hi hk hd hothers⟩
    · -- The entry goes on to the end, so it is the last one.
      obtain ⟨rfl, rfl⟩ := hr.mapping_nil hend
      have hlast : ReadsBefore p (.mapping indent (Fields.insert key v' acc)) mid
          (.object (Fields.insert key v' acc)) [] := hend ▸ .mappingEnd hu (by simp [hend])
      refine ⟨_, .inr ⟨.entry h hi hk hyes, ?_, rfl⟩, hentry.mappingEntry h hi hk hd hlast⟩
      intro heq
      have hget := congrArg (Fields.get? key) (Value.object.inj heq)
      rw [Fields.get?_insert, Fields.get?_insert, if_pos rfl, if_pos rfl] at hget
      exact hne (Option.some.inj hget)
  | sequenceEnd h => exact ⟨_, .inl ⟨Dangling.not_sequence h, rfl⟩, .sequenceEnd hu h⟩
  | @sequenceItem indent ls rest mid left line v vs h hi ht hv hr ihv ihr =>
    have hrest := hrest hblank h
    obtain ⟨v', hshift, hitem⟩ := ihv ⟨hu, hi ▸ hu⟩ hrest
    rcases hshift with ⟨hno, rfl⟩ | ⟨hyes, hne, hend⟩
    · obtain ⟨w', hshift', hothers⟩ := ihr hu (hrest.suffix hv.suffix.1)
      have hiff := (Dangling.sequence_iff h hi ht hv).trans (or_iff_right hno)
      obtain ⟨vs', rfl⟩ := hothers.exists_array
      exact ⟨_, (hshift'.cons v').congr hiff, hitem.sequenceItem h hi ht hothers⟩
    · obtain ⟨hnil, rfl⟩ := hr.sequence_nil hend
      cases hnil
      have hlast : ReadsBefore p (.sequence indent) mid (.array []) [] :=
        hend ▸ .sequenceEnd hu (by simp [hend])
      refine ⟨_, .inr ⟨.item h hi ht hyes, ?_, rfl⟩, hitem.sequenceItem h hi ht hlast⟩
      intro heq
      cases heq
      exact hne rfl
  | itemNull hc h => exact ⟨_, .inl ⟨Dangling.not_item hc h, rfl⟩, .itemNull hc hu.1 h⟩
  | itemBelow hc h hi hr ih =>
    obtain ⟨v', hshift, hread⟩ := ih ⟨⟨_, rfl, hu.1⟩, _, _, h, Nat.lt_of_le_of_lt hu.1 hi⟩ hblank
    refine ⟨v', hshift.congr (Dangling.item_below_iff hc h hi), hread.imp fun tail left' hr => ?_⟩
    exact .itemBelow hc (active_append_of_cons h tail) hi hr
  | @itemInline line indent ls left v hc hr ih =>
    have hdeep : p < (itemLine line (itemContent line)).indent := by
      have := hu.2
      simp only [itemLine]
      omega
    have hcontent : BlankRaws (itemLine line (itemContent line) :: ls) := by
      refine List.forall_mem_cons.mpr ⟨fun hempty => ?_, hblank⟩
      have := itemLine_isIdle hc
      simp [Line.isIdle, hempty] at this
    obtain ⟨v', hshift, hread⟩ := ih ⟨⟨_, rfl, hu.1⟩, _, _, active_cons (itemLine_isIdle hc) ls, hdeep⟩
      hcontent
    exact ⟨v', hshift.congr (Dangling.item_inline_iff hc), hread.imp fun _ _ hr => .itemInline hc hr⟩
  | entryNull hc h => exact ⟨_, .inl ⟨Dangling.not_entry hc h, rfl⟩, .entryNull hc hu h⟩
  | entryBelow hc h hi hr ih =>
    obtain ⟨v', hshift, hread⟩ := ih ⟨⟨_, rfl, hu⟩, _, _, h, Nat.lt_of_le_of_lt hu hi⟩ hblank
    refine ⟨v', hshift.congr (Dangling.entry_below_iff hc h hi), hread.imp fun tail left' hr => ?_⟩
    exact .entryBelow hc (active_append_of_cons h tail) hi hr
  | entryList hc h hi ht hr ih =>
    obtain ⟨v', hshift, hread⟩ := ih hu hblank
    refine ⟨v', hshift.congr (Dangling.entry_list_iff hc h hi ht), hread.imp fun tail left' hr => ?_⟩
    exact .entryList hc (active_append_of_cons h tail) hi ht hr
  | entryInline hc hr =>
    obtain ⟨v', hshift, hread⟩ := readInline_stop hu hblank hr
    refine ⟨v', hshift.congr (Dangling.entry_inline_iff hc), fun stop rest' hs => ?_⟩
    obtain ⟨left', hread, hleft⟩ := hread stop rest' hs
    exact ⟨left', .entryInline hc hread, hleft⟩

end TemplateDocs.Outline
