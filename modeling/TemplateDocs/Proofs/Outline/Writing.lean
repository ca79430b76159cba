import Mathlib
import TemplateDocs.Proofs.Metadata.Quoting
import TemplateDocs.Proofs.Outline.CompactJson

/-!
# Values written as block outlines

A value is written with one row for every entry and item, two columns deeper for every level, and
strings in quotes of either kind. Whatever blank lines and comments stand between the rows, the
outline is read as the value.
-/
namespace TemplateDocs.Outline

open Json (Value Fields Canonical Plain)
open Metadata (doubleQuoted)

/-! ### The written form -/

inductive Quotes where
  | double | single
  deriving DecidableEq, Repr

def Quotes.write : Quotes → Text → Text
  | .double, s => doubleQuoted s
  | .single, s => singleQuoted s

/-- A way into a collection: to the key or to the value of an entry. -/
inductive Step where
  | key (index : Nat)
  | value (index : Nat)
  deriving DecidableEq, Repr

/-- The quotes of every string, by the way to it. -/
abbrev Style := List Step → Quotes

def Style.into (style : Style) (step : Step) : Style := fun way => style (step :: way)

structure Row where
  indent : Nat
  text : Text
  deriving DecidableEq, Repr

def Row.line (r : Row) : Text := List.replicate r.indent ' ' ++ r.text

/-- Rows as the content of an item whose dash stands at `indent`. -/
def asItem (indent : Nat) : List Row → List Row
  | [] => []
  | r :: rest => ⟨indent, '-' :: ' ' :: r.text⟩ :: rest

/-- Whether a value is written on the line of its key. -/
def isInline : Value → Bool
  | .array items => items.isEmpty
  | .object fields => fields.isEmpty
  | _ => true

/-- Rows of a value as an entry at `indent`, on the line of its key or below it. -/
def asEntry (indent : Nat) (key : Text) (inline : Bool) (value : List Row) : List Row :=
  if inline then value.map fun r => ⟨indent, key ++ ':' :: ' ' :: r.text⟩
  else ⟨indent, key ++ [':']⟩ :: value

mutual

/-- The rows of a value that starts at `indent`. -/
def rows (style : Style) (indent : Nat) : Value → List Row
  | .null => [⟨indent, Json.scalar .null⟩]
  | .bool b => [⟨indent, Json.scalar (.bool b)⟩]
  | .number n => [⟨indent, Json.scalar (.number n)⟩]
  | .string s => [⟨indent, (style []).write s⟩]
  | .array items => if items.isEmpty then [⟨indent, ['[', ']']⟩] else itemRows style indent 0 items
  | .object fields =>
    if fields.isEmpty then [⟨indent, ['\x7b', '\x7d']⟩] else fieldRows style indent 0 fields

def itemRows (style : Style) (indent index : Nat) : List Value → List Row
  | [] => []
  | v :: items =>
    asItem indent (rows (style.into (.value index)) (indent + 2) v) ++
      itemRows style indent (index + 1) items

def fieldRows (style : Style) (indent index : Nat) : List (Text × Value) → List Row
  | [] => []
  | (k, v) :: fields =>
    asEntry indent ((style [.key index]).write k) (isInline v)
        (rows (style.into (.value index)) (indent + 2) v) ++
      fieldRows style indent (index + 1) fields

end

/-- A line without content: blank, or a comment. -/
def IsIdleLine (line : Text) : Prop :=
  '\n' ∉ line ∧ (Lines.isBlank line = true ∨ ∃ t, Text.trimStart line = '#' :: t)

/-- The lines with blank lines and comments between them. -/
inductive Spread : Lines → Lines → Prop
  | nil : Spread [] []
  | line (l : Text) {ls spread : Lines} (h : Spread ls spread) : Spread (l :: ls) (l :: spread)
  | idle {l : Text} {ls spread : Lines} (hl : IsIdleLine l) (h : Spread ls spread) :
      Spread ls (l :: spread)

/-! ### What a reader sees of lines -/

/-- Column and content of the lines that have content. -/
def shown (ls : List Line) : List Row :=
  (ls.filter fun l => !l.isIdle).map fun l => ⟨l.indent, l.text⟩

theorem shown_cons {l : Line} (h : l.isIdle = false) (ls : List Line) :
    shown (l :: ls) = ⟨l.indent, l.text⟩ :: shown ls := by
  simp [shown, h]

theorem shown_active (ls : List Line) : shown (active ls) = shown ls := by
  induction ls with
  | nil => rfl
  | cons l ls ih =>
    cases h : l.isIdle with
    | false => rw [active_cons h]
    | true =>
      have ha : active (l :: ls) = active ls := by simp [active, h]
      rw [ha, ih]
      simp [shown, h]

theorem shown_eq_nil {ls : List Line} (h : shown ls = []) : active ls = [] := by
  rw [← shown_active] at h
  cases ha : active ls with
  | nil => rfl
  | cons l rest =>
    rw [ha, shown_cons (isIdle_of_active ha)] at h
    cases h

theorem shown_eq_cons {ls : List Line} {r : Row} {rest : List Row} (h : shown ls = r :: rest) :
    ∃ line others, active ls = line :: others ∧ line.isIdle = false ∧ line.indent = r.indent ∧
      line.text = r.text ∧ shown others = rest := by
  rw [← shown_active] at h
  cases ha : active ls with
  | nil => simp [ha, shown] at h
  | cons line others =>
    have hidle := isIdle_of_active ha
    rw [ha, shown_cons hidle] at h
    obtain ⟨rfl, hrest⟩ := List.cons.inj h
    exact ⟨line, others, rfl, hidle, rfl, rfl, hrest⟩

theorem head?_active {ls : List Line} {p : Nat → Prop} (h : ∀ r ∈ (shown ls).head?, p r.indent) :
    ∀ l ∈ (active ls).head?, p l.indent := by
  intro l hl
  cases ha : active ls with
  | nil => simp [ha] at hl
  | cons line others =>
    rw [← shown_active, ha, shown_cons (isIdle_of_active ha)] at h
    obtain rfl : line = l := by simpa [ha] using hl
    exact h _ rfl

/-! ### Texts that fit on a line -/

/-- A text of content without blanks around it. -/
structure Clean (t : Text) : Prop where
  tight : Text.Tight t
  newline : '\n' ∉ t
  start : ∃ c rest, t = c :: rest ∧ c ≠ '#'

theorem Clean.ne_nil {t : Text} (h : Clean t) : t ≠ [] := by
  obtain ⟨c, rest, rfl, -⟩ := h.start
  simp

theorem Clean.not_trailing {t : Text} (h : Clean t) : isTrailingComment t = false := by
  obtain ⟨c, rest, rfl, hc⟩ := h.start
  simp [isTrailingComment, hc]

theorem Clean.append {w t : Text} (h : Clean w) (hne : t ≠ [])
    (hlast : ∀ c ∈ t.getLast?, Text.isSpace c = false) (hnewline : '\n' ∉ t) : Clean (w ++ t) := by
  obtain ⟨c, w, rfl, hc⟩ := h.start
  refine ⟨⟨by simpa using h.tight.head, ?_⟩, ?_, c, w ++ t, rfl, hc⟩
  · rwa [List.getLast?_append_of_ne_nil _ hne]
  · rw [List.mem_append, not_or]
    exact ⟨h.newline, hnewline⟩

/-- Two clean texts with a blank between them. -/
theorem Clean.spaced {w t : Text} (hw : Clean w) (ht : Clean t) : Clean (w ++ ' ' :: t) := by
  refine hw.append (by simp) ?_ (by simpa using ht.newline)
  rw [← List.singleton_append, List.getLast?_append_of_ne_nil _ ht.ne_nil]
  exact ht.tight.last

/-- The text is read as the value wherever it stands on a line. -/
structure Inline (t : Text) (v : Value) : Prop where
  clean : Clean t
  item : Line.isItemText t = false
  key : splitKey? t = none
  reads : ∀ (line : Line) (parent : Option Nat) (ls : List Line),
    (∀ l ∈ (active ls).head?, parent.all (· < l.indent) = false) →
    ∃ left, shown left = shown ls ∧ (readInline t line parent ls).map Read.parts = .ok (v, left)

theorem Inline.plain {v : Value} (h : Plain v) : Inline (Json.scalar v) v := by
  obtain ⟨hword, hresolve, -⟩ := plain_scalar h
  generalize Json.scalar v = w at hword hresolve
  obtain ⟨c, w', rfl⟩ := List.exists_cons_of_ne_nil hword.ne_nil
  refine ⟨⟨hword.tight, hword.not_mem rfl, c, w', rfl, ne_of_isPlainChar (hword.chars c (by simp)) rfl⟩,
    hword.not_item, splitKey?_of_no_colon (hword.not_mem rfl), ?_⟩
  intro line parent ls hls
  exact ⟨active ls, shown_active ls, by rw [readInline_plainWord hword hls, hresolve]⟩

/-- A collection without entries is written as its two brackets. -/
theorem Inline.empty {t : Text} {v : Value} (h : t = ['[', ']'] ∧ v = .array [] ∨
    t = ['\x7b', '\x7d'] ∧ v = .object []) : Inline t v := by
  rcases h with ⟨rfl, rfl⟩ | ⟨rfl, rfl⟩
  · refine ⟨⟨Text.tight_of_trim (by decide), by decide, _, _, rfl, by decide⟩, rfl, rfl, ?_⟩
    exact fun line parent ls _ =>
      ⟨ls, rfl, Flow.readInline_compact (.array (by simp)) (.array []) line parent ls⟩
  · refine ⟨⟨Text.tight_of_trim (by decide), by decide, _, _, rfl, by decide⟩, rfl, rfl, ?_⟩
    exact fun line parent ls _ =>
      ⟨ls, rfl, Flow.readInline_compact (.object .nil (by simp) (by simp)) (.object []) line parent ls⟩

/-- A text in quotes: where it ends, and what it stands for. -/
structure QuotedAs (w s : Text) : Prop where
  start : ∃ c t, w = c :: t ∧ Flow.isQuote c = true
  last : ∀ c ∈ w.getLast?, Text.isSpace c = false
  newline : '\n' ∉ w
  ends : ∀ rest, (∀ c ∈ rest.head?, c ≠ '\'') → quoted? (w ++ rest) = some (w, rest)
  meaning : unquote w = .ok s

theorem newline_not_mem_doubled {s : Text} (h : '\n' ∉ s) : '\n' ∉ doubled s := by
  intro hm
  obtain ⟨c, hc, hm⟩ := List.mem_flatMap.mp hm
  split_ifs at hm
  · simp at hm
  · exact h (List.mem_singleton.mp hm ▸ hc)

theorem Quotes.write_quoted (q : Quotes) {s : Text} (h : '\n' ∉ s) : QuotedAs (q.write s) s := by
  cases q with
  | double =>
    have hnewline := Metadata.not_mem_escapeQuotes (c := '\n') (by decide) h
    exact ⟨⟨'"', _, rfl, rfl⟩, (Metadata.doubleQuoted_tight s).last,
      by simp [write, doubleQuoted, hnewline], fun rest _ => Metadata.quoted?_doubleQuoted s rest,
      Metadata.unquote_doubleQuoted s⟩
  | single =>
    have hnewline := newline_not_mem_doubled h
    refine ⟨⟨'\'', _, rfl, rfl⟩, ?_, by simp [write, singleQuoted, hnewline],
      fun rest hrest => quoted?_singleQuoted s hrest, unquote_singleQuoted s⟩
    rw [write, singleQuoted, ← List.cons_append, List.getLast?_concat]
    simp
    decide

theorem QuotedAs.clean {w s : Text} (h : QuotedAs w s) : Clean w := by
  obtain ⟨c, t, rfl, hc⟩ := h.start
  have hchar : Text.isSpace c = false ∧ c ≠ '#' := by
    simp only [Flow.isQuote, Bool.or_eq_true, decide_eq_true_eq] at hc
    rcases hc with rfl | rfl <;> decide
  exact ⟨⟨by simpa using hchar.1, h.last⟩, h.newline, c, t, rfl, hchar.2⟩

theorem QuotedAs.not_item {w s : Text} (h : QuotedAs w s) (rest : Text) :
    Line.isItemText (w ++ rest) = false := by
  obtain ⟨c, t, rfl, hc⟩ := h.start
  cases hi : Line.isItemText (c :: t ++ rest) with
  | false => rfl
  | true =>
    obtain ⟨r, hr⟩ := Line.exists_of_isItemText hi
    obtain rfl : c = '-' := (List.cons.inj hr).1
    cases hc

/-- A quoted text before a colon is a key. -/
theorem QuotedAs.splitKey? {w s : Text} (h : QuotedAs w s) {rest : Text}
    (hrest : (rest.head?.map isGap).getD true = true) :
    Outline.splitKey? (w ++ ':' :: rest) = some (s, rest) := by
  have hends := h.ends (':' :: rest) (by simp)
  have hmeaning := h.meaning
  obtain ⟨c, t, rfl, hc⟩ := h.start
  rw [List.cons_append] at hends ⊢
  simp [Outline.splitKey?, hc, hends, Text.trimStart, Text.isSpace, Text.after?, hrest, hmeaning]

theorem Inline.quoted {w s : Text} (h : QuotedAs w s) : Inline w (.string s) := by
  have hends := h.ends [] (by simp)
  have hitem := h.not_item []
  rw [List.append_nil] at hitem
  refine ⟨h.clean, hitem, ?_, ?_⟩
  · obtain ⟨c, t, rfl, hc⟩ := h.start
    rw [List.append_nil] at hends
    simp [splitKey?, hc, hends, Text.trimStart, Text.after?]
  · intro line parent ls _
    have hunquoted : unquoted w = .ok s := by rw [unquoted, h.meaning]
    have hread := readInline_quoted hends hunquoted rfl line parent ls
    rw [List.append_nil] at hread
    exact ⟨ls, rfl, hread⟩

/-! ### Reading the rows of a value -/

/-- The first row, if there is one, is not part of a value under `parent`. -/
def Leaves (parent : Option Nat) (tail : List Row) : Prop :=
  ∀ r ∈ tail.head?, parent.all (· < r.indent) = false

theorem Leaves.lt {parent : Option Nat} {tail : List Row} (h : Leaves parent tail) {i : Nat}
    (hi : parent.all (· < i) = true) : ∀ r ∈ tail.head?, r.indent < i := by
  intro r hr
  have hr := h r hr
  cases parent with
  | none => simp at hr
  | some p =>
    simp only [Option.all_some, decide_eq_true_eq, decide_eq_false_iff_not] at hi hr
    omega

/-- The rows of a value have content, start at its column and are read as the value. -/
structure WrittenBack (v : Value) : Prop where
  head : ∀ style i, ∃ t rest, rows style i v = ⟨i, t⟩ :: rest
  clean : ∀ style i, ∀ r ∈ rows style i v, Clean r.text
  inline : isInline v = true → ∀ style i, ∃ t, rows style i v = [⟨i, t⟩] ∧ Inline t v
  node : ∀ style {i parent ls tail}, parent.all (· < i) = true → Leaves parent tail →
    shown ls = rows style i v ++ tail → ∃ left, shown left = tail ∧ Reads (.node parent) ls v left

theorem WrittenBack.of_inline {v : Value}
    (h : ∀ style i, ∃ t, rows style i v = [⟨i, t⟩] ∧ Inline t v) : WrittenBack v := by
  refine ⟨?_, ?_, fun _ => h, ?_⟩
  · intro style i
    obtain ⟨t, ht, -⟩ := h style i
    exact ⟨t, [], ht⟩
  · intro style i r hr
    obtain ⟨t, ht, hinline⟩ := h style i
    rw [ht, List.mem_singleton] at hr
    exact hr ▸ hinline.clean
  · intro style i parent ls tail _ htail hls
    obtain ⟨t, ht, hinline⟩ := h style i
    rw [ht] at hls
    obtain ⟨line, others, hactive, -, -, htext, hothers⟩ := shown_eq_cons hls
    obtain ⟨left, hleft, hread⟩ := hinline.reads line parent others
      (head?_active (p := fun i => parent.all (· < i) = false) (hothers ▸ htail))
    refine ⟨left, hleft.trans hothers, .inline hactive ?_ (htext ▸ hread)⟩
    simp [blockTask?, htext, hinline.item, hinline.key]

section Items

variable {style : Style} {i : Nat}

theorem leaves_itemRows {index : Nat} {items : List Value} (h : ∀ v ∈ items, WrittenBack v)
    {tail : List Row} (htail : ∀ r ∈ tail.head?, r.indent < i) :
    Leaves (some i) (itemRows style i index items ++ tail) := by
  intro r hr
  cases items with
  | nil => simpa using Nat.le_of_lt (htail r hr)
  | cons v items =>
    obtain ⟨t, rest, ht⟩ := (h v (by simp)).head (style.into (.value index)) (i + 2)
    rw [itemRows, ht] at hr
    obtain rfl : (⟨i, '-' :: ' ' :: t⟩ : Row) = r := by simpa [asItem] using hr
    simp

/-- The item on a line is read as the value that its rows were written for. -/
theorem WrittenBack.item {v : Value} (h : WrittenBack v) {ls : List Line} {tail : List Row}
    (htail : Leaves (some i) tail) (hls : shown ls = asItem i (rows style (i + 2) v) ++ tail) :
    ∃ line others left, active ls = line :: others ∧ line.indent = i ∧
      Line.isItemText line.text = true ∧ shown left = tail ∧ Reads (.item line i) others v left := by
  obtain ⟨t, rest, ht⟩ := h.head style (i + 2)
  have hclean : Clean t := h.clean style (i + 2) ⟨i + 2, t⟩ (by simp [ht])
  rw [ht, asItem, List.cons_append] at hls
  obtain ⟨line, others, hactive, -, hindent, htext, hothers⟩ := shown_eq_cons hls
  have hcontent : itemContent line = t := by
    rw [itemContent, htext]
    exact (@Text.trimStart_append [' '] (by simp; decide) t).trans
      (Text.trimStart_of_head hclean.tight.head)
  have hidle : (itemLine line (itemContent line)).isIdle = false := by
    obtain ⟨c, t', rfl, hc⟩ := hclean.start
    simp [itemLine, Line.isIdle, hcontent, hc]
  -- The item is read as a line of its own, which has to show as the first row of the value.
  have hshown : shown (itemLine line (itemContent line) :: others) = rows style (i + 2) v ++ tail := by
    have hcolumn : line.indent + 1 + ((' ' :: t).length - t.length) = i + 2 := by
      simp only [List.length_cons, hindent]
      omega
    rw [shown_cons hidle, hothers, ht, List.cons_append]
    simp only [itemLine, hcontent, htext, List.drop_succ_cons, List.drop_zero, hcolumn]
  obtain ⟨left, hleft, hread⟩ := h.node style (by simp) htail hshown
  exact ⟨line, others, left, hactive, hindent, by rw [htext]; rfl, hleft,
    .itemInline (hcontent ▸ hclean.not_trailing) hread⟩

theorem reads_itemRows {index : Nat} {items : List Value} (h : ∀ v ∈ items, WrittenBack v)
    {ls : List Line} {tail : List Row} (htail : ∀ r ∈ tail.head?, r.indent < i)
    (hls : shown ls = itemRows style i index items ++ tail) :
    ∃ left, shown left = tail ∧ Reads (.sequence i) ls (.array items) left := by
  induction items generalizing index ls with
  | nil =>
    rw [itemRows, List.nil_append] at hls
    exact ⟨active ls, (shown_active ls).trans hls,
      .sequenceEnd fun l hl => .inl (head?_active (p := (· < i)) (hls ▸ htail) l hl)⟩
  | cons v items ih =>
    have hrest : ∀ w ∈ items, WrittenBack w := fun w hw => h w (by simp [hw])
    rw [itemRows, List.append_assoc] at hls
    -- The items left start at the column of the dash, so the first item ends before them.
    obtain ⟨line, others, mid, hactive, hindent, hitem, hmid, hread⟩ :=
      (h v (by simp)).item (leaves_itemRows hrest htail) hls
    obtain ⟨left, hleft, hmore⟩ := ih hrest hmid
    exact ⟨left, hleft, .sequenceItem hactive hindent hitem hread hmore⟩

theorem clean_itemRows {index : Nat} {items : List Value} (h : ∀ v ∈ items, WrittenBack v) :
    ∀ r ∈ itemRows style i index items, Clean r.text := by
  induction items generalizing index with
  | nil => simp [itemRows]
  | cons v items ih =>
    have hv := h v (by simp)
    obtain ⟨t, rest, ht⟩ := hv.head (style.into (.value index)) (i + 2)
    have hclean := hv.clean (style.into (.value index)) (i + 2)
    rw [ht] at hclean
    intro r hr
    rw [itemRows, ht, asItem, List.cons_append, List.mem_cons, List.mem_append] at hr
    rcases hr with rfl | hr | hr
    · have hdash : Clean ['-'] := ⟨Text.tight_of_trim (by decide), by decide, _, _, rfl, by decide⟩
      exact hdash.spaced (hclean ⟨i + 2, t⟩ (by simp))
    · exact hclean r (by simp [hr])
    · exact ih (fun w hw => h w (by simp [hw])) r hr

end Items

section Entries

variable {style : Style} {i : Nat}

theorem leaves_fieldRows {index : Nat} {fields : Fields} (h : ∀ f ∈ fields, WrittenBack f.2)
    {tail : List Row} (htail : ∀ r ∈ tail.head?, r.indent < i) :
    Leaves (some i) (fieldRows style i index fields ++ tail) := by
  intro r hr
  cases fields with
  | nil => simpa using Nat.le_of_lt (htail r hr)
  | cons f fields =>
    obtain ⟨k, v⟩ := f
    obtain ⟨t, rest, ht⟩ := (h (k, v) (by simp)).head (style.into (.value index)) (i + 2)
    rw [fieldRows, ht, asEntry] at hr
    split_ifs at hr
    · obtain ⟨rfl⟩ : (⟨i, _⟩ : Row) = r := by simpa using hr
      simp
    · obtain ⟨rfl⟩ : (⟨i, _⟩ : Row) = r := by simpa using hr
      simp

/-- The entry on a line is read as the value that its rows were written for. -/
theorem WrittenBack.entry {v : Value} (h : WrittenBack v) {w k : Text} (hw : QuotedAs w k)
    {ls : List Line} {tail : List Row} (htail : Leaves (some i) tail)
    (hls : shown ls = asEntry i w (isInline v) (rows style (i + 2) v) ++ tail) :
    ∃ line others after left, active ls = line :: others ∧ line.indent = i ∧
      splitKey? line.text = some (k, after) ∧ shown left = tail ∧
      Reads (.entry (Text.trim after) line i) others v left := by
  unfold asEntry at hls
  split_ifs at hls with hinline
  · obtain ⟨t, ht, ⟨hclean, -, -, hreads⟩⟩ := h.inline hinline style (i + 2)
    rw [ht, List.map_singleton, List.singleton_append] at hls
    obtain ⟨line, others, hactive, -, hindent, htext, hothers⟩ := shown_eq_cons hls
    obtain ⟨left, hleft, hread⟩ := hreads line (some i) others
      (head?_active (p := fun j => (some i).all (· < j) = false) (hothers ▸ htail))
    have htrim : Text.trim (' ' :: t) = t :=
      (@Text.trim_append_left [' '] (by simp; decide) t).trans (Text.trim_of_tight hclean.tight)
    refine ⟨line, others, ' ' :: t, left, hactive, hindent, ?_, hleft.trans hothers, ?_⟩
    · rw [htext]
      exact hw.splitKey? rfl
    · rw [htrim]
      exact .entryInline hclean.not_trailing hread
  · rw [List.cons_append] at hls
    obtain ⟨line, others, hactive, -, hindent, htext, hothers⟩ := shown_eq_cons hls
    obtain ⟨left, hleft, hread⟩ := h.node style (by simp) htail hothers
    obtain ⟨t, rest, ht⟩ := h.head style (i + 2)
    rw [ht, List.cons_append] at hothers
    obtain ⟨next, below, hnext, -, hdeeper, -, -⟩ := shown_eq_cons hothers
    refine ⟨line, others, [], left, hactive, hindent, ?_, hleft, ?_⟩
    · rw [htext]
      exact hw.splitKey? rfl
    · exact .entryBelow rfl hnext (by rw [hdeeper]; exact Nat.lt_add_of_pos_right (by decide)) hread

theorem reads_fieldRows {index : Nat} {fields acc : Fields} (h : ∀ f ∈ fields, WrittenBack f.2)
    (hkeys : ∀ f ∈ fields, '\n' ∉ f.1)
    (hsorted : ((acc ++ fields).map Prod.fst).Pairwise (Text.precedes · ·))
    {ls : List Line} {tail : List Row} (htail : ∀ r ∈ tail.head?, r.indent < i)
    (hls : shown ls = fieldRows style i index fields ++ tail) :
    ∃ left, shown left = tail ∧ Reads (.mapping i acc) ls (.object (acc ++ fields)) left := by
  induction fields generalizing index acc ls with
  | nil =>
    rw [fieldRows, List.nil_append] at hls
    rw [List.append_nil]
    exact ⟨active ls, (shown_active ls).trans hls,
      .mappingEnd (head?_active (p := (· < i)) (hls ▸ htail))⟩
  | cons f fields ih =>
    obtain ⟨k, v⟩ := f
    have hrest : ∀ g ∈ fields, WrittenBack g.2 := fun g hg => h g (by simp [hg])
    -- Keys come in order: each is new, and its entry goes to the end of those read before.
    have hacc := Fields.precedes_of_sorted hsorted
    have hwritten := (style [.key index]).write_quoted (hkeys (k, v) (by simp))
    rw [fieldRows, List.append_assoc] at hls
    obtain ⟨line, others, after, mid, hactive, hindent, hkey, hmid, hread⟩ :=
      (h (k, v) (by simp)).entry hwritten (leaves_fieldRows hrest htail) hls
    obtain ⟨left, hleft, hmore⟩ := @ih (index + 1) (acc ++ [(k, v)]) hrest
      (fun g hg => hkeys g (by simp [hg])) (by simpa using hsorted) mid hmid
    rw [List.append_assoc, List.singleton_append] at hmore
    refine ⟨left, hleft, .mappingEntry hactive hindent hkey (Fields.has_eq_false hacc) hread ?_⟩
    rw [Fields.insert_last hacc]
    exact hmore

theorem clean_fieldRows {index : Nat} {fields : Fields} (h : ∀ f ∈ fields, WrittenBack f.2)
    (hkeys : ∀ f ∈ fields, '\n' ∉ f.1) : ∀ r ∈ fieldRows style i index fields, Clean r.text := by
  induction fields generalizing index with
  | nil => simp [fieldRows]
  | cons f fields ih =>
    obtain ⟨k, v⟩ := f
    have hwritten := (style [.key index]).write_quoted (hkeys (k, v) (by simp))
    have hclean := (h (k, v) (by simp)).clean (style.into (.value index)) (i + 2)
    have hkey : Clean ((style [.key index]).write k ++ [':']) :=
      hwritten.clean.append (by simp) (by simp; decide) (by decide)
    intro r hr
    rw [fieldRows, List.mem_append] at hr
    rcases hr with hr | hr
    · unfold asEntry at hr
      split_ifs at hr
      · obtain ⟨below, hbelow, rfl⟩ := List.mem_map.mp hr
        simpa using hkey.spaced (hclean below hbelow)
      · rcases List.mem_cons.mp hr with rfl | hr
        · exact hkey
        · exact hclean r hr
    · exact ih (fun g hg => h g (by simp [hg])) (fun g hg => hkeys g (by simp [hg])) r hr

end Entries

/-! ### Every value is written back -/

theorem rows_array {items : List Value} (h : ∀ v ∈ items, WrittenBack v) (hne : items ≠ [])
    (style : Style) (i : Nat) : rows style i (.array items) = itemRows style i 0 items ∧
      ∃ t rest, rows style i (.array items) = ⟨i, '-' :: ' ' :: t⟩ :: rest := by
  have hrows : rows style i (.array items) = itemRows style i 0 items := by simp [rows, hne]
  refine ⟨hrows, ?_⟩
  rw [hrows]
  obtain ⟨v, items, rfl⟩ := List.exists_cons_of_ne_nil hne
  obtain ⟨t, rest, ht⟩ := (h v (by simp)).head (style.into (.value 0)) (i + 2)
  rw [itemRows, ht]
  exact ⟨_, _, rfl⟩

theorem WrittenBack.array {items : List Value} (h : ∀ v ∈ items, WrittenBack v) (hne : items ≠ []) :
    WrittenBack (.array items) := by
  refine ⟨?_, ?_, ?_, ?_⟩
  · intro style i
    obtain ⟨t, rest, ht⟩ := (rows_array h hne style i).2
    exact ⟨_, rest, ht⟩
  · intro style i
    rw [(rows_array h hne style i).1]
    exact clean_itemRows h
  · simp [isInline, hne]
  · intro style i parent ls tail hparent htail hls
    obtain ⟨hrows, t, rest, ht⟩ := rows_array h hne style i
    obtain ⟨left, hleft, hread⟩ := reads_itemRows h (htail.lt hparent)
      ((shown_active ls).trans (hrows ▸ hls))
    rw [ht, List.cons_append] at hls
    obtain ⟨line, others, hactive, -, hindent, htext, -⟩ := shown_eq_cons hls
    have htask : blockTask? line = some (.sequence i) := by
      simp [blockTask?, htext, hindent, Line.isItemText]
    rw [hactive] at hread
    exact ⟨left, hleft, .block hactive htask hread⟩

theorem rows_object {fields : Fields} (h : ∀ f ∈ fields, WrittenBack f.2)
    (hkeys : ∀ f ∈ fields, '\n' ∉ f.1) (hne : fields ≠ []) (style : Style) (i : Nat) :
    rows style i (.object fields) = fieldRows style i 0 fields ∧
      ∃ w k after rest, rows style i (.object fields) = ⟨i, w ++ ':' :: after⟩ :: rest ∧
        QuotedAs w k ∧ (after.head?.map isGap).getD true = true := by
  have hrows : rows style i (.object fields) = fieldRows style i 0 fields := by simp [rows, hne]
  refine ⟨hrows, ?_⟩
  rw [hrows]
  obtain ⟨⟨k, v⟩, fields, rfl⟩ := List.exists_cons_of_ne_nil hne
  obtain ⟨t, rest, ht⟩ := (h (k, v) (by simp)).head (style.into (.value 0)) (i + 2)
  have hwritten := (style [.key 0]).write_quoted (hkeys (k, v) (by simp))
  rw [fieldRows, ht, asEntry]
  split_ifs
  · exact ⟨_, k, ' ' :: t, _, rfl, hwritten, rfl⟩
  · exact ⟨_, k, [], _, rfl, hwritten, rfl⟩

theorem WrittenBack.object {fields : Fields} (h : ∀ f ∈ fields, WrittenBack f.2)
    (hkeys : ∀ f ∈ fields, '\n' ∉ f.1) (hsorted : (fields.map Prod.fst).Pairwise (Text.precedes · ·))
    (hne : fields ≠ []) : WrittenBack (.object fields) := by
  refine ⟨?_, ?_, ?_, ?_⟩
  · intro style i
    obtain ⟨w, k, after, rest, ht, -⟩ := (rows_object h hkeys hne style i).2
    exact ⟨_, rest, ht⟩
  · intro style i
    rw [(rows_object h hkeys hne style i).1]
    exact clean_fieldRows h hkeys
  · simp [isInline, hne]
  · intro style i parent ls tail hparent htail hls
    obtain ⟨hrows, w, k, after, rest, ht, hw, hafter⟩ := rows_object h hkeys hne style i
    obtain ⟨left, hleft, hread⟩ := @reads_fieldRows style i 0 fields [] h hkeys (by simpa using hsorted)
      (active ls) tail (htail.lt hparent) ((shown_active ls).trans (hrows ▸ hls))
    rw [ht, List.cons_append] at hls
    obtain ⟨line, others, hactive, -, hindent, htext, -⟩ := shown_eq_cons hls
    have hindent : line.indent = i := hindent
    have htask : blockTask? line = some (.mapping i []) := by
      rw [← hindent]
      exact blockTask?_key (by rw [htext]; exact hw.splitKey? hafter)
    rw [hactive] at hread
    exact ⟨left, hleft, .block hactive htask hread⟩

/-- Strings and keys of one line. -/
def OneLine (s : Text) : Prop := '\n' ∉ s

theorem writtenBack {v : Value} (h : Canonical OneLine OneLine v) : WrittenBack v := by
  induction h with
  | plain h =>
    refine .of_inline fun style i => ⟨_, ?_, .plain h⟩
    cases h <;> rw [rows]
  | string h => exact .of_inline fun style i => ⟨_, by rw [rows], .quoted ((style []).write_quoted h)⟩
  | @array items h ih =>
    by_cases hne : items = []
    · subst hne
      exact .of_inline fun style i => ⟨_, by simp [rows], .empty (.inl ⟨rfl, rfl⟩)⟩
    · exact .array ih hne
  | @object fields sorted keys h ih =>
    by_cases hne : fields = []
    · subst hne
      exact .of_inline fun style i => ⟨_, by simp [rows], .empty (.inr ⟨rfl, rfl⟩)⟩
    · exact .object ih keys sorted hne

/-! ### Whole documents -/

theorem Clean.of_line {r : Row} (h : Clean r.text) (n : Nat) :
    (Line.of n r.line).isIdle = false ∧ (Line.of n r.line).indent = r.indent ∧
      (Line.of n r.line).text = r.text := by
  have hspaces : ∀ c ∈ List.replicate r.indent ' ', Text.isSpace c = true := by
    intro c hc
    rw [(List.mem_replicate.mp hc).2]
    rfl
  have htext : (Line.of n r.line).text = r.text :=
    (Text.trim_append_left hspaces r.text).trans (Text.trim_of_tight h.tight)
  have hindent : (Line.of n r.line).indent = r.indent :=
    (Lines.indent_append hspaces h.tight.head).trans List.length_replicate
  obtain ⟨c, t, hct, hc⟩ := h.start
  exact ⟨by simp [Line.isIdle, htext, hct, hc], hindent, htext⟩

theorem IsIdleLine.of_line {l : Text} (h : IsIdleLine l) (n : Nat) : (Line.of n l).isIdle = true := by
  rcases h.2 with hblank | ⟨t, ht⟩
  · simp [Line.isIdle, Line.of, Lines.isBlank_iff_trim.mp hblank]
  · have htrim : Text.trim l = Text.trim ('#' :: t) := by
      rw [← Lines.margin_append_trimStart l, Text.trim_append_left (Lines.margin_space l), ht]
    simp [Line.isIdle, Line.of, htrim, Text.head?_trim_cons (c := '#') rfl]

/-- A reader sees the rows and none of the lines between them. -/
theorem Spread.shown {rs : List Row} {ls : Lines} (h : Spread (rs.map Row.line) ls)
    (hclean : ∀ r ∈ rs, Clean r.text) (n : Nat) : Outline.shown (Line.numbered n ls) = rs := by
  generalize hlines : rs.map Row.line = lines at h
  induction h generalizing rs n with
  | nil =>
    obtain rfl := List.map_eq_nil_iff.mp hlines
    rfl
  | line l h ih =>
    obtain ⟨r, rs, rfl, rfl, hrs⟩ := List.map_eq_cons_iff.mp hlines
    obtain ⟨hidle, hindent, htext⟩ := (hclean r (by simp)).of_line n
    rw [Line.numbered, shown_cons hidle, hindent, htext,
      ih (fun r hr => hclean r (by simp [hr])) (n + 1) hrs]
  | idle hl h ih =>
    have hidle := hl.of_line n
    have := ih hclean (n + 1) hlines
    simpa [Outline.shown, Line.numbered, hidle] using this

theorem Spread.newline {ls spread : Lines} (h : Spread ls spread) (hls : ∀ l ∈ ls, '\n' ∉ l) :
    ∀ l ∈ spread, '\n' ∉ l := by
  induction h with
  | nil => simp
  | line l h ih => simpa using ⟨hls l (by simp), ih fun l hl => hls l (by simp [hl])⟩
  | idle hl h ih => simpa using ⟨hl.1, ih hls⟩

/-- No outline of a collection starts with the line that starts a document. -/
theorem first_row_ne {v : Value} (h : Canonical OneLine OneLine v) (hv : isInline v = false)
    (style : Style) : ∃ t rest, rows style 0 v = ⟨0, t⟩ :: rest ∧ t ≠ "---".toList := by
  cases h with
  | plain h => cases h <;> cases hv
  | string h => cases hv
  | @array items h =>
    have hne : items ≠ [] := by simpa [isInline] using hv
    obtain ⟨-, t, rest, ht⟩ := rows_array (fun w hw => writtenBack (h w hw)) hne style 0
    exact ⟨_, rest, ht, by simp⟩
  | @object fields sorted keys h =>
    have hne : fields ≠ [] := by simpa [isInline] using hv
    obtain ⟨-, w, k, after, rest, ht, hw, -⟩ :=
      rows_object (fun f hf => writtenBack (h f hf)) keys hne style 0
    refine ⟨_, rest, ht, ?_⟩
    obtain ⟨c, t, rfl, hc⟩ := hw.start
    intro he
    obtain rfl : c = '-' := (List.cons.inj he).1
    cases hc

/-- A written value is read back, whatever its quotes and whatever blank lines and comments stand
between its rows. -/
theorem read_rows {v : Value} (h : Canonical OneLine OneLine v) (hv : isInline v = false)
    (style : Style) {ls : Lines} (hls : Spread ((rows style 0 v).map Row.line) ls) (firstLine : Nat) :
    read (Lines.toText ls) firstLine = .ok v := by
  have hback := writtenBack h
  have hclean := hback.clean style 0
  have hshown := hls.shown hclean firstLine
  obtain ⟨t, rest, ht, hne⟩ := first_row_ne h hv style
  obtain ⟨line, others, hactive, -, -, htext, -⟩ := shown_eq_cons (hshown.trans ht)
  have hsplit : Text.split '\n' (Lines.toText ls) = ls := by
    refine Lines.split_toText ?_ (hls.newline ?_)
    · rintro rfl
      simp [Outline.shown, Line.numbered, ht] at hshown
    · intro l hl
      obtain ⟨r, hr, rfl⟩ := List.mem_map.mp hl
      simpa [Row.line] using (hclean r hr).newline
  have hbody : documentBody (Line.numbered firstLine ls) = active (Line.numbered firstLine ls) := by
    simp only [documentBody, hactive, htext, if_neg hne]
  have hleaves : Leaves none [] := by simp [Leaves]
  have hroot : (none : Option Nat).all (· < 0) = true := rfl
  obtain ⟨left, hleft, hread⟩ := hback.node style hroot hleaves
    ((shown_active _).trans (hshown.trans (List.append_nil _).symm))
  refine readLines_eq_ok_iff.mpr ⟨left, ?_, shown_eq_nil hleft⟩
  rw [hsplit, hbody]
  exact hread

/-- Keys in one kind of quotes and strings in the other at every second level. -/
def alternating : Style := fun way => if way.length % 2 = 0 then .double else .single

def outlinedValue : Value :=
  .object [("it's".toList, .array [.number (.int (-7)), .string "- \"a\": #".toList,
    .array [.bool true, .object []]]), ("k".toList, .object [([], .null)])]

theorem read_rows_outlinedValue :
    read (Lines.toText ["# heading".toList, "'it''s':".toList, "  - -7".toList, " # note".toList,
      "  - \"- \\\"a\\\": #\"".toList, [], "  - - true".toList, "    - \x7b\x7d".toList,
      "'k':".toList, "\t".toList, "  \"\": null".toList, "#".toList]) 1 = .ok outlinedValue := by
  have hitems : Canonical OneLine OneLine (.array [.number (.int (-7)), .string "- \"a\": #".toList,
      .array [.bool true, .object []]]) := by
    refine .array ?_
    simp only [List.forall_mem_cons]
    refine ⟨.plain (.int (by decide)), .string (by simp [OneLine]), .array ?_, by simp⟩
    simp only [List.forall_mem_cons]
    exact ⟨.plain (.bool true), .object .nil (by simp) (by simp), by simp⟩
  have hvalue : Canonical OneLine OneLine outlinedValue := by
    refine .object (by decide) (by simp [OneLine]) ?_
    simp only [List.forall_mem_cons]
    exact ⟨hitems, .object (by simp) (by simp [OneLine]) (by simpa using .plain .null), by simp⟩
  refine read_rows hvalue rfl alternating ?_ 1
  exact .idle ⟨by decide, .inr ⟨_, rfl⟩⟩ (.line _ (.line _ (.idle ⟨by decide, .inr ⟨_, rfl⟩⟩ (.line _
    (.idle ⟨by decide, .inl rfl⟩ (.line _ (.line _ (.line _ (.idle ⟨by decide, .inl rfl⟩ (.line _
      (.idle ⟨by decide, .inr ⟨_, rfl⟩⟩ .nil)))))))))))

end TemplateDocs.Outline
