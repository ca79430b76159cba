import Mathlib
import TemplateDocs.Proofs.Metadata.Decoding
import TemplateDocs.Proofs.Metadata.Quoting
import TemplateDocs.Proofs.Outline.Entries

/-!
# Parameter entries survive as they are written

An item of a parameter list is quoted, read as a quoted scalar and parsed as a parameter. Whatever
its text is, it comes out once: as the text of a parameter, or as the text of a rejected entry.
-/
namespace TemplateDocs.Metadata

open Outline (Line Reads document)
open Json (Value Fields)
open Text (trim)

/-! ### Lines of a parameter list -/

/-- The line is `content` after `column` blanks. -/
def LineAt (column : Nat) (content line : Text) : Prop :=
  ∃ ws : Text, (∀ c ∈ ws, Text.isSpace c = true ∧ c ≠ '\n') ∧ ws.length = column ∧ line = ws ++ content

/-- A text that can be an item: one line without blanks around it that is not quoted, no block scalar
and no comment. -/
structure ItemText (t : Text) : Prop where
  ne_nil : t ≠ []
  one_line : '\n' ∉ t
  tight : Text.Tight t
  start : ∀ c ∈ t.head?, c ∉ ['"', '\'', '|', '>', '#']

theorem itemText_iff {t : Text} :
    ItemText t ↔ t ≠ [] ∧ '\n' ∉ t ∧ trim t = t ∧ t.head?.all (fun c => !isProtected c) = true := by
  constructor
  · rintro ⟨hne, hone, htight, hstart⟩
    refine ⟨hne, hone, Text.trim_of_tight htight, ?_⟩
    cases t with
    | nil => rfl
    | cons c t => simpa [isProtected, and_assoc] using hstart c (by simp)
  · rintro ⟨hne, hone, htrim, hstart⟩
    refine ⟨hne, hone, Text.tight_of_trim htrim, ?_⟩
    intro c hc
    rw [Option.mem_def.mp hc] at hstart
    simpa [isProtected, and_assoc] using hstart

instance : DecidablePred ItemText := fun _ => decidable_of_iff _ itemText_iff.symm

theorem LineAt.trim_eq {column : Nat} {content line : Text} (h : LineAt column content line)
    (ht : Text.Tight content) : trim line = content := by
  obtain ⟨ws, hws, -, rfl⟩ := h
  rw [Text.trim_append_left fun c hc => (hws c hc).1, Text.trim_of_tight ht]

theorem LineAt.indent_eq {column : Nat} {content line : Text} (h : LineAt column content line)
    (ht : Text.Tight content) : Lines.indent line = column := by
  obtain ⟨ws, hws, rfl, rfl⟩ := h
  exact Lines.indent_append (fun c hc => (hws c hc).1) ht.head

theorem LineAt.one_line {column : Nat} {content line : Text} (h : LineAt column content line)
    (hc : '\n' ∉ content) : '\n' ∉ line := by
  obtain ⟨ws, hws, -, rfl⟩ := h
  intro hm
  rcases List.mem_append.mp hm with hm | hm
  · exact (hws _ hm).2 rfl
  · exact hc hm

theorem LineAt.margin_append {column : Nat} {content line : Text} (h : LineAt column content line)
    (ht : Text.Tight content) (other : Text) :
    LineAt column other (Lines.margin line ++ other) := by
  obtain ⟨ws, hws, rfl, rfl⟩ := h
  have hm : Lines.margin (ws ++ content) = ws := by
    have hi := Lines.indent_append (fun c hc => (hws c hc).1) ht.head
    rw [← Lines.take_indent, hi]
    exact List.take_left
  exact ⟨ws, hws, rfl, by rw [hm]⟩

theorem ItemText.item_tight {t : Text} (h : ItemText t) : Text.Tight ('-' :: ' ' :: t) := by
  refine ⟨?_, ?_⟩
  · intro c hc
    simp only [List.head?_cons, Option.mem_some_iff] at hc
    subst hc
    rfl
  · have hlast := h.tight.last
    rwa [show '-' :: ' ' :: t = ['-', ' '] ++ t from rfl, List.getLast?_append_of_ne_nil _ h.ne_nil]

/-- Quoting an item line of an open list puts the item's text in quotes. -/
theorem quoteLine_item {i j : Nat} {t line : Text} (hij : i ≤ j) (ht : ItemText t)
    (h : LineAt j ('-' :: ' ' :: t) line) :
    LineAt j (quotedItem t) (quoteLine (some i) line) ∧ openAfter (some i) line = some i := by
  have htrim := h.trim_eq ht.item_tight
  have hindent := h.indent_eq ht.item_tight
  have hitem : isItem (trim line) = true := by
    rw [htrim]
    simp [isItem, Text.startsWith, Text.after?]
  have hinside : isInside (some i) line = true := by
    rcases Nat.lt_or_eq_of_le hij with hlt | rfl
    · simp [isInside, hindent, hlt]
    · simp [isInside, hindent, hitem]
  have htext : itemText line = t := by
    have hdrop : ('-' :: ' ' :: t).drop 1 = [' '] ++ t := rfl
    rw [itemText, htrim, hdrop, Text.trim_append_left (by simp; decide), Text.trim_of_tight ht.tight]
  have hstart : ∀ c ∈ (itemText line).head?, isProtected c = false := by
    intro c hc
    rw [htext] at hc
    have := ht.start c hc
    simp_all [isProtected]
  refine ⟨?_, by simp [openAfter, hinside]⟩
  rw [quoteLine, hinside, hitem, Bool.and_self, if_pos rfl,
    quoteItem_of_itemText hstart (by rw [htext]; exact ht.ne_nil), htext]
  exact h.margin_append ht.item_tight _

theorem quoteItems_items {i j : Nat} (hij : i ≤ j) {ts : List Text} {lines : Lines}
    (hts : ∀ t ∈ ts, ItemText t)
    (h : List.Forall₂ (fun t line => LineAt j ('-' :: ' ' :: t) line) ts lines) :
    List.Forall₂ (fun t line => LineAt j (quotedItem t) line) ts (quoteItems (some i) lines) := by
  induction h with
  | nil => exact .nil
  | @cons t line ts lines hl _ ih =>
    obtain ⟨hq, hopen⟩ := quoteLine_item hij (hts t (by simp)) hl
    rw [quoteItems_cons, hopen]
    exact .cons hq (ih fun t ht => hts t (by simp [ht]))

/-! ### Reading the quoted list -/

/-- A line of the document, by its column and content. -/
structure Shows (column : Nat) (content : Text) (l : Line) : Prop where
  indent : l.indent = column
  text : l.text = content

theorem LineAt.shows {column n : Nat} {content line : Text} (h : LineAt column content line)
    (ht : Text.Tight content) : Shows column content (Line.of n line) :=
  ⟨h.indent_eq ht, h.trim_eq ht⟩

theorem numbered_shows {column : Nat} {ts : List Text} {lines : Lines}
    (h : List.Forall₂ (fun t line => LineAt column (quotedItem t) line) ts lines) (n : Nat) :
    List.Forall₂ (fun t l => Shows column (quotedItem t) l) ts (Line.numbered n lines) := by
  induction h generalizing n with
  | nil => exact .nil
  | @cons t line ts lines hl _ ih => exact .cons (hl.shows (quotedItem_tight t)) (ih (n + 1))

theorem Shows.not_idle {column : Nat} {c : Char} {t : Text} {l : Line} (h : Shows column (c :: t) l)
    (hc : c ≠ '#') : l.isIdle = false := by
  simp [Line.isIdle, h.text, hc]

theorem Shows.key_not_idle {column : Nat} {key : Text} {l : Line} (hkey : key ∈ parameterKeys)
    (h : Shows column (key ++ [':']) l) : l.isIdle = false := by
  simp only [parameterKeys, List.mem_cons, List.not_mem_nil, or_false] at hkey
  rcases hkey with rfl | rfl <;> exact h.not_idle (by decide)

theorem splitKey?_doubleQuoted (t : Text) : Outline.splitKey? (doubleQuoted t) = none := by
  have hq := quoted?_doubleQuoted t []
  rw [List.append_nil] at hq
  have hform : doubleQuoted t = '"' :: (escapeQuotes t ++ ['"']) := rfl
  rw [hform] at hq ⊢
  simp [Outline.splitKey?, Outline.Flow.isQuote, hq, Text.trimStart, Text.after?]

/-- A quoted item is read as its text. -/
theorem reads_item {j : Nat} {t : Text} {l : Line} (h : Shows j (quotedItem t) l) (rest : List Line) :
    Reads (.item l j) rest (.string t) rest := by
  have hcontent : Outline.itemContent l = doubleQuoted t := by
    rw [Outline.itemContent, h.text]
    exact @Text.trimStart_append [' '] (by simp; decide) (doubleQuoted t)
  have hidle : (Outline.itemLine l (Outline.itemContent l)).isIdle = false := by
    simp [Outline.itemLine, Line.isIdle, hcontent, doubleQuoted]
  refine .itemInline (by rw [hcontent]; rfl) (.inline (Outline.active_cons hidle rest) ?_ ?_)
  · have hitem : Line.isItemText (doubleQuoted t) = false := rfl
    simp [Outline.blockTask?, Outline.itemLine, hcontent, hitem, splitKey?_doubleQuoted]
  · have hq := quoted?_doubleQuoted t []
    have hread := Outline.readInline_quoted hq (unquoted_doubleQuoted t) rfl
      (Outline.itemLine l (Outline.itemContent l)) (some j) rest
    rw [List.append_nil] at hread
    rwa [show (Outline.itemLine l (Outline.itemContent l)).text = doubleQuoted t from hcontent]

theorem reads_items {j : Nat} {ts : List Text} {ls : List Line}
    (h : List.Forall₂ (fun t l => Shows j (quotedItem t) l) ts ls) :
    Reads (.sequence j) ls (.array (ts.map .string)) [] := by
  induction h with
  | nil => exact .sequenceEnd (by simp [Outline.active])
  | @cons t l ts ls hl _ ih =>
    have hitem : Line.isItemText l.text = true := by rw [hl.text]; rfl
    have hactive : Outline.active (l :: ls) = l :: ls :=
      Outline.active_cons (hl.not_idle (by decide)) ls
    exact .sequenceItem hactive hl.indent hitem (reads_item hl ls) ih

/-- The value of a key with the given items under it. -/
def itemsValue (ts : List Text) : Value := if ts = [] then .null else .array (ts.map .string)

theorem reads_list {i j : Nat} (hij : i ≤ j) {ts : List Text} {ls : List Line} (line : Line)
    (h : List.Forall₂ (fun t l => Shows j (quotedItem t) l) ts ls) :
    Reads (.entry [] line i) ls (itemsValue ts) [] := by
  have hr := reads_items h
  cases h with
  | nil => exact .entryNull rfl (by simp [Outline.active])
  | @cons t l ts ls hl hls =>
    have hitem : Line.isItemText l.text = true := by rw [hl.text]; rfl
    have hactive : Outline.active (l :: ls) = l :: ls :=
      Outline.active_cons (hl.not_idle (by decide)) ls
    have hvalue : itemsValue (t :: ts) = .array ((t :: ts).map .string) := by simp [itemsValue]
    rw [hvalue]
    rcases Nat.lt_or_eq_of_le hij with hlt | rfl
    · have htask : Outline.blockTask? l = some (.sequence j) := by
        simp [Outline.blockTask?, hitem, hl.indent]
      exact .entryBelow rfl hactive (by rw [hl.indent]; exact hlt) (.block hactive htask hr)
    · exact .entryList rfl hactive hl.indent hitem hr

/-- The fields of an annotation that is a name and a parameter list. -/
def listFields (key : Text) (ts : List Text) : Fields :=
  Fields.insert key (itemsValue ts) (Fields.insert "name".toList (.string "x".toList) [])

theorem reads_name {i : Nat} {key : Text} {l l' : Line} {ls : List Line} (hkey : key ∈ parameterKeys)
    (h' : Shows i (key ++ [':']) l') :
    Reads (.entry "x".toList l i) (l' :: ls) (.string "x".toList) (l' :: ls) := by
  refine .entryInline rfl ?_
  have hparts : Outline.deeperParts (some i) (l' :: ls) = ([], l' :: ls) := by
    rw [Outline.deeperParts, Shows.key_not_idle hkey h']
    simp [h'.indent]
  change Except.ok (Outline.readPlain "x".toList (some i) (l' :: ls)).parts = _
  rw [Outline.readPlain_parts, hparts]
  rfl

/-- The annotation is read as its name and its list. -/
theorem readLines_list {i j : Nat} (hij : i ≤ j) {key : Text} (hkey : key ∈ parameterKeys)
    {l l' : Line} {ts : List Text} {ls : List Line} (h : Shows i "name: x".toList l)
    (h' : Shows i (key ++ [':']) l') (hls : List.Forall₂ (fun t l => Shows j (quotedItem t) l) ts ls) :
    Outline.readLines (l :: l' :: ls) = .ok (.object (listFields key ts)) := by
  have hactive : Outline.active (l :: l' :: ls) = l :: l' :: ls :=
    Outline.active_cons (h.not_idle (by decide)) _
  have hactive' : Outline.active (l' :: ls) = l' :: ls :=
    Outline.active_cons (Shows.key_not_idle hkey h') _
  have hbody : Outline.documentBody (l :: l' :: ls) = l :: l' :: ls := by
    rw [Outline.documentBody, hactive]
    dsimp only
    rw [h.text, if_neg (by decide)]
  have hname : Outline.splitKey? l.text = some ("name".toList, " x".toList) := by
    rw [h.text]
    decide
  have hlist : Outline.splitKey? l'.text = some (key, []) := by
    rw [h'.text]
    exact splitKey?_parameterKey key hkey
  have htask : Outline.blockTask? l = some (.mapping i []) := by
    rw [Outline.blockTask?, hname, h.text, h.indent]
    rfl
  have hnew : Fields.has key (Fields.insert "name".toList (.string "x".toList) []) = false := by
    simp only [parameterKeys, List.mem_cons, List.not_mem_nil, or_false] at hkey
    rcases hkey with rfl | rfl <;> rfl
  refine Outline.readLines_eq_ok_iff.mpr ⟨Outline.active [], ?_, rfl⟩
  rw [hbody]
  refine .block hactive htask (.mappingEntry hactive h.indent hname rfl (reads_name hkey h') ?_)
  exact .mappingEntry hactive' h'.indent hlist hnew (reads_list hij l' hls)
    (.mappingEnd (by simp [Outline.active]))

/-! ### From the annotation to parameters -/

/-- A name, and under it one of the two keys with its items. -/
def ListNotes (key : Text) (ts : List Text) (notes : Lines) : Prop :=
  ∃ (i j : Nat) (nameLine keyLine : Text) (itemLines : Lines), i ≤ j ∧
    notes = nameLine :: keyLine :: itemLines ∧ LineAt i "name: x".toList nameLine ∧
    LineAt i (key ++ [':']) keyLine ∧
    List.Forall₂ (fun t line => LineAt j ('-' :: ' ' :: t) line) ts itemLines

theorem items_one_line {j : Nat} {ts : List Text} {lines : Lines} (hts : ∀ t ∈ ts, ItemText t)
    (h : List.Forall₂ (fun t line => LineAt j ('-' :: ' ' :: t) line) ts lines) :
    ∀ line ∈ lines, '\n' ∉ line := by
  induction h with
  | nil => simp
  | @cons t line ts lines hl _ ih =>
    intro line' hm
    rcases List.mem_cons.mp hm with rfl | hm
    · exact hl.one_line (by simp [(hts t (by simp)).one_line])
    · exact ih (fun t ht => hts t (by simp [ht])) line' hm

theorem keyLine_facts : ∀ key ∈ parameterKeys, trim (key ++ [':']) = key ++ [':'] ∧
    opensParameters (key ++ [':']) = true ∧ '\n' ∉ key ++ [':'] := by decide

theorem readLines_annotation {b : Block} {key : Text} {ts : List Text} (hkey : key ∈ parameterKeys)
    (hts : ∀ t ∈ ts, ItemText t) (hnotes : ListNotes key ts b.notes) :
    Outline.readLines b.noteLines = .ok (.object (listFields key ts)) := by
  obtain ⟨i, j, nameLine, keyLine, itemLines, hij, hlines, hname, hlist, hitems⟩ := hnotes
  have htightName : Text.Tight "name: x".toList := Text.tight_of_trim (by decide)
  obtain ⟨htrimKey, hopens, honeKey⟩ := keyLine_facts key hkey
  have htightKey := Text.tight_of_trim htrimKey
  have hone : ∀ l ∈ b.notes, '\n' ∉ l := by
    rw [hlines]
    intro l hl
    rcases List.mem_cons.mp hl with rfl | hl
    · exact hname.one_line (by decide)
    · rcases List.mem_cons.mp hl with rfl | hl
      · exact hlist.one_line honeKey
      · exact items_one_line hts hitems l hl
  have hquoted : quoteItems none b.notes = nameLine :: keyLine :: quoteItems (some i) itemLines := by
    have hclosed : openAfter none nameLine = none := by
      have hno : opensParameters "name: x".toList = false := by decide
      rw [openAfter, hname.trim_eq htightName, hno]
      rfl
    have hopened : openAfter none keyLine = some i := by
      rw [openAfter, hlist.trim_eq htightKey, hopens, hlist.indent_eq htightKey]
      rfl
    rw [hlines, quoteItems_cons, quoteItems_cons, hclosed, hopened]
    rfl
  unfold Block.noteLines Outline.document
  rw [split_escapeParameterLists, Lines.split_toText (by simp [hlines]) hone, hquoted]
  exact readLines_list hij hkey (hname.shows htightName) (hlist.shows htightKey)
    (numbered_shows (quoteItems_items hij hts hitems) _)

theorem get?_listFields (key k : Text) (ts : List Text) :
    Fields.get? k (listFields key ts) =
      if key = k then some (itemsValue ts)
      else if "name".toList = k then some (.string "x".toList) else none := by
  rw [listFields, Fields.get?_insert, Fields.get?_insert]
  rfl

/-- The items of a key are its parameters and rejected entries, in order. -/
theorem parameters?_items {key : String} {fields : Fields} {ts : List Text}
    (h : Fields.get? key.toList fields = some (itemsValue ts)) (hts : ∀ t ∈ ts, Text.Tight t) :
    ∃ found, parameters? key fields = .ok found ∧
      found.1.getD [] = ts.filterMap (fun t => (Parameter.parse t).toOption) ∧
      (found.1.getD []).map Parameter.written = ts.filter accepts ∧
      found.2.map (fun r => (r.key, r.rejection.text)) =
        (ts.filter fun t => !accepts t).map fun t => (key.toList, t) := by
  unfold parameters?
  rw [h]
  cases ts with
  | nil => exact ⟨(none, []), rfl, rfl, rfl, rfl⟩
  | cons t ts =>
    have hvalue : itemsValue (t :: ts) = .array ((t :: ts).map .string) := by simp [itemsValue]
    rw [hvalue]
    exact ⟨_, rfl, parametersOf_strings key.toList hts⟩

theorem parameters?_absent {key : String} {fields : Fields}
    (h : Fields.get? key.toList fields = none) : parameters? key fields = .ok (none, []) := by
  rw [parameters?, h]

/-- The parameters of a block under one of the two keys. -/
def listed (key : Text) (m : Metadata) : List Parameter :=
  (if key = "arguments".toList then m.arguments else m.attributes).getD []

/-- A block with parameters under one of the two keys has those parameters and no others. -/
theorem ofFields_listed {fields : Fields} {name : Text} {key : String}
    {found : Option (List Parameter) × List RejectedParameter}
    (hname : Fields.get? "name".toList fields = some (.string name))
    (habsent : ∀ k ∈ ["description", "example", "examples", "beforeEach", "afterEach", "locals"],
      Fields.get? k.toList fields = none)
    (hkey : key.toList ∈ parameterKeys) (hfound : parameters? key fields = .ok found)
    (hother : ∀ k : String, k.toList ∈ parameterKeys → k ≠ key →
      parameters? k fields = .ok (none, [])) :
    ∃ m, ofFields fields = .ok m ∧ listed key.toList m = found.1.getD [] ∧ m.rejected = found.2 ∧
      ∀ other ∈ parameterKeys, other ≠ key.toList → listed other m = [] := by
  simp only [parameterKeys, List.mem_cons, List.not_mem_nil, or_false, String.toList_inj] at hkey
  rcases hkey with rfl | rfl
  · obtain ⟨m, hm, harguments, hattributes, hall⟩ :=
      ofFields_lists hname habsent hfound (hother "attributes" (by decide) (by decide))
    refine ⟨m, hm, by rw [listed, if_pos rfl, harguments], by rw [hall, List.append_nil], ?_⟩
    intro other _ hne
    rw [listed, if_neg hne, hattributes]
    rfl
  · obtain ⟨m, hm, harguments, hattributes, hall⟩ :=
      ofFields_lists hname habsent (hother "arguments" (by decide) (by decide)) hfound
    refine ⟨m, hm, by rw [listed, if_neg (by decide), hattributes], by rw [hall, List.nil_append], ?_⟩
    intro other hmem hne
    simp only [parameterKeys, List.mem_cons, List.not_mem_nil, or_false] at hmem
    rw [listed, if_pos (hmem.resolve_right hne), harguments]
    rfl

/-- No item text makes a block fail, and every item comes out once and in order: as the text of a
parameter of its key if it is one, or else as the text of a rejected entry of its key. -/
theorem items_survive {b : Block} {key : Text} {ts : List Text} (hkey : key ∈ parameterKeys)
    (hts : ∀ t ∈ ts, ItemText t) (hnotes : ListNotes key ts b.notes) :
    ∃ m, ofBlock b = .ok m ∧
      listed key m = ts.filterMap (fun t => (Parameter.parse t).toOption) ∧
      (listed key m).map Parameter.written = ts.filter accepts ∧
      m.rejected.map (fun r => (r.key, r.rejection.text)) =
        ((ts.filter fun t => !accepts t).map fun t => (key, t)) ∧
      ∀ other ∈ parameterKeys, other ≠ key → listed other m = [] := by
  have hread := readLines_annotation hkey hts hnotes
  have hdistinct : ∀ key ∈ parameterKeys, key ≠ "name".toList ∧
      ∀ k ∈ ["description", "example", "examples", "beforeEach", "afterEach", "locals"],
        key ≠ k.toList ∧ "name".toList ≠ k.toList := by decide
  obtain ⟨k, rfl⟩ : ∃ k : String, k.toList = key := ⟨String.ofList key, String.toList_ofList⟩
  have hname : Fields.get? "name".toList (listFields k.toList ts) = some (.string "x".toList) := by
    rw [get?_listFields, if_neg (hdistinct _ hkey).1, if_pos rfl]
  have habsent : ∀ k' ∈ ["description", "example", "examples", "beforeEach", "afterEach", "locals"],
      Fields.get? k'.toList (listFields k.toList ts) = none := by
    intro k' hk'
    obtain ⟨h1, h2⟩ := (hdistinct _ hkey).2 k' hk'
    rw [get?_listFields, if_neg h1, if_neg h2]
  have hother : ∀ k' : String, k'.toList ∈ parameterKeys → k' ≠ k →
      parameters? k' (listFields k.toList ts) = .ok (none, []) := by
    intro k' hk' hne
    apply parameters?_absent
    rw [get?_listFields, if_neg (fun h => hne (String.toList_inj.mp h).symm),
      if_neg (hdistinct _ hk').1.symm]
  have hitems : Fields.get? k.toList (listFields k.toList ts) = some (itemsValue ts) := by
    rw [get?_listFields, if_pos rfl]
  obtain ⟨found, hfound, hlist, hwritten, hrejected⟩ :=
    parameters?_items hitems fun t ht => (hts t ht).tight
  obtain ⟨m, hm, hlisted, hall, hempty⟩ := ofFields_listed hname habsent hkey hfound hother
  refine ⟨m, ofBlock_of_readLines hread hm, ?_⟩
  rw [hlisted, hall]
  exact ⟨hlist, hwritten, hrejected, hempty⟩

/-- Items with a colon, a comment sign, quotes, backslashes, dashes and an open brace. -/
def awkwardItems : List Text :=
  ["\x7bstring\x7d a: \"b\" # c\\d", "- \x7boops: \\\"", "[size=1] - it's"].map String.toList

def awkwardBlock : Block where
  line := 1
  column := 0
  comment := ["//- @pugdoc", "  name: x", "  arguments:"].map String.toList ++
    awkwardItems.map fun t => ' ' :: ' ' :: '\t' :: '-' :: ' ' :: t
  code := []
  capture := .single

theorem items_survive_awkwardBlock :
    ∃ m, ofBlock awkwardBlock = .ok m ∧
      (listed "arguments".toList m).map Parameter.written =
        ["\x7bstring\x7d a: \"b\" # c\\d", "[size=1] - it's"].map String.toList ∧
      m.rejected.map (fun r => (r.key, r.rejection.text)) =
        [("arguments".toList, "- \x7boops: \\\"".toList)] ∧
      listed "attributes".toList m = [] := by
  have hnotes : ListNotes "arguments".toList awkwardItems awkwardBlock.notes := by
    have hblank : ∀ c ∈ [' ', ' '], Text.isSpace c = true ∧ c ≠ '\n' := by
      simp
      decide
    have hdeeper : ∀ c ∈ [' ', ' ', '\t'], Text.isSpace c = true ∧ c ≠ '\n' := by
      simp
      decide
    have hitems : List.Forall₂ (fun t line => LineAt 3 ('-' :: ' ' :: t) line) awkwardItems
        (awkwardItems.map fun t => ' ' :: ' ' :: '\t' :: '-' :: ' ' :: t) := by
      rw [List.forall₂_map_right_iff]
      exact List.forall₂_same.mpr fun t _ => ⟨[' ', ' ', '\t'], hdeeper, rfl, rfl⟩
    exact ⟨2, 3, "  name: x".toList, "  arguments:".toList, _, by decide, rfl,
      ⟨[' ', ' '], hblank, rfl, by decide⟩, ⟨[' ', ' '], hblank, rfl, by decide⟩, hitems⟩
  obtain ⟨m, hm, -, hwritten, hrejected, hother⟩ :=
    items_survive (by decide) (by decide) hnotes
  refine ⟨m, hm, hwritten.trans ?_, hrejected.trans ?_, hother _ (by decide) (by decide)⟩
  · decide +kernel
  · decide +kernel

end TemplateDocs.Metadata
