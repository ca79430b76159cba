import Mathlib
import TemplateDocs.Proofs.Findings
import TemplateDocs.Proofs.Metadata.Decoding
import TemplateDocs.Proofs.Metadata.Quoting
import TemplateDocs.Proofs.Outline.CompactJson
import TemplateDocs.Proofs.Outline.Literals

/-!
# From an annotated template to what is rendered

An annotation that states a name and an example goes through four stages: its block is extracted, its
parameter lists are quoted, it is read, and the example is merged with the code. None of them touches
the lines of the example or of the code, whatever these look like.
-/
namespace TemplateDocs

open Text (isSpace trim)
open Lines (isBlank indent)

/-! ### The template -/

/-- No line break within a line. -/
def Lines.Flat (ls : Lines) : Prop := ∀ l ∈ ls, '\n' ∉ l ∧ '\r' ∉ l

/-- One code block at column zero. -/
structure IsCode (code : Lines) : Prop where
  head : ∃ first rest, code = first :: rest ∧ isBlank first = false ∧ indent first = 0 ∧
    ∀ l ∈ rest, isBlank l = true ∨ 0 < indent l
  last : ∃ l, code.getLast? = some l ∧ isBlank l = false
  visible : ∀ l ∈ code, '\u2028' ∉ l ∧ '\u200b' ∉ l
  flat : Lines.Flat code

/-- Lines of an example that do not look like the start of a parameter list. -/
structure IsSample (sample : Lines) : Prop where
  flush : ∀ l, sample.find? (fun l => !isBlank l) = some l → indent l = 0
  last : ∃ l, sample.getLast? = some l ∧ isBlank l = false
  closed : ∀ l ∈ sample, trim l ≠ "arguments:".toList ∧ trim l ≠ "attributes:".toList
  flat : Lines.Flat sample

/-- What may stand after the code: nothing, or a line of content at column zero and anything below. -/
inductive Follows : Text → Prop
  | nothing : Follows []
  | line {c : Char} (hc : isSpace c = false) (rest : Text) : Follows ('\n' :: c :: rest)

def nameLine (name : Text) : Text := "  name: \"".toList ++ name ++ ['"']

def sampleLine (line : Text) : Text := "    ".toList ++ line

/-- An annotation with a name and a literal example. -/
def annotationLines (name : Text) (sample : Lines) : Lines :=
  nameLine name :: "  example: |-".toList :: sample.map sampleLine

/-- The template that an author writes for a name, an example and code. -/
def authoredLines (name : Text) (sample code : Lines) : Lines :=
  "//- @pugdoc".toList :: (annotationLines name sample ++ code)

/-- A sample with code in place of its placeholder lines, indented as they are. -/
def filled (code sample : Lines) : Lines :=
  sample.flatMap fun line =>
    if trim line = placeholder then
      code.map fun l => if l = [] then [] else Lines.margin line ++ l
    else [line]

/-! ### The lines of the source -/

namespace Lines

/-- The lines of a text that is written with any line ends after some lines. -/
theorem ofText_follows {l : Text} {ls : Lines} (hl : l ≠ []) (hflat : Flat (l :: ls))
    {after : Text} (h : Follows after) : ∃ tail, ofText (unifyEnds (toText (l :: ls) ++ after)) = l :: ls ++ tail ∧
      ∀ m ∈ tail.head?, isBlank m = false ∧ indent m = 0 := by
  have hreturn : '\r' ∉ toText (l :: ls) := by
    intro hm
    rcases mem_toText hm with h | ⟨m, hm, h⟩
    · cases h
    · exact (hflat m hm).2 h
  have hfeed : ∀ m ∈ l :: ls, '\n' ∉ m := fun m hm => (hflat m hm).1
  have hsplit : ∀ t, ofText (toText (l :: ls) ++ t) = Text.split '\n' (toText (l :: ls) ++ t) := by
    intro t
    obtain ⟨c, l, rfl⟩ := List.exists_cons_of_ne_nil hl
    cases ls <;> simp [ofText, toText, Text.join]
  rw [unifyEnds_append hreturn, hsplit]
  cases h with
  | nothing => exact ⟨[], by simpa [unifyEnds] using split_toText (by simp) hfeed, by simp⟩
  | @line c hc rest =>
    have hunified : ∃ t, unifyEnds ('\n' :: c :: rest) = '\n' :: c :: t := by
      have hreturn : '\r' ∉ ['\n', c] := by
        have : c ≠ '\r' := (Text.ne_of_isSpace hc rfl).symm
        simp [this.symm]
      exact ⟨unifyEnds rest, unifyEnds_append hreturn rest⟩
    obtain ⟨t, ht⟩ := hunified
    rw [ht, split_toText_append (by simp) hfeed]
    refine ⟨_, rfl, ?_⟩
    have hfeed : c ≠ '\n' := (Text.ne_of_isSpace hc rfl).symm
    intro m hm
    obtain ⟨m', rfl⟩ : ∃ m', m = c :: m' := by
      rw [Text.split, if_neg hfeed] at hm
      cases hs : Text.split '\n' t <;> simp [hs] at hm <;> exact ⟨_, hm.symm⟩
    simp [isBlank, indent, hc]

end Lines

/-! ### Extraction -/

theorem isSpace_four : ∀ c ∈ "    ".toList, isSpace c = true := List.all_eq_true.mp (by decide)

theorem IsSample.ne_nil {sample : Lines} (h : IsSample sample) : sample ≠ [] := by
  obtain ⟨l, hl, -⟩ := h.last
  rintro rfl
  cases hl

theorem last_annotationLines {sample : Lines} (h : IsSample sample) (name : Text) :
    ∃ l, (annotationLines name sample).getLast? = some l ∧ isBlank l = false := by
  obtain ⟨l, hl, hblank⟩ := h.last
  refine ⟨sampleLine l, ?_, (Lines.isBlank_append isSpace_four).trans hblank⟩
  have hne : sample.map sampleLine ≠ [] := by simpa using h.ne_nil
  have hfront : annotationLines name sample =
      [nameLine name, "  example: |-".toList] ++ sample.map sampleLine := rfl
  rw [hfront, List.getLast?_append_of_ne_nil _ hne, List.getLast?_map, hl]
  rfl

theorem nameLine_eq (name : Text) :
    nameLine name = ' ' :: ' ' :: 'n' :: ("ame: \"".toList ++ name ++ ['"']) := rfl

theorem trim_nameLine (name : Text) : trim (nameLine name) = "name: \"".toList ++ name ++ ['"'] := by
  have htight : Text.Tight ('n' :: ("ame: \"".toList ++ name ++ ['"'])) := by
    refine ⟨?_, ?_⟩
    · intro c hc
      cases hc
      rfl
    · intro c hc
      rw [← List.cons_append, List.getLast?_concat] at hc
      cases hc
      rfl
  rw [nameLine_eq]
  exact (@Text.trim_append_left [' ', ' '] (by simp; decide) _).trans (Text.trim_of_tight htight)

theorem not_mem_nameLine {name : Text} {c : Char} (hc : c ∉ "  name: \"".toList) (h : c ∉ name) :
    c ∉ nameLine name := by
  intro hm
  rcases List.mem_append.mp hm with hm | hm
  · rcases List.mem_append.mp hm with hm | hm
    · exact hc hm
    · exact h hm
  · rw [List.mem_singleton.mp hm] at hc
    exact hc (by decide)

theorem indent_nameLine (name : Text) : isBlank (nameLine name) = false ∧ indent (nameLine name) = 2 :=
  ⟨rfl, rfl⟩

/-- The lines of the annotation are deeper than its marker. -/
theorem deeper_annotationLines (name : Text) (sample : Lines) :
    ∀ l ∈ annotationLines name sample, isBlank l = true ∨ 0 < indent l := by
  intro l hl
  right
  simp only [annotationLines, List.mem_cons, List.mem_map] at hl
  rcases hl with rfl | rfl | ⟨m, -, rfl⟩
  · exact Nat.zero_lt_two
  · exact Nat.zero_lt_two
  · rw [sampleLine, Lines.indent_append_of_space isSpace_four]
    exact Nat.lt_add_right _ (by decide)

namespace Block

theorem announcedCapture_annotationLines (name : Text) (sample : Lines) :
    announcedCapture (annotationLines name sample) = .single := by
  -- The name stands at column two, so no line of the example is at the annotation's own column.
  have hbase : baseIndent (annotationLines name sample) ≤ 2 := by
    unfold baseIndent
    cases hmin : (((annotationLines name sample).filter fun l => !isBlank l).map indent).min? with
    | none => simp
    | some base =>
      exact (List.min?_eq_some_iff.mp hmin).2 2
        (List.mem_map.mpr ⟨nameLine name, by simp [annotationLines, indent_nameLine], rfl⟩)
  have hnone : ((annotationLines name sample).filter fun l => !isBlank l &&
      indent l = baseIndent (annotationLines name sample)).findSome? captureOf? = none := by
    rw [List.findSome?_eq_none_iff]
    intro l hl
    obtain ⟨hmem, htop⟩ := List.mem_filter.mp hl
    simp only [annotationLines, List.mem_cons, List.mem_map] at hmem
    rcases hmem with rfl | rfl | ⟨m, -, rfl⟩
    · rw [captureOf?, trim_nameLine]
      rfl
    · rfl
    · simp only [Bool.and_eq_true, decide_eq_true_eq, sampleLine,
        Lines.indent_append_of_space isSpace_four] at htop
      have : "    ".toList.length = 4 := rfl
      omega
  unfold announcedCapture
  dsimp only
  rw [hnone]
  rfl

def authored (name : Text) (sample code : Lines) : Block where
  line := 1
  column := 0
  comment := "//- @pugdoc".toList :: annotationLines name sample
  code := code
  capture := .single

theorem codeBlocks_single {code tail : Lines} (h : IsCode code)
    (htail : ∀ l ∈ tail.head?, isBlank l = false ∧ indent l = 0) :
    codeBlocks 0 (some 1) (code ++ tail) = code := by
  obtain ⟨first, rest, rfl, -, -, hrest⟩ := h.head
  obtain ⟨hscope, -⟩ := Lines.scope_append hrest fun l hl => ⟨(htail l hl).1, (htail l hl).2.le⟩
  have hdone : ∀ ls, codeBlocks 0 (some 0) ls = [] := by
    intro ls
    cases ls <;> simp [codeBlocks]
  rw [List.cons_append, codeBlocks, if_neg (by simp), hscope]
  simp [hdone]

theorem ofMarker?_authored {name : Text} {sample code tail : Lines} (hs : IsSample sample)
    (hc : IsCode code) (htail : ∀ l ∈ tail.head?, isBlank l = false ∧ indent l = 0) :
    ofMarker? (markerText defaultKeyword) 1 "//- @pugdoc".toList
      (annotationLines name sample ++ (code ++ tail)) = some (authored name sample code) := by
  obtain ⟨first, rest, hcode, hblank, hindent, -⟩ := hc.head
  have hhead : ∀ l ∈ (code ++ tail).head?, isBlank l = false ∧ indent l ≤ 0 := by
    simp [hcode, hblank, hindent]
  obtain ⟨hscope, hafter⟩ := Lines.scope_append (deeper_annotationLines name sample) hhead
  obtain ⟨l, hl, hlast⟩ := last_annotationLines hs name
  have hcomment : Lines.dropBlankEnd ("//- @pugdoc".toList :: annotationLines name sample) =
      "//- @pugdoc".toList :: annotationLines name sample :=
    Lines.dropBlankEnd_of_last (by rw [List.getLast?_cons, hl]; rfl) hlast
  obtain ⟨l', hl', hlast'⟩ := hc.last
  have hvisible : (code.map fun l => l.filter fun c => !isInvisible c) = code := by
    refine (List.map_congr_left fun l hl => ?_).trans (List.map_id code)
    refine List.filter_eq_self.mpr fun c hcl => ?_
    obtain ⟨hseparator, hspace⟩ := hc.visible l hl
    have hne : c ≠ '\u2028' ∧ c ≠ '\u200b' :=
      ⟨fun h => hseparator (h ▸ hcl), fun h => hspace (h ▸ hcl)⟩
    simp [isInvisible, hne]
  have hcolumn : indent "//- @pugdoc".toList = 0 := rfl
  simp only [ofMarker?, hcolumn, hscope, hafter, hcomment, List.drop_succ_cons, List.drop_zero,
    announcedCapture_annotationLines, Capture.bound?, codeBlocks_single hc htail,
    reduceCtorEq, ↓reduceIte,
    Lines.dropBlankEnd_of_last hl' hlast', Lines.dedent_zero, hvisible]
  simp [authored, annotationLines]

theorem flat_authored {name : Text} (hname : '\n' ∉ name ∧ '\r' ∉ name) {sample code : Lines}
    (hs : Lines.Flat sample) (hc : Lines.Flat code) : Lines.Flat (authoredLines name sample code) := by
  intro l hl
  simp only [authoredLines, annotationLines, List.mem_cons, List.mem_append, List.mem_map] at hl
  rcases hl with rfl | (rfl | rfl | ⟨m, hm, rfl⟩) | hl
  · decide
  · exact ⟨not_mem_nameLine (by decide) hname.1, not_mem_nameLine (by decide) hname.2⟩
  · decide
  · simpa [sampleLine] using hs m hm
  · exact hc l hl

theorem templateBlocks_authored {name : Text} (hname : '\n' ∉ name ∧ '\r' ∉ name)
    {sample code : Lines} (hs : IsSample sample) (hc : IsCode code) {after : Text} (h : Follows after) :
    ∃ others, templateBlocks defaultKeyword
      (Lines.toText (authoredLines name sample code) ++ after) =
        authored name sample code :: others := by
  obtain ⟨tail, hlines, htail⟩ :=
    Lines.ofText_follows (by simp) (flat_authored hname hs.flat hc.flat) h
  have hmarker : isMarker (markerText defaultKeyword) "//- @pugdoc".toList = true := by decide
  unfold templateBlocks authoredLines
  rw [hlines, extract, List.cons_append, extractFrom, if_pos hmarker, List.append_assoc,
    ofMarker?_authored hs hc htail]
  exact ⟨_, rfl⟩

end Block

/-! ### Reading -/

namespace Metadata

open Outline (Line Reads)

theorem quoteItems_none {ls : Lines} (h : ∀ l ∈ ls, opensParameters (trim l) = false) :
    quoteItems none ls = ls := by
  induction ls with
  | nil => rfl
  | cons l ls ih =>
    have hline : quoteLine none l = l := by simp [quoteLine, isInside]
    have hopen : openAfter none l = none := by simp [openAfter, isInside, h l (by simp)]
    rw [quoteItems_cons, hline, hopen, ih fun l hl => h l (by simp [hl])]

theorem opensParameters_eq_false {l : Text} (h : trim l ≠ "arguments:".toList)
    (h' : trim l ≠ "attributes:".toList) : opensParameters (trim l) = false := by
  refine Bool.eq_false_iff.mpr fun ho => ?_
  obtain ⟨key, hkey, hopens⟩ := List.any_eq_true.mp ho
  cases hafter : Text.after? (key ++ [':']) (trim l) with
  | none => simp [hafter] at hopens
  | some rest =>
    simp only [hafter] at hopens
    rw [Text.after?_eq_some_iff] at hafter
    -- Nothing but blanks may follow the colon, and a trimmed line ends in none.
    have hnil := Text.eq_nil_of_tight_append (hafter ▸ Text.trim_tight l) (List.all_eq_true.mp hopens)
    rw [hnil, List.append_nil] at hafter
    simp only [parameterKeys, List.mem_cons, List.not_mem_nil, or_false] at hkey
    rcases hkey with rfl | rfl
    · exact h hafter
    · exact h' hafter

theorem quoteItems_annotationLines {sample : Lines} (h : IsSample sample) (name : Text) :
    quoteItems none (annotationLines name sample) = annotationLines name sample := by
  refine quoteItems_none fun l hl => ?_
  simp only [annotationLines, List.mem_cons, List.mem_map] at hl
  rcases hl with rfl | rfl | ⟨m, hm, rfl⟩
  · rw [trim_nameLine]
    rfl
  · rfl
  · rw [sampleLine, Text.trim_append_left isSpace_four]
    exact opensParameters_eq_false (h.closed m hm).1 (h.closed m hm).2

/-- The lines of the example as the reader has them. -/
def sampleLines (n : Nat) (sample : Lines) : List Line := Line.numbered n (sample.map sampleLine)

/-- A literal block gives the lines back that were indented. -/
theorem readInline_sample {sample : Lines} (h : IsSample sample) (n : Nat) (line : Line) :
    (Outline.readInline "|-".toList line (some 2) (sampleLines n sample)).map Outline.Read.parts =
      .ok (.string (Lines.toText sample), []) := by
  have hnone : ∀ l ∈ ([] : List Line).head?, Outline.inBlock 4 l = false := by simp
  have hread := Outline.readInline_literal ⟨h.flush, h.last⟩ (by decide : 2 < 4) false n line hnone
  rw [List.append_nil, Outline.literalText, if_neg (by decide), List.append_nil] at hread
  exact hread

/-- What the annotation says. -/
def authoredFields (name : Text) (sample : Lines) : Json.Fields :=
  [("example".toList, .string (Lines.toText sample)), ("name".toList, .string name)]

theorem noteLines_authored {name : Text} (hname : '\n' ∉ name ∧ '\r' ∉ name) {sample : Lines}
    (hs : IsSample sample) (code : Lines) : (Block.authored name sample code).noteLines =
      Line.of 2 (nameLine name) :: Line.of 3 "  example: |-".toList :: sampleLines 4 sample := by
  have hlines : ∀ l ∈ annotationLines name sample, '\n' ∉ l := by
    intro l hl
    have hflat := Block.flat_authored hname hs.flat (by simp [Lines.Flat] : Lines.Flat [])
    exact (hflat l (by simp [authoredLines, hl])).1
  have hnotes : (Block.authored name sample code).notes = annotationLines name sample := rfl
  unfold Block.noteLines Outline.document
  rw [hnotes, split_escapeParameterLists, Lines.split_toText (by simp [annotationLines]) hlines,
    quoteItems_annotationLines hs]
  rfl

/-- Letters and digits need no escapes, so the name stands in its quotes as it is. -/
theorem trim_nameLine_quoted {name : Text} (hname : ∀ c ∈ name, Text.isWordChar c = true) :
    trim (nameLine name) = "name".toList ++ ':' :: ' ' :: doubleQuoted name := by
  have hplain : ∀ c ∈ name, c ≠ '\\' ∧ c ≠ '"' := fun c hc =>
    ⟨Text.isWordChar_ne (hname c hc) rfl, Text.isWordChar_ne (hname c hc) rfl⟩
  rw [trim_nameLine, doubleQuoted, escapeQuotes_of_plain hplain]
  rfl

theorem reads_doubleQuoted (t : Text) (line : Line) (i : Nat) (ls : List Line) :
    Reads (.entry (trim (' ' :: doubleQuoted t)) line i) ls (.string t) ls := by
  have hvalue : trim (' ' :: doubleQuoted t) = doubleQuoted t :=
    (@Text.trim_append_left [' '] (by simp; decide) _).trans (Text.trim_of_tight (doubleQuoted_tight t))
  have hread := Outline.readInline_quoted (quoted?_doubleQuoted t []) (unquoted_doubleQuoted t) rfl line
    (some i) ls
  rw [List.append_nil] at hread
  rw [hvalue]
  exact .entryInline rfl hread

theorem readLines_authored {name : Text} (hname : ∀ c ∈ name, Text.isWordChar c = true)
    {sample : Lines} (hs : IsSample sample) (code : Lines) :
    Outline.readLines (Block.authored name sample code).noteLines =
      .ok (.object (authoredFields name sample)) := by
  have hplain : ∀ {c}, Text.isWordChar c = false → c ∉ name := fun hc hm =>
    Text.isWordChar_ne (hname _ hm) hc rfl
  rw [noteLines_authored ⟨hplain rfl, hplain rfl⟩ hs]
  have htext : (Line.of 2 (nameLine name)).text = "name".toList ++ ':' :: ' ' :: doubleQuoted name :=
    trim_nameLine_quoted hname
  have hkey : Outline.splitKey? (Line.of 2 (nameLine name)).text =
      some ("name".toList, ' ' :: doubleQuoted name) := by
    rw [htext]
    exact Outline.Identifier.splitKey? ⟨by decide, by simp; decide⟩ rfl
  have hactive : ∀ ls, Outline.active (Line.of 2 (nameLine name) :: ls) = Line.of 2 (nameLine name) :: ls :=
    Outline.active_cons (by rw [Line.isIdle, htext]; rfl)
  have hactive' : ∀ ls, Outline.active (Line.of 3 "  example: |-".toList :: ls) =
      Line.of 3 "  example: |-".toList :: ls := Outline.active_cons rfl
  have hbody : ∀ ls, Outline.documentBody (Line.of 2 (nameLine name) :: ls) =
      Line.of 2 (nameLine name) :: ls := by
    intro ls
    rw [Outline.documentBody, hactive]
    dsimp only
    rw [htext, if_neg (by simp)]
  refine Outline.readLines_eq_ok_iff.mpr ⟨[], ?_, rfl⟩
  rw [hbody]
  refine .block (hactive _) (Outline.blockTask?_key hkey)
    (.mappingEntry (hactive _) rfl hkey rfl (reads_doubleQuoted name _ 2 _) ?_)
  exact .mappingEntry (hactive' _) rfl rfl rfl (.entryInline rfl (readInline_sample hs 4 _))
    (.mappingEnd (by simp [Outline.active]))

theorem entryOf_string {key : String} {fields : Json.Fields} {s : Text}
    (h : Json.Fields.get? key.toList fields = some (.string s)) :
    entryOf key fields = .ok (.one (.source s)) := by
  rw [entryOf_of_get? h, fieldOf]

theorem ofFields_authored (name : Text) (sample : Lines) :
    ofFields (authoredFields name sample) = .ok
      { settings := { name := some name }
        example_ := .one (.source (Lines.toText sample)) } := by
  have hexample := @entryOf_string "example" (authoredFields name sample) _ rfl
  have hexamples := @entryOf_absent "examples" (authoredFields name sample) rfl
  unfold ofFields
  rw [hexample, hexamples]
  rfl

end Metadata

/-! ### Assembly -/

theorem feedLines_toText {ls : Lines} (hflat : Lines.Flat ls)
    (hlast : ∃ l, ls.getLast? = some l ∧ isBlank l = false) : Text.feedLines (Lines.toText ls) = ls := by
  obtain ⟨l, hl, hblank⟩ := hlast
  have hne : ls ≠ [] := by
    rintro rfl
    cases hl
  have hended : (ls.dropLast.map fun line =>
      if line.getLast? = some '\r' then line.dropLast else line) = ls.dropLast := by
    refine (List.map_congr_left fun m hm => ?_).trans (List.map_id _)
    refine if_neg fun hr => ?_
    exact (hflat m (List.mem_of_mem_dropLast hm)).2 (List.mem_of_getLast? hr)
  have hdrop : ls.dropLast ++ [l] = ls := List.dropLast_append_getLast? l hl
  simp only [Text.feedLines, Lines.split_toText hne fun m hm => (hflat m hm).1, hended, hl]
  cases l with
  | nil => cases hblank
  | cons c l => exact hdrop

theorem declaresMixin_toText {code : Lines} (h : IsCode code) :
    declaresMixin (Lines.toText code) = code.head?.any fun l => (Mixin.declaredName? l).isSome := by
  rw [declaresMixin, feedLines_toText h.flat h.last]
  obtain ⟨first, rest, rfl, hblank, -⟩ := h.head
  simp [hblank]

/-- Code that declares no mixin stands only where the sample asks for it. -/
theorem mergeSource_toText {code sample : Lines} (hc : IsCode code) (hs : IsSample sample) :
    mergeSource (Lines.toText code) (Lines.toText sample) =
      if (code.head?.any fun l => (Mixin.declaredName? l).isSome) = true then
        Lines.toText code ++ '\n' :: Lines.toText sample
      else Lines.toText (filled code sample) := by
  have hcode : Text.split '\n' (Lines.toText code) = code := by
    obtain ⟨first, rest, rfl, -⟩ := hc.head
    exact Lines.split_toText (by simp) fun l hl => (hc.flat l hl).1
  have hsample : Text.split '\n' (Lines.toText sample) = sample :=
    Lines.split_toText hs.ne_nil fun l hl => (hs.flat l hl).1
  have hinsert : ∀ line, insertAt line (Lines.toText code) =
      code.map fun l => if l = [] then [] else Lines.margin line ++ l := by
    intro line
    simp [insertAt, hcode, Lines.margin]
  simp only [mergeSource, declaresMixin_toText hc, hsample, hinsert, filled]

theorem filled_of_no_placeholder {code sample : Lines} (h : ∀ l ∈ sample, trim l ≠ placeholder) :
    filled code sample = sample := by
  induction sample with
  | nil => rfl
  | cons l sample ih =>
    have ih := ih fun m hm => h m (by simp [hm])
    simp only [filled, List.flatMap_cons, if_neg (h l (by simp))] at ih ⊢
    rw [ih, List.singleton_append]

theorem isBlank_toText {ls : Lines} {l : Text} (h : l ∈ ls) (hl : isBlank l = false) :
    isBlank (Lines.toText ls) = false := by
  rw [isBlank, List.all_eq_false] at hl ⊢
  obtain ⟨c, hc, hspace⟩ := hl
  exact ⟨c, Lines.subset_toText h hc, hspace⟩

/-- One example without hooks around it is one variant. -/
theorem ofMetadata_source {s : Text} (hs : isBlank s = false) (name code : Text) :
    Assembly.ofMetadata { settings := { name := some name }, example_ := .one (.source s) } code =
      { variants := [⟨name ++ " example ".toList ++ Text.ofNat 1, mergeSource code s, [], none⟩] } := by
  have hwrap : Hooks.wrap ⟨none, none⟩ s = s := by
    simp [Hooks.wrap, hs, Lines.toText, Text.join]
  simp [Assembly.ofMetadata, Assembly.entries, ExampleField.toList, Assembly.add, Assembly.addSource, hs,
    Assembly.orCode, Settings.hooks, hwrap, Metadata.name, Metadata.isSuppressed,
    ExampleField.isSuppressed]

/-- What an author writes is what is rendered: the first block of the template has the name and one
variant, which is the example after the mixin that the code declares, or else the example with the
code in place of its placeholder lines. -/
theorem variants_authored {name : Text} (hname : ∀ c ∈ name, Text.isWordChar c = true)
    {sample code : Lines} (hs : IsSample sample) (hc : IsCode code) {after : Text} (h : Follows after) :
    ∃ b others m v,
      templateBlocks defaultKeyword (Lines.toText (authoredLines name sample code) ++ after) = b :: others ∧
      Metadata.ofBlock b = .ok m ∧ m.name = some name ∧
      (Assembly.ofMetadata m b.codeText).variants = [v] ∧
      (Assembly.ofMetadata m b.codeText).fragments = [] ∧ v.fragment = none ∧
      if (code.head?.any fun l => (Mixin.declaredName? l).isSome) = true then
        v.source = Lines.toText code ++ '\n' :: Lines.toText sample
      else v.source = Lines.toText (filled code sample) ∧
        ((∀ l ∈ sample, trim l ≠ placeholder) → v.source = Lines.toText sample) := by
  have hplain : ∀ {c}, Text.isWordChar c = false → c ∉ name := fun hc hm =>
    Text.isWordChar_ne (hname _ hm) hc rfl
  obtain ⟨others, hblocks⟩ := Block.templateBlocks_authored ⟨hplain rfl, hplain rfl⟩ hs hc h
  have hmetadata := Metadata.ofBlock_of_readLines (Metadata.readLines_authored hname hs code)
    (Metadata.ofFields_authored name sample)
  obtain ⟨l, hl, hblank⟩ := hs.last
  have hassembly := ofMetadata_source (isBlank_toText (List.mem_of_getLast? hl) hblank) name
    (Lines.toText code)
  refine ⟨_, others, _, _, hblocks, hmetadata, rfl, congrArg Assembly.variants hassembly,
    congrArg Assembly.fragments hassembly, rfl, ?_⟩
  dsimp only
  rw [mergeSource_toText hc hs]
  split_ifs with hmixin
  · rfl
  · exact ⟨rfl, fun hno => by rw [filled_of_no_placeholder hno]⟩

/-- Lines that look like comments, items, markers and the start of a document. -/
def misleadingSample : Lines :=
  ["", "block", "  block ", "# a: \"", "- b", "//- @pugdoc", "", "---"].map String.toList

theorem variants_authored_misleadingSample :
    (∃ b others m v, templateBlocks defaultKeyword
        (Lines.toText (authoredLines "Card1".toList misleadingSample
          [".card".toList, [], "  p hi".toList]) ++ "\nfooter\r\n  x".toList) = b :: others ∧
      Metadata.ofBlock b = .ok m ∧ m.name = some "Card1".toList ∧
      (Assembly.ofMetadata m b.codeText).variants = [v] ∧ v.fragment = none ∧
      v.source = "\n.card\n\n  p hi\n  .card\n\n    p hi\n# a: \"\n- b\n//- @pugdoc\n\n---".toList) ∧
    ∃ b others m v, templateBlocks defaultKeyword
        (Lines.toText (authoredLines "Card1".toList misleadingSample
          ["mixin card".toList, "  p hi".toList]) ++ []) = b :: others ∧
      Metadata.ofBlock b = .ok m ∧ m.name = some "Card1".toList ∧
      (Assembly.ofMetadata m b.codeText).variants = [v] ∧ v.fragment = none ∧
      v.source = "mixin card\n  p hi\n".toList ++ Lines.toText misleadingSample := by
  have hname : ∀ c ∈ "Card1".toList, Text.isWordChar c = true := List.all_eq_true.mp (by decide)
  have hsample : IsSample misleadingSample := by
    refine ⟨?_, ⟨_, rfl, rfl⟩, by decide, by unfold Lines.Flat; decide⟩
    intro l hl
    cases hl
    rfl
  have hplain : IsCode [".card".toList, [], "  p hi".toList] :=
    ⟨⟨_, _, rfl, rfl, rfl, by decide⟩, ⟨_, rfl, rfl⟩, by decide, by unfold Lines.Flat; decide⟩
  have hmixin : IsCode ["mixin card".toList, "  p hi".toList] :=
    ⟨⟨_, _, rfl, rfl, rfl, by decide⟩, ⟨_, rfl, rfl⟩, by decide, by unfold Lines.Flat; decide⟩
  have hfollows : Follows "\nfooter\r\n  x".toList := @Follows.line 'f' (by decide) "ooter\r\n  x".toList
  obtain ⟨b, others, m, v, hb, hm, hn, hv, -, hf, hsource⟩ :=
    variants_authored hname hsample hplain hfollows
  obtain ⟨b', others', m', v', hb', hm', hn', hv', -, hf', hsource'⟩ :=
    variants_authored hname hsample hmixin .nothing
  rw [if_neg (by decide)] at hsource
  rw [if_pos (by decide)] at hsource'
  exact ⟨⟨b, others, m, v, hb, hm, hn, hv, hf, hsource.1⟩,
    b', others', m', v', hb', hm', hn', hv', hf', hsource'⟩

end TemplateDocs
