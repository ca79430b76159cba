import Mathlib
import TemplateDocs.Proofs.Json.Reading
import TemplateDocs.Proofs.Locals
import TemplateDocs.Proofs.Runs

/-!
# The written documents

The documents of templates are written as one JSON text. Read again as a data file, it is the list of
their records, unless these are nested deeper than a reader goes.
-/
namespace TemplateDocs

open Json (Value Fields Same DistinctKeys Inside Integral Lexes depth)

/-! ### Where documents come from -/

/-- The document is among those of some template. -/
def Document.Produced (d : Document) : Prop :=
  ∃ engine keyword globals file source found,
    generateSource engine keyword globals file source = .ok found ∧ d ∈ found.documents

theorem BlockRender.spec_mem {attempts : List Attempt} {fragments : List Override} {f : Fragment}
    (h : f ∈ fragmentsOf attempts fragments) : f.spec ∈ fragments := by
  obtain ⟨⟨spec, index⟩, hmem, hf⟩ := List.mem_filterMap.mp h
  have hspec : f.spec = spec := by
    dsimp only at hf
    split at hf
    · cases hf
    · cases hf
      rfl
  rw [hspec]
  exact (List.mem_zipIdx' hmem).2 ▸ List.getElem_mem _

theorem Setting.generateBlock_documents {s : Setting} {b : Block} {m : Metadata} {part : Findings}
    (h : s.generateBlock b m = .ok part) : ∀ d ∈ part.documents,
      d.metadata = m ∧ ∀ f ∈ d.fragments, f.spec ∈ m.overrides := by
  unfold generateBlock at h
  extract_lets assembly render problems at h
  cases hd : Document.ofBlock? s.file b m render with
  | none => simp [hd] at h
  | some document =>
    rw [hd] at h
    cases h
    intro d hmem
    unfold Document.ofBlock? at hd
    split_ifs at hd
    cases hd
    dsimp only at hmem
    split_ifs at hmem
    · cases hmem
    · rw [List.mem_singleton.mp hmem]
      refine ⟨rfl, fun f hf => ?_⟩
      have hfragments : assembly.fragments = m.overrides :=
        (Assembly.ofMetadata_layered m b.codeText).fragments
      rw [← hfragments]
      exact BlockRender.spec_mem hf

/-- The metadata is that of a block, and the fragments are override objects there. -/
def Document.OfBlock (d : Document) : Prop :=
  (∃ b, Metadata.ofBlock b = .ok d.metadata) ∧ ∀ f ∈ d.fragments, f.spec ∈ d.metadata.overrides

theorem Setting.generateBlocks_ofBlock {s : Setting} {blocks : List Block} {found : Findings}
    (h : s.generateBlocks blocks = .ok found) : ∀ d ∈ found.documents, d.OfBlock := by
  refine generateBlocks_induction (P := fun found => ∀ d ∈ found.documents, d.OfBlock) nofun ?_
    (fun _ _ => nofun) ?_ h
  · intro a b ha hb d hd
    exact (List.mem_append.mp hd).elim (ha d) (hb d)
  · intro b m part hm hpart d hd
    obtain ⟨rfl, hfragments⟩ := generateBlock_documents hpart d hd
    exact ⟨⟨b, hm⟩, hfragments⟩

theorem Document.Produced.ofBlock {d : Document} (h : d.Produced) : d.OfBlock := by
  obtain ⟨engine, keyword, globals, file, source, found, hfound, hd⟩ := h
  exact Setting.generateBlocks_ofBlock hfound d hd

/-! ### Records -/

namespace Document

variable {d : Document}

/-- All numbers in the metadata are whole. -/
def wholeNumbers (d : Document) : Bool := (Json.numbers d.metadata.record).all Json.Number.isInt

theorem Produced.integral_metadata (h : d.Produced) (hwhole : d.wholeNumbers = true) :
    Integral d.metadata.record := by
  obtain ⟨⟨b, hb⟩, -⟩ := h.ofBlock
  apply Json.integral_of_inside
  intro n hn
  have hint := List.all_eq_true.mp hwhole n (Json.mem_numbers_of_inside hn)
  cases n with
  | int i => exact ⟨i, rfl, Metadata.int_bounds hb hn⟩
  | float x => cases hint

/-- A property of values that goes over to strings, to collections of values with distinct keys, and
to the metadata and the override objects holds of the record. -/
theorem record_induction {P : Value → Prop} (null : P .null) (string : ∀ s, P (.string s))
    (array : ∀ items, (∀ v ∈ items, P v) → P (.array items))
    (object : ∀ fields : Fields, (fields.map Prod.fst).Nodup → (∀ f ∈ fields, P f.2) →
      P (.object fields))
    (hmeta : P d.metadata.record) (hfragments : ∀ f ∈ d.fragments, P f.spec.record) :
    P d.record := by
  have houtput : P ((d.output.map Value.string).getD .null) := by
    cases d.output with
    | none => exact null
    | some t => exact string t
  have hfragment : ∀ f ∈ d.fragments, P f.record := by
    intro f hf
    refine object _ (show List.Nodup (["meta", "output"].map String.toList) by decide) ?_
    simp [entry, hfragments f hf, string]
  apply object
  · unfold fragmentsEntry
    split_ifs
    · exact show List.Nodup (["file", "meta", "source", "output"].map String.toList) by decide
    · exact show List.Nodup (["file", "meta", "source", "output", "fragments"].map String.toList) by
        decide
  · have hlast : ∀ f ∈ fragmentsEntry d.fragments, P f.2 := by
      unfold fragmentsEntry
      split_ifs
      · simp
      · intro f hf
        rw [List.mem_singleton.mp hf]
        refine array _ fun v hv => ?_
        obtain ⟨fragment, hmem, rfl⟩ := List.mem_map.mp hv
        exact hfragment fragment hmem
    intro f hf
    rcases List.mem_append.mp hf with hf | hf
    · simp only [entry, List.cons_append, List.nil_append, List.mem_cons, List.not_mem_nil,
        or_false] at hf
      rcases hf with rfl | rfl | rfl | rfl
      · exact string _
      · exact hmeta
      · exact string _
      · exact houtput
    · exact hlast f hf

theorem Produced.distinctKeys (h : d.Produced) : DistinctKeys d.record := by
  obtain ⟨⟨b, hb⟩, hfragments⟩ := h.ofBlock
  have hmeta := Metadata.distinctKeys_record hb
  refine record_induction .null .string (fun _ => .array) (fun _ => .object) hmeta ?_
  intro f hf
  exact hmeta.inside (Metadata.override_inside (hfragments f hf))

theorem Produced.integral (h : d.Produced) (hwhole : d.wholeNumbers = true) : Integral d.record := by
  obtain ⟨-, hfragments⟩ := h.ofBlock
  have hmeta := h.integral_metadata hwhole
  refine record_induction .null .string (fun _ => .array) (fun _ _ => .object) hmeta ?_
  intro f hf
  exact hmeta.inside (Metadata.override_inside (hfragments f hf))

/-! ### The written text -/

/-- The text of the documents without the line break at its end. -/
def body : List Document → Text
  | [] => "[]".toList
  | ds => '[' :: Text.join [','] (ds.map fun d => '\n' :: Json.pretty d.record) ++ "\n]".toList

theorem writeAll_eq (ds : List Document) : writeAll ds = body ds ++ ['\n'] := by
  cases ds with
  | nil => rfl
  | cons d ds => simp [writeAll, body]

/-- The array of the records. -/
def records (ds : List Document) : Value := .array (ds.map record)

theorem tokens?_body {ds : List Document} (h : ∀ d ∈ ds, Integral d.record) (t : Text) :
    Json.tokens? (body ds ++ t) = (Json.tokens? t).map (Json.valueTokens (records ds) ++ ·) := by
  rw [records, Json.valueTokens, Json.itemTokens_eq_map, List.map_map]
  cases ds with
  | nil =>
    change Json.tokens? ('[' :: ']' :: t) = _
    rw [Json.tokens?_punctuation rfl, Json.tokens?_punctuation rfl, Option.map_map]
    rfl
  | cons d ds =>
    have hlexes : List.Forall₂ Lexes ((d :: ds).map fun d => '\n' :: Json.pretty d.record)
        ((d :: ds).map (Json.valueTokens ∘ record)) := by
      rw [List.forall₂_map_left_iff, List.forall₂_map_right_iff, List.forall₂_same]
      intro d hd t ht
      rw [List.cons_append, Json.tokens?_space rfl]
      exact Json.lexes_prettyAt (h d hd) 0 t ht
    have hlast : ∀ c ∈ ['\n'], Json.isJsonSpace c = true := by simp [Json.isJsonSpace]
    have hclosing : Json.punctuation? ']' = some .closeArray := rfl
    have hjoin := Json.tokens?_join (List.forall_mem_nil _) hlast hclosing hlexes (by simp) t
    have hbody : body (d :: ds) ++ t = '[' :: (Text.join [','] ((d :: ds).map fun d =>
        '\n' :: Json.pretty d.record) ++ (['\n'] ++ ']' :: t)) := by
      simp [body]
    rw [hbody, Json.tokens?_punctuation rfl, hjoin, Option.map_map]
    rfl

/-- Read as a data file, the text is the array of the records in order, or it is too deep. -/
theorem parse_writeAll {ds : List Document} (h : ∀ d ∈ ds, Integral d.record) (path : Text) :
    DataFile.parse (writeAll ds) "json".toList path =
      if depth (records ds) ≤ Json.maxDepth then .ok (Json.arranged (records ds))
      else .error (DataFile.malformed path) := by
  have hend : Json.tokens? ['\n'] = some [] := by
    rw [Json.tokens?_space rfl, Json.tokens?]
  have htokens : Json.tokens? (writeAll ds) = some (Json.valueTokens (records ds)) := by
    rw [writeAll_eq, tokens?_body h, hend]
    simp
  have hformat : DataFile.parse (writeAll ds) "json".toList path =
      DataFile.Format.parse .json path (writeAll ds) := rfl
  rw [hformat, DataFile.Format.parse, Json.parse?_of_tokens? htokens]
  split_ifs <;> rfl

/-! ### What is read again -/

/-- An object with exactly these entries, each of them of the given kind. -/
def Entries (v : Value) (entries : List (String × (Value → Prop))) : Prop :=
  ∃ fields, v = .object fields ∧ (∀ e ∈ entries, ∃ w, Fields.get? e.1.toList fields = some w ∧ e.2 w) ∧
    ∀ key, Fields.has key fields = true → ∃ e ∈ entries, key = e.1.toList

/-- The fragment as an object: what its override object says, and its output. -/
def ShowsFragment (v : Value) (f : Fragment) : Prop :=
  Entries v [("meta", fun w => Same w f.spec.record), ("output", fun w => w = .string f.output)]

/-- The document as an object. Its fragments are shown if there are any. -/
def Shows (v : Value) (d : Document) : Prop :=
  Entries v ([("file", fun w => w = .string d.file), ("meta", fun w => Same w d.metadata.record),
    ("source", fun w => w = .string d.source),
    ("output", fun w => w = (d.output.elim .null .string))] ++
      if d.fragments.isEmpty then []
      else [("fragments", fun w => ∃ items, w = .array items ∧
        List.Forall₂ ShowsFragment items d.fragments)])

/-- In order, a record has the entries that were put into it. -/
theorem entries_arranged {fields : Fields} {entries : List (String × (Value → Prop))}
    (hkeys : (fields.map Prod.fst).Nodup)
    (hall : ∀ e ∈ entries, ∃ v, (e.1.toList, v) ∈ fields ∧ e.2 (Json.arranged v))
    (honly : ∀ f ∈ fields, ∃ e ∈ entries, f.1 = e.1.toList) :
    Entries (Json.arranged (.object fields)) entries := by
  rw [Json.arranged]
  refine ⟨_, rfl, ?_, ?_⟩
  · intro e he
    obtain ⟨v, hv, hkind⟩ := hall e he
    refine ⟨Json.arranged v, ?_, hkind⟩
    rw [Json.get?_ofList_arrangedFields hkeys, Fields.get?_of_mem hkeys hv]
    rfl
  · intro key hkey
    rw [Fields.has, Json.get?_ofList_arrangedFields hkeys, Option.isSome_map] at hkey
    obtain ⟨v, hv⟩ := Option.isSome_iff_exists.mp hkey
    exact honly _ (Fields.mem_of_get? hv)

theorem showsFragment_arranged {f : Fragment} (h : DistinctKeys f.record) :
    ShowsFragment (Json.arranged f.record) f := by
  cases h with
  | object hkeys hvalues =>
    have hspec : Same (Json.arranged f.spec.record) f.spec.record :=
      Json.same_arranged (hvalues ("meta".toList, f.spec.record) (by simp [entry]))
    refine entries_arranged hkeys ?_ ?_
    · simp [entry, Json.arranged, hspec]
    · simp [entry]

theorem shows_arranged {d : Document} (h : DistinctKeys d.record) : Shows (Json.arranged d.record) d := by
  have houtput : Json.arranged ((d.output.map Value.string).getD .null) =
      d.output.elim .null .string := by
    cases d.output <;> simp [Json.arranged]
  cases h with
  | object hkeys hvalues =>
    have hmeta : Same (Json.arranged d.metadata.record) d.metadata.record :=
      Json.same_arranged (hvalues ("meta".toList, d.metadata.record) (by simp [entry]))
    by_cases hnone : d.fragments.isEmpty = true
    · refine entries_arranged hkeys ?_ ?_
      · simp [entry, fragmentsEntry, hnone, Json.arranged, hmeta, houtput]
      · simp [entry, fragmentsEntry, hnone]
    · have hitems : List.Forall₂ ShowsFragment
          (Json.arrangedItems (d.fragments.map Fragment.record)) d.fragments := by
        rw [Json.arrangedItems_eq_map, List.map_map, List.forall₂_map_left_iff, List.forall₂_same]
        intro f hf
        have harray := hvalues ("fragments".toList, .array (d.fragments.map Fragment.record))
          (by simp [entry, fragmentsEntry, hnone])
        cases harray with
        | array hrecords => exact showsFragment_arranged (hrecords _ (List.mem_map_of_mem hf))
      refine entries_arranged hkeys ?_ ?_
      · simp [entry, fragmentsEntry, hnone, Json.arranged, hmeta, houtput, hitems]
      · simp [entry, fragmentsEntry, hnone]

/-- Documents of templates, all numbers in them whole, are written as one JSON text and a line break,
with no key twice in an object. Read again, it is the array of what each document shows, in order,
if it is nested no deeper than readers go; deeper text is refused. -/
theorem parse_writeAll_exact {ds : List Document} (hproduced : ∀ d ∈ ds, d.Produced)
    (hwhole : ∀ d ∈ ds, d.wholeNumbers = true) (path : Text) :
    ∃ text, writeAll ds = text ++ ['\n'] ∧
      Json.tokens? text = some (Json.valueTokens (records ds)) ∧ DistinctKeys (records ds) ∧
      (depth (records ds) ≤ Json.maxDepth → ∃ items,
        DataFile.parse (writeAll ds) "json".toList path = .ok (.array items) ∧
        DistinctKeys (.array items) ∧ List.Forall₂ Shows items ds) ∧
      (Json.maxDepth < depth (records ds) →
        DataFile.parse (writeAll ds) "json".toList path = .error (DataFile.malformed path)) := by
  have hintegral : ∀ d ∈ ds, Integral d.record := fun d hd => (hproduced d hd).integral (hwhole d hd)
  have hdistinct : ∀ d ∈ ds, DistinctKeys d.record := fun d hd => (hproduced d hd).distinctKeys
  have hparse := parse_writeAll hintegral path
  refine ⟨body ds, writeAll_eq ds, ?_, ?_, ?_, ?_⟩
  · have htokens := tokens?_body hintegral []
    simpa [Json.tokens?] using htokens
  · refine .array fun v hv => ?_
    obtain ⟨d, hd, rfl⟩ := List.mem_map.mp hv
    exact hdistinct d hd
  · intro hdepth
    have harranged : Json.arranged (records ds) = .array (ds.map (Json.arranged ∘ record)) := by
      rw [records, Json.arranged, Json.arrangedItems_eq_map, List.map_map]
    have hkeys := Json.distinctKeys_arranged (records ds)
    rw [harranged] at hparse hkeys
    refine ⟨_, hparse.trans (if_pos hdepth), hkeys, ?_⟩
    rw [List.forall₂_map_left_iff, List.forall₂_same]
    exact fun d hd => shows_arranged (hdistinct d hd)
  · intro hdepth
    rw [hparse, if_neg (Nat.not_le.mpr hdepth)]

/-! ### A template with a fragment, and one that goes too deep -/

/-- Quotes, a control character and a line break in the metadata, an override object, and a number. -/
def shownSource : Text :=
  Lines.toText (["//- @pugdoc", "  name: \"a \\\"b\\\"\"", "  size: -12", "  note: |", "    one\x01",
    "    two", "  example:", "    name: f", "    example: p", "p code"].map String.toList)

def deepSource : Text :=
  "//- @pugdoc\n  name: x\n  deep: ".toList ++ List.replicate 125 '[' ++ List.replicate 125 ']' ++
    "\np code\n".toList

/-- What a template yields, as far as its documents are concerned. -/
def documentsOf (source : Text) : List Document :=
  ((generateSource Options.echoEngine defaultKeyword [] "v.pug".toList source).toOption.map
    Findings.documents).getD []

theorem produced_documentsOf (source : Text) : ∀ d ∈ documentsOf source, d.Produced := by
  intro d hd
  unfold documentsOf at hd
  cases hfound : generateSource Options.echoEngine defaultKeyword [] "v.pug".toList source with
  | error e =>
    rw [hfound] at hd
    cases hd
  | ok found =>
    rw [hfound] at hd
    exact ⟨_, _, _, _, _, found, hfound, hd⟩

theorem parse_writeAll_exact_shownSource :
    (documentsOf shownSource).map (fun d => d.fragments.length) = [1] ∧
      (∀ d ∈ documentsOf shownSource, d.Produced ∧ d.wholeNumbers = true) ∧
      ∃ items, DataFile.parse (writeAll (documentsOf shownSource)) "json".toList "out.json".toList =
        .ok (.array items) ∧ List.Forall₂ Shows items (documentsOf shownSource) := by
  have hsource : (documentsOf shownSource).map (fun d => d.fragments.length) = [1] ∧
      (documentsOf shownSource).all wholeNumbers = true ∧
      depth (records (documentsOf shownSource)) ≤ Json.maxDepth := by
    decide +kernel
  obtain ⟨hcount, hwhole, hdepth⟩ := hsource
  have hproduced := produced_documentsOf shownSource
  rw [List.all_eq_true] at hwhole
  refine ⟨hcount, fun d hd => ⟨hproduced d hd, hwhole d hd⟩, ?_⟩
  obtain ⟨-, -, -, -, hshown, -⟩ := parse_writeAll_exact hproduced hwhole "out.json".toList
  obtain ⟨items, hparse, -, hitems⟩ := hshown hdepth
  exact ⟨items, hparse, hitems⟩

/-- Brackets that an annotation may open are too many for a reader of the output. -/
theorem parse_writeAll_deepSource : (∀ d ∈ documentsOf deepSource, d.Produced ∧ d.wholeNumbers = true) ∧
    (documentsOf deepSource).map name = ["x".toList] ∧
    DataFile.parse (writeAll (documentsOf deepSource)) "json".toList "out.json".toList =
      .error (DataFile.malformed "out.json".toList) := by
  have hsource : (documentsOf deepSource).map name = ["x".toList] ∧
      (documentsOf deepSource).all wholeNumbers = true ∧
      ¬ depth (records (documentsOf deepSource)) ≤ Json.maxDepth := by
    decide +kernel
  obtain ⟨hnames, hwhole, hdepth⟩ := hsource
  have hproduced := produced_documentsOf deepSource
  rw [List.all_eq_true] at hwhole
  refine ⟨fun d hd => ⟨hproduced d hd, hwhole d hd⟩, hnames, ?_⟩
  rw [parse_writeAll (fun d hd => (hproduced d hd).integral (hwhole d hd)), if_neg hdepth]

end Document

end TemplateDocs
