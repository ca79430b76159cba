import Mathlib
import TemplateDocs.Proofs.Outline.Literals
import TemplateDocs.Proofs.Outline.Renumbering
import TemplateDocs.Proofs.Outline.Stopping

/-!
# A literal block put into a mapping

An entry whose value is a literal block may be put between the entries of a mapping. Its lines come back
as its value, whatever they hold, and the entries around it are read as without it. Only an entry put at
the end can be noticed: before it no line followed, and a block that had kept the blank lines at the end
of the text loses them to the new entry.
-/
namespace TemplateDocs.Outline

open Json (Value Fields)
open Text (trim)

variable {p : Nat}

/-! ### Entries and the mapping around them -/

theorem Task.run_mapping_entry {indent : Nat} {acc : Fields} {ls rest mid : List Line} {line : Line}
    {key after : Text} {v : Value} (h : active ls = line :: rest) (hi : line.indent = indent)
    (hk : splitKey? line.text = some (key, after)) (hd : Fields.has key acc = false)
    (hv : Reads (.entry (trim after) line indent) rest v mid) :
    (mapping indent acc).run ls = (mapping indent (Fields.insert key v acc)).run mid := by
  rw [run_mapping, h]
  simp [hi, hk, hd, hv.run]

theorem Reads.has_of_acc {indent : Nat} {acc fs : Fields} {ls left : List Line}
    (h : Reads (.mapping indent acc) ls (.object fs) left) {key : Text} (hk : Fields.has key acc = true) :
    Fields.has key fs = true := by
  obtain ⟨es, -, hfs, -, hfresh⟩ := h.listed
  have hnot : key ∉ es.map Entry.key := by
    intro hmem
    obtain ⟨e, he, rfl⟩ := List.mem_map.mp hmem
    rw [hfresh e he] at hk
    cases hk
  rw [Value.object.inj hfs, Fields.has, get?_fieldsFrom_of_not_mem hnot]
  exact hk

/-- A key that the mapping has not can be there from the start. -/
theorem Reads.mapping_insert {indent : Nat} {acc fs : Fields} {ls left : List Line} {key : Text}
    (h : Reads (.mapping indent acc) ls (.object fs) left) (hkey : Fields.has key fs = false) (v : Value) :
    Reads (.mapping indent (Fields.insert key v acc)) ls (.object (Fields.insert key v fs)) left := by
  generalize ht : Task.mapping indent acc = task at h
  generalize hw : Value.object fs = w at h
  induction h generalizing acc with
  | mappingEnd h =>
    cases ht
    cases hw
    exact .mappingEnd h
  | @mappingEntry _ acc _ _ _ _ line key' after v' w h hi hk hd hv hr _ ih =>
    cases ht
    subst hw
    have hne : key ≠ key' := by
      rintro rfl
      have := hr.has_of_acc (Fields.has_insert key v' acc)
      rw [hkey] at this
      cases this
    refine .mappingEntry h hi hk ?_ hv (Fields.insert_comm hne v v' acc ▸ ih rfl rfl)
    rw [Fields.has, Fields.get?_insert, if_neg hne]
    exact hd
  | _ => cases ht

/-- What becomes of the fields of a mapping at `p` if a stop follows its lines. -/
structure FieldsBefore (p : Nat) (acc : Fields) (ls : List Line) (fs fs' : Fields) : Prop where
  has_eq : ∀ key, Fields.has key fs' = Fields.has key fs
  eq_iff : fs' = fs ↔ ¬Dangling (.mapping p acc) ls
  others : ∃ last, ∀ key, key ≠ last → Fields.get? key fs' = Fields.get? key fs
  run_eq : ∀ stop rest, Stops p stop →
    (Task.mapping p acc).run (ls ++ stop :: rest) = (Task.mapping p fs').run (stop :: rest)

theorem Reads.fieldsBefore {acc fs : Fields} {ls : List Line}
    (h : Reads (.mapping p acc) ls (.object fs) []) (hblank : BlankRaws ls) :
    ∃ fs', FieldsBefore p acc ls fs fs' := by
  generalize ht : Task.mapping p acc = task at h
  generalize hw : Value.object fs = w at h
  generalize hleft : ([] : List Line) = left at h
  induction h generalizing acc with
  | @mappingEnd _ acc ls hend =>
    cases ht
    cases hw
    refine ⟨fs, fun _ => rfl, iff_of_true rfl (Dangling.not_mapping hend), ⟨[], fun _ _ => rfl⟩, ?_⟩
    intro stop rest _
    exact Task.run_mapping_active (active_append_of_nil hleft.symm _)
  | @mappingEntry _ acc ls rest mid left line key after v w h hi hk hd hv hr _ ih =>
    cases ht
    subst hw hleft
    have hrest : BlankRaws rest := hblank.suffix ((List.suffix_cons _ _).trans (h ▸ active_suffix _))
    obtain ⟨v', hshift, hentry⟩ := hv.before_stop (p := p) (Nat.le_refl p) hrest
    have hrun : ∀ stop rest', Stops p stop → (Task.mapping p acc).run (ls ++ stop :: rest') =
        (Task.mapping p (Fields.insert key v' acc)).run (mid ++ stop :: rest') := by
      intro stop rest' hs
      obtain ⟨mid', hread, hmid⟩ := hentry stop rest' hs
      rw [Task.run_mapping_entry (active_append_of_cons h _) hi hk hd hread, Task.run_mapping_active hmid]
    rcases hshift with ⟨hno, rfl⟩ | ⟨hyes, hne, hend⟩
    · obtain ⟨fs', hfs⟩ := ih (hrest.suffix hv.suffix.1) rfl rfl rfl
      have hiff := (Dangling.mapping_iff acc h hi hk hv).trans (or_iff_right hno)
      refine ⟨fs', hfs.has_eq, hfs.eq_iff.trans (not_congr hiff.symm), hfs.others, fun stop rest' hs => ?_⟩
      rw [hrun stop rest' hs, hfs.run_eq stop rest' hs]
    · obtain ⟨hfs, -⟩ := hr.mapping_nil hend
      cases hfs
      have hget : ∀ k u, Fields.get? k (Fields.insert key u acc) =
          if key = k then some u else Fields.get? k acc := fun k u => Fields.get?_insert k key u acc
      refine ⟨Fields.insert key v' acc, fun k => ?_, iff_of_false (fun heq => hne ?_) ?_, ⟨key, ?_⟩, ?_⟩
      · rw [Fields.has, Fields.has, hget, hget]
        split_ifs <;> rfl
      · have := congrArg (Fields.get? key) heq
        rw [hget, hget, if_pos rfl, if_pos rfl] at this
        exact Option.some.inj this
      · exact not_not.mpr (.entry h hi hk hyes)
      · intro k hk
        rw [hget, hget, if_neg hk.symm, if_neg hk.symm]
      · intro stop rest' hs
        rw [hrun stop rest' hs]
        exact Task.run_mapping_active (active_append_of_nil hend _)
  | _ => cases ht

/-! ### A literal block among the entries -/

/-- A line with a key ends the values before it. -/
theorem Stops.of_key {line : Line} {key after : Text} (hi : line.indent = p)
    (hk : splitKey? line.text = some (key, after)) : Stops p line := by
  have hitem : Line.isItemText line.text = false := by
    rw [Bool.eq_false_iff]
    intro hitem
    rw [splitKey?_of_isItemText hitem] at hk
    cases hk
  refine ⟨?_, .inr ⟨hi, hitem⟩⟩
  cases htext : line.text with
  | nil =>
    rw [htext] at hk
    cases hk
  | cons c t =>
    have hc : c ≠ '#' := by
      rintro rfl
      rw [htext] at hk
      simp [splitKey?, Flow.isQuote] at hk
    simp [Line.isIdle, htext, hc]

/-- The lines of an entry at column `p` whose value is a literal block at column `b`. -/
structure LiteralEntry (p b : Nat) (newline : Bool) (key head : Text) (texts : Lines) : Prop where
  deeper : p < b
  carried : Carried texts
  column : Lines.indent head = p
  key : ∃ value, splitKey? (trim head) = some (key, value) ∧ trim value = literalHeader newline

/-- A place between the entries of a mapping at column `p`, or behind the last one. -/
structure EntryGap (p n : Nat) (before after : Lines) (fs : Fields) (left : List Line) : Prop where
  front : ∃ es, (Task.mapping p []).run (Line.numbered n before) = .ok (.object es, [])
  next : ∀ raw ∈ after.head?, Stops p (Line.of n raw)
  whole : (Task.mapping p []).run (Line.numbered n (before ++ after)) = .ok (.object fs, left)

theorem LiteralEntry.stops {b : Nat} {newline : Bool} {key head : Text} {texts : Lines}
    (h : LiteralEntry p b newline key head texts) (n : Nat) : Stops p (Line.of n head) := by
  obtain ⟨value, hk, -⟩ := h.key
  exact Stops.of_key h.column hk

/-- The entry takes its own lines and hands the others back to the mapping. -/
theorem LiteralEntry.run_mapping {b : Nat} {newline : Bool} {key head : Text} {texts : Lines}
    (h : LiteralEntry p b newline key head texts) {acc : Fields} (hd : Fields.has key acc = false)
    (m n : Nat) {rest : List Line} (hrest : ∀ l ∈ rest.head?, Stops p l) :
    (Task.mapping p acc).run (Line.of m head :: (Line.numbered n (texts.map (indented b)) ++ rest)) =
      (Task.mapping p (Fields.insert key (.string (literalText newline texts)) acc)).run rest := by
  obtain ⟨value, hk, hvalue⟩ := h.key
  have hmark : isTrailingComment (literalHeader newline) = false := by cases newline <;> rfl
  have hread := readInline_literal h.carried h.deeper newline n (Line.of m head)
    fun l hl => (hrest l hl).inBlock h.deeper
  refine Task.run_mapping_entry (active_cons (h.stops m).idle _) h.column hk hd ?_
  rw [hvalue]
  exact .entryInline hmark hread

/-- The mapping with the entry goes on behind it as if the entry had been there from the start. -/
theorem LiteralEntry.run_between {b n : Nat} {newline : Bool} {key head : Text}
    {texts before after : Lines} (h : LiteralEntry p b newline key head texts) {es fs' : Fields}
    (hbefore : FieldsBefore p [] (Line.numbered n before) es fs')
    (hafter : ∀ raw ∈ after.head?, Stops p (Line.of n raw)) (hd : Fields.has key fs' = false) :
    (Task.mapping p []).run (Line.numbered n (before ++ head :: (texts.map (indented b) ++ after))) =
      renumberOutcome (· + (texts.length + 1))
        ((Task.mapping p (Fields.insert key (.string (literalText newline texts)) fs')).run
          (Line.numbered (n + before.length) after)) := by
  have hlines : Line.numbered n (before ++ head :: (texts.map (indented b) ++ after)) =
      Line.numbered n before ++ Line.of (n + before.length) head ::
        (Line.numbered (n + before.length + 1) (texts.map (indented b)) ++
          (Line.numbered (n + before.length) after).map (Line.renumber (· + (texts.length + 1)))) := by
    rw [Line.numbered_append, Line.numbered, Line.numbered_append, ← Line.numbered_add, List.length_map,
      Nat.add_assoc _ 1, Nat.add_comm 1]
  have hstops : ∀ l ∈ ((Line.numbered (n + before.length) after).map
      (Line.renumber (· + (texts.length + 1)))).head?, Stops p l := by
    cases after with
    | nil => simp [Line.numbered]
    | cons raw after =>
      intro l hl
      cases hl
      exact ⟨(hafter raw rfl).idle, (hafter raw rfl).column⟩
  rw [hlines, hbefore.run_eq _ _ (h.stops _), h.run_mapping hd _ _ hstops]
  exact Task.run_renumber _ (.mapping p _) _

/-- A literal block put between the entries of a mapping, or behind the last one, has the text of its
lines as its value. The other entries are read as without it, unless it comes last and the entries
before it end in a block without content; then this block is the only one that differs. -/
theorem mapping_with_literal {b n : Nat} {newline : Bool} {key head : Text}
    {texts before after : Lines} {fs : Fields} {left : List Line}
    (he : LiteralEntry p b newline key head texts) (hgap : EntryGap p n before after fs left)
    (hkey : Fields.has key fs = false) :
    ∃ gs, (Task.mapping p []).run
        (Line.numbered n (before ++ head :: (texts.map (indented b) ++ after))) =
          .ok (.object (Fields.insert key (.string (literalText newline texts)) gs),
            left.map (Line.renumber (· + (texts.length + 1)))) ∧
      Fields.has key gs = false ∧ (∃ last, ∀ k, k ≠ last → Fields.get? k gs = Fields.get? k fs) ∧
      (gs = fs ↔ after ≠ [] ∨ ¬Dangling (.mapping p []) (Line.numbered n before)) := by
  obtain ⟨⟨es, hbefore⟩, hafter, hwhole⟩ := hgap
  obtain ⟨fs', hfs⟩ := (reads_iff.mpr hbefore).fieldsBefore (numbered_asCut n before).blankRaws
  cases after with
  | nil =>
    rw [List.append_nil, hbefore] at hwhole
    cases hwhole
    have hnew : Fields.has key fs' = false := (hfs.has_eq key).trans hkey
    refine ⟨fs', ?_, hnew, hfs.others, hfs.eq_iff.trans (by simp)⟩
    rw [he.run_between hfs hafter hnew, Line.numbered, Task.run_mapping]
    rfl
  | cons raw after =>
    -- Without the entry too a line follows those before, so they are read alike.
    have hstop : Stops p (Line.of (n + before.length) raw) :=
      ⟨(hafter raw rfl).idle, (hafter raw rfl).column⟩
    rw [Line.numbered_append, Line.numbered, hfs.run_eq _ _ hstop] at hwhole
    have hread := reads_iff.mpr hwhole
    have hnew : Fields.has key fs' = false := by
      rw [Bool.eq_false_iff]
      intro hold
      rw [hread.has_of_acc hold] at hkey
      cases hkey
    refine ⟨fs, ?_, hkey, ⟨key, fun _ _ => rfl⟩, by simp⟩
    rw [he.run_between hfs hafter hnew, Line.numbered, (hread.mapping_insert hkey _).run]
    rfl

/-- Lines that mean something anywhere but in a literal block. -/
def inertLines : Lines :=
  [[], "# comment".toList, "  - item".toList, "key: \"entry".toList, "   ".toList, "---".toList]

theorem inertLines_entry : LiteralEntry 2 5 true "key".toList "  key: |".toList inertLines where
  deeper := by decide
  carried :=
    { flush := by
        intro l hl
        have hfirst : inertLines.find? (fun l => !Lines.isBlank l) = some "# comment".toList := by decide
        rw [hfirst] at hl
        cases hl
        decide
      last := ⟨"---".toList, by decide, by decide⟩ }
  column := by decide
  key := ⟨" |".toList, by decide, by decide⟩

/-- Entries of a mapping inside another one. -/
def innerBefore : Lines := ["  a: |+".toList, "   - x".toList, []]

def innerAfter : Lines := ["  z: \"y\"".toList, "c: d".toList]

theorem inner_gap : EntryGap 2 7 innerBefore innerAfter
    [("a".toList, .string "- x\n\n".toList), ("z".toList, .string "y".toList)]
    [Line.of 11 "c: d".toList] where
  front := ⟨[("a".toList, .string "- x\n\n".toList)], by cbv⟩
  next := by
    intro raw hraw
    cases hraw
    exact ⟨by decide, by decide⟩
  whole := by cbv

theorem mapping_with_literal_inertLines :
    (Task.mapping 2 []).run (Line.numbered 7 (innerBefore ++ "  key: |".toList ::
        (inertLines.map (indented 5) ++ innerAfter))) =
      .ok (.object [("a".toList, .string "- x\n\n".toList),
        ("key".toList, .string "\n# comment\n  - item\nkey: \"entry\n   \n---\n".toList),
        ("z".toList, .string "y".toList)], [Line.of 18 "c: d".toList]) := by
  obtain ⟨gs, hrun, -, -, hiff⟩ := mapping_with_literal inertLines_entry inner_gap (by decide)
  rw [hiff.mpr (.inl (by decide))] at hrun
  rw [hrun]
  cbv

/-- Behind a block that keeps its line breaks and has two blank lines only, an entry is no addition. Alone
the block reads as three line breaks, and with an entry behind it as one, which is not the text of the two
lines either. -/
theorem mapping_with_literal_unfilled :
    ¬ ∀ (p b n : Nat) (newline : Bool) (key head : Text) (texts before after : Lines) (fs : Fields)
      (left : List Line), LiteralEntry p b newline key head texts → EntryGap p n before after fs left →
      Fields.has key fs = false →
      (Task.mapping p []).run
        (Line.numbered n (before ++ head :: (texts.map (indented b) ++ after))) =
          .ok (.object (Fields.insert key (.string (literalText newline texts)) fs),
            left.map (Line.renumber (· + (texts.length + 1)))) := by
  intro hall
  have hentry : LiteralEntry 0 2 false "key".toList "key: |-".toList ["x".toList] :=
    { deeper := by decide
      carried := ⟨by rintro l ⟨⟩; decide, "x".toList, by decide, by decide⟩
      column := by decide
      key := ⟨" |-".toList, by decide, by decide⟩ }
  have hgap : EntryGap 0 1 ["a: |+".toList, [], []] [] [("a".toList, .string "\n\n\n".toList)] [] :=
    { front := ⟨[("a".toList, .string "\n\n\n".toList)], by cbv⟩
      next := by simp
      whole := by cbv }
  have hrun := hall 0 2 1 false _ _ _ _ _ _ _ hentry hgap (by decide)
  have hread : (Task.mapping 0 []).run (Line.numbered 1 (["a: |+".toList, [], []] ++ "key: |-".toList ::
      (["x".toList].map (indented 2) ++ []))) =
        .ok (.object [("a".toList, .string "\n".toList), ("key".toList, .string "x".toList)], []) := by
    cbv
  rw [hread, Except.ok.injEq, Prod.mk.injEq, Value.object.injEq] at hrun
  have hget := congrArg (Fields.get? "a".toList) hrun.1
  rw [Fields.get?_insert, if_neg (by decide)] at hget
  simp [Fields.get?] at hget

end TemplateDocs.Outline
