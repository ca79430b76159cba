import Mathlib
import TemplateDocs.Proofs.Outline.Locality
import TemplateDocs.Proofs.Records

/-!
# The entries of a document

A document that is a block mapping is a list of entries: each starts on a line of its own, takes the
lines of its value and leaves the rest to the next. What is read are the values by key.
-/
namespace TemplateDocs

namespace Outline

open Json (Value Fields)

/-- A key on its line, and the lines after it that its value takes. -/
structure Entry where
  head : Line
  key : Text
  body : List Line
  value : Value

theorem weight_lt_of_active {ls rest left : List Line} {line : Line} (h : active ls = line :: rest)
    (hle : weight left ≤ weight rest) : weight left < weight ls := by
  have := active_weight_cons h
  omega

/-- The entries at `indent` that the lines start with. -/
def entriesAt (indent : Nat) (ls : List Line) : List Entry :=
  match h : active ls with
  | [] => []
  | line :: rest =>
    if line.indent ≠ indent then []
    else
      match splitKey? line.text with
      | none => []
      | some (key, after) =>
        match readEntry (Text.trim after) line indent rest with
        | .error _ => []
        | .ok v =>
          have : weight v.rest < weight ls := weight_lt_of_active h v.le
          ⟨line, key, rest.take (rest.length - v.rest.length), v.value⟩ :: entriesAt indent v.rest
termination_by weight ls

/-- The lines of a document after a first line `---`. -/
def documentBody (ls : List Line) : List Line :=
  match active ls with
  | [] => []
  | line :: rest => if line.text = "---".toList then rest else line :: rest

/-- The entries of a document; a document that is no block mapping has none. -/
def entries (ls : List Line) : List Entry :=
  match active (documentBody ls) with
  | [] => []
  | line :: rest => entriesAt line.indent (line :: rest)

/-- The values of entries by key, on top of those read before. -/
def fieldsFrom (acc : Fields) (es : List Entry) : Fields :=
  es.foldl (fun acc e => Fields.insert e.key e.value acc) acc

/-- Lines that are a list of entries at one indentation, and the lines left. -/
inductive Listed (indent : Nat) : List Line → List Entry → List Line → Prop
  | nil {ls : List Line} (h : ∀ line ∈ (active ls).head?, line.indent < indent) :
      Listed indent ls [] (active ls)
  | cons {e : Entry} {es : List Entry} {ls mid left : List Line} {after : Text}
      (h : active ls = e.head :: (e.body ++ mid)) (hi : e.head.indent = indent)
      (hk : splitKey? e.head.text = some (e.key, after))
      (hv : Reads (.entry (Text.trim after) e.head indent) (e.body ++ mid) e.value mid)
      (hr : Listed indent mid es left) : Listed indent ls (e :: es) left

theorem Listed.entriesAt_eq {indent : Nat} {ls left : List Line} {es : List Entry}
    (h : Listed indent ls es left) : entriesAt indent ls = es := by
  induction h with
  | @nil ls h =>
    rw [entriesAt]
    split
    · rfl
    · next line rest ha =>
      have := h line (by simp [ha])
      simp [Nat.ne_of_lt this]
  | @cons e es ls mid left after h hi hk hv hr ih =>
    rw [entriesAt]
    split
    · next ha => simp [ha] at h
    · next line rest ha =>
      rw [ha] at h
      cases h
      have hrun := hv.run
      simp only [Task.run, Except.map, Read.parts] at hrun
      cases hread : readEntry (Text.trim after) e.head indent (e.body ++ mid) with
      | error err => simp [hread] at hrun
      | ok v =>
        simp only [hread, Except.ok.injEq, Prod.mk.injEq] at hrun
        simp [hi, hk, hread, hrun, ih]

/-- A mapping is read entry by entry, and no key comes twice. -/
theorem Reads.listed {indent : Nat} {acc : Fields} {ls left : List Line} {v : Value}
    (h : Reads (.mapping indent acc) ls v left) :
    ∃ es, Listed indent ls es left ∧ v = .object (fieldsFrom acc es) ∧ (es.map Entry.key).Nodup ∧
      ∀ e ∈ es, Fields.has e.key acc = false := by
  generalize ht : Task.mapping indent acc = task at h
  induction h generalizing acc with
  | mappingEnd h =>
    cases ht
    exact ⟨[], .nil h, rfl, by simp, by simp⟩
  | @mappingEntry _ _ ls rest mid left line key after v w h hi hk hd hv hr _ ih =>
    cases ht
    obtain ⟨es, hes, rfl, hnd, hacc⟩ := ih rfl
    obtain ⟨body, rfl⟩ := hv.suffix.1
    refine ⟨⟨line, key, body, v⟩ :: es, .cons h hi hk hv hes, rfl, ?_, ?_⟩
    · refine List.nodup_cons.mpr ⟨fun hmem => ?_, hnd⟩
      obtain ⟨e, he, hek⟩ := List.mem_map.mp hmem
      have := hacc e he
      simp [Fields.has, Fields.get?_insert, hek] at this
    · intro e he
      rcases List.mem_cons.mp he with rfl | he
      · exact hd
      · have := hacc e he
        simp only [Fields.has, Fields.get?_insert] at this ⊢
        split_ifs at this
        · simp at this
        · exact this
  | _ => cases ht

theorem get?_fieldsFrom_of_not_mem {key : Text} {es : List Entry} (h : key ∉ es.map Entry.key)
    (acc : Fields) : Fields.get? key (fieldsFrom acc es) = Fields.get? key acc := by
  induction es generalizing acc with
  | nil => rfl
  | cons e es ih =>
    simp only [List.map_cons, List.mem_cons, not_or] at h
    change Fields.get? key (fieldsFrom (Fields.insert e.key e.value acc) es) = _
    rw [ih h.2, Fields.get?_insert, if_neg (Ne.symm h.1)]

theorem get?_fieldsFrom_of_mem {e : Entry} {es : List Entry} (he : e ∈ es)
    (hnd : (es.map Entry.key).Nodup) (acc : Fields) :
    Fields.get? e.key (fieldsFrom acc es) = some e.value := by
  induction es generalizing acc with
  | nil => cases he
  | cons e' es ih =>
    obtain ⟨hnot, hnd⟩ := List.nodup_cons.mp hnd
    rcases List.mem_cons.mp he with rfl | he
    · exact (get?_fieldsFrom_of_not_mem hnot _).trans (by rw [Fields.get?_insert, if_pos rfl])
    · exact ih he hnd _

theorem Listed.congr_active {indent : Nat} {ls ls' left : List Line} {es : List Entry}
    (h : Listed indent ls es left) (ha : active ls' = active ls) : Listed indent ls' es left := by
  cases h with
  | nil h => exact ha ▸ .nil (ha ▸ h)
  | cons h hi hk hv hr => exact .cons (ha.trans h) hi hk hv hr

/-- What is known of an entry among others: its lines, its key and how its value is read. -/
structure Entry.StandsIn (e : Entry) (indent : Nat) (ls mid : List Line) (after : Text) : Prop where
  lines : e.head :: (e.body ++ mid) <:+ ls
  idle : e.head.isIdle = false
  column : e.head.indent = indent
  key : splitKey? e.head.text = some (e.key, after)
  value : Reads (.entry (Text.trim after) e.head indent) (e.body ++ mid) e.value mid

theorem Listed.standsIn {indent : Nat} {ls left : List Line} {es : List Entry} {e : Entry}
    (h : Listed indent ls es left) (he : e ∈ es) :
    ∃ mid after, e.StandsIn indent ls mid after := by
  induction h with
  | nil h => cases he
  | @cons e' es ls mid left after h hi hk hv hr ih =>
    have hs : e'.head :: (e'.body ++ mid) <:+ ls := h ▸ active_suffix ls
    rcases List.mem_cons.mp he with rfl | he
    · exact ⟨mid, after, hs, isIdle_of_active h, hi, hk, hv⟩
    · obtain ⟨mid', after', hlines, hidle, hi', hk', hv'⟩ := ih he
      have hmid : mid <:+ ls :=
        (List.suffix_append e'.body mid).trans ((List.suffix_cons e'.head _).trans hs)
      exact ⟨mid', after', hlines.trans hmid, hidle, hi', hk', hv'⟩

/-! ### Whole documents -/

theorem documentBody_suffix (ls : List Line) : documentBody ls <:+ ls := by
  unfold documentBody
  have hs := active_suffix ls
  split
  · exact List.nil_suffix
  · next line rest h =>
    rw [h] at hs
    split_ifs
    · exact (List.suffix_cons line rest).trans hs
    · exact hs

theorem readLines_eq (ls : List Line) : readLines ls =
    match (Task.node none).run (documentBody ls) with
    | .error e => .error e
    | .ok (v, left) =>
      match active left with
      | [] => .ok v
      | line :: _ => .error ⟨line.number, .contentAfterDocument⟩ := by
  unfold readLines
  extract_lets body
  have hbody : documentBody ls = body := by
    unfold documentBody body
    cases active ls with
    | nil => rfl
    | cons line rest => by_cases hl : line.text = "---".toList <;> simp only [hl, if_true, if_false]
  rw [hbody, Task.run, Task.runNode]
  cases readNode none body <;> rfl

theorem readLines_eq_ok_iff {ls : List Line} {v : Value} :
    readLines ls = .ok v ↔ ∃ left, Reads (.node none) (documentBody ls) v left ∧ active left = [] := by
  rw [readLines_eq]
  constructor
  · intro h
    cases hrun : (Task.node none).run (documentBody ls) with
    | error e => simp [hrun] at h
    | ok r =>
      obtain ⟨w, left⟩ := r
      simp only [hrun] at h
      cases ha : active left with
      | nil =>
        simp only [ha, Except.ok.injEq] at h
        exact ⟨left, reads_iff.mpr (h ▸ hrun), ha⟩
      | cons line rest => simp [ha] at h
  · rintro ⟨left, hr, ha⟩
    simp [hr.run, ha]

/-- A document whose fields are the values of its entries. -/
structure BlockMapping (ls : List Line) (fields : Fields) : Prop where
  listed : ∃ indent left, Listed indent (documentBody ls) (entries ls) left
  fields_eq : fields = fieldsFrom [] (entries ls)
  keys : ((entries ls).map Entry.key).Nodup

theorem splitKey?_of_isItemText {t : Text} (h : Line.isItemText t = true) : splitKey? t = none := by
  obtain ⟨rest, rfl⟩ := Line.exists_of_isItemText h
  simp [splitKey?, Flow.isQuote, h]

theorem entries_eq_nil {ls rest : List Line} {line : Line}
    (ha : active (documentBody ls) = line :: rest) (hk : splitKey? line.text = none) :
    entries ls = [] := by
  unfold entries
  rw [ha]
  change entriesAt line.indent (line :: rest) = []
  rw [entriesAt]
  split
  · rfl
  · next hl =>
    rw [active_cons (isIdle_of_active ha)] at hl
    cases hl
    simp [hk]

/-- A document that is no block mapping has no entries. -/
theorem entries_of_readLines {ls : List Line} {v : Value} (h : readLines ls = .ok v) :
    entries ls = [] ∨ ∃ fields, v = .object fields ∧ BlockMapping ls fields := by
  obtain ⟨left, hr, -⟩ := readLines_eq_ok_iff.mp h
  cases hr with
  | nothing ha =>
    left
    unfold entries
    rw [ha]
  | @block _ _ rest _ line task _ ha ht hr =>
    unfold blockTask? at ht
    split_ifs at ht with hitem hkey
    · exact .inl (entries_eq_nil ha (splitKey?_of_isItemText hitem))
    · cases ht
      obtain ⟨es, hes, hv, hnd, -⟩ := hr.listed
      have he : entries ls = es := by
        unfold entries
        rw [ha]
        exact hes.entriesAt_eq
      have hbody : Listed line.indent (documentBody ls) es left :=
        hes.congr_active (by rw [← ha, active_active])
      exact .inr ⟨_, hv, ⟨line.indent, left, he ▸ hbody⟩, by rw [he], he ▸ hnd⟩
  | @inline _ _ rest _ line _ ha ht hr =>
    unfold blockTask? at ht
    split_ifs at ht with hitem hkey
    exact .inl (entries_eq_nil ha (by simpa using hkey))

theorem blockMapping_of_readLines {ls : List Line} {fields : Fields}
    (h : readLines ls = .ok (.object fields)) : entries ls = [] ∨ BlockMapping ls fields := by
  rcases entries_of_readLines h with hnil | ⟨_, hv, hb⟩
  · exact .inl hnil
  · cases hv
    exact .inr hb

namespace BlockMapping

variable {ls : List Line} {fields : Fields}

theorem standsIn (h : BlockMapping ls fields) {e : Entry} (he : e ∈ entries ls) :
    ∃ indent mid after, e.StandsIn indent ls mid after := by
  obtain ⟨indent, left, hl⟩ := h.listed
  obtain ⟨mid, after, hs⟩ := hl.standsIn he
  exact ⟨indent, mid, after, { hs with lines := hs.lines.trans (documentBody_suffix ls) }⟩

theorem get?_of_mem (h : BlockMapping ls fields) {e : Entry} (he : e ∈ entries ls) :
    Fields.get? e.key fields = some e.value := by
  rw [h.fields_eq]
  exact get?_fieldsFrom_of_mem he h.keys []

theorem get?_of_not_mem (h : BlockMapping ls fields) {key : Text}
    (hk : key ∉ (entries ls).map Entry.key) : Fields.get? key fields = none := by
  rw [h.fields_eq, get?_fieldsFrom_of_not_mem hk]
  rfl

end BlockMapping

/-! ### Lines by number -/

/-- The lines of a text that starts at line `n`. -/
def document (n : Nat) (t : Text) : List Line := Line.numbered n (Text.split '\n' t)

theorem Line.le_number {n : Nat} {raws : Lines} {l : Line} (h : l ∈ numbered n raws) :
    n ≤ l.number := by
  induction raws generalizing n with
  | nil => cases h
  | cons raw rest ih =>
    rcases List.mem_cons.mp h with rfl | h
    · exact Nat.le_refl n
    · exact Nat.le_of_succ_le (ih h)

theorem Line.eq_of_number_eq {n : Nat} {raws : Lines} {l l' : Line} (h : l ∈ numbered n raws)
    (h' : l' ∈ numbered n raws) (he : l.number = l'.number) : l = l' := by
  induction raws generalizing n with
  | nil => cases h
  | cons raw rest ih =>
    rcases List.mem_cons.mp h with rfl | h <;> rcases List.mem_cons.mp h' with rfl | h'
    · rfl
    · have := le_number h'
      simp only [← he, of] at this
      omega
    · have := le_number h
      simp only [he, of] at this
      omega
    · exact ih h h'

theorem Line.numbered_append (n : Nat) (raws raws' : Lines) :
    numbered n (raws ++ raws') = numbered n raws ++ numbered (n + raws.length) raws' := by
  induction raws generalizing n with
  | nil => rfl
  | cons raw raws ih =>
    rw [List.cons_append, numbered, numbered, ih, List.length_cons, Nat.add_right_comm]
    rfl

theorem Line.length_numbered (n : Nat) (raws : Lines) : (numbered n raws).length = raws.length := by
  induction raws generalizing n with
  | nil => rfl
  | cons raw rest ih => simp [numbered, ih]

theorem Line.number_of_suffix {n : Nat} {raws : Lines} {l : Line} {rest : List Line}
    (h : l :: rest <:+ numbered n raws) : l.number + rest.length + 1 = n + raws.length := by
  induction raws generalizing n with
  | nil => simp [numbered] at h
  | cons raw raws ih =>
    rcases List.suffix_cons_iff.mp h with h | h
    · obtain ⟨rfl, rfl⟩ := List.cons.inj h
      simp only [of, length_numbered, List.length_cons]
      omega
    · have := ih h
      simp only [List.length_cons]
      omega

/-- The number of its first line decides what is left of a document. -/
theorem Line.eq_of_suffix {n : Nat} {raws : Lines} {l l' : Line} {rest rest' : List Line}
    (h : l :: rest <:+ numbered n raws) (h' : l' :: rest' <:+ numbered n raws)
    (hnumber : l.number = l'.number) : l :: rest = l' :: rest' := by
  have hlength := number_of_suffix h
  have hlength' := number_of_suffix h'
  have hsame : (l :: rest).length = (l' :: rest').length := by
    simp only [List.length_cons]
    omega
  exact (List.suffix_of_suffix_length_le h h' hsame.le).eq_of_length hsame

/-- The lines are as they were cut from a text. -/
def AsCut (ls : List Line) : Prop := ∀ l ∈ ls, l = Line.of l.number l.raw

theorem AsCut.text {ls : List Line} (h : AsCut ls) {l : Line} (hl : l ∈ ls) :
    l.text = Text.trim l.raw :=
  congrArg Line.text (h l hl)

theorem AsCut.indent {ls : List Line} (h : AsCut ls) {l : Line} (hl : l ∈ ls) :
    l.indent = Lines.indent l.raw :=
  congrArg Line.indent (h l hl)

theorem numbered_asCut (n : Nat) (raws : Lines) : AsCut (Line.numbered n raws) := by
  induction raws generalizing n with
  | nil => simp [AsCut, Line.numbered]
  | cons raw rest ih =>
    intro l hl
    rcases List.mem_cons.mp hl with rfl | hl
    · rfl
    · exact ih (n + 1) l hl

theorem document_asCut (n : Nat) (t : Text) : AsCut (document n t) := numbered_asCut n _

end Outline
end TemplateDocs
