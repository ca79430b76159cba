import Mathlib
import TemplateDocs.Proofs.Basic
import TemplateDocs.Proofs.Outline.Entries
import TemplateDocs.Proofs.Outline.FlowReading

/-!
# What outlines hold

A mapping refuses a key that it has, and a whole number that is too long is no integer. So whatever is
read is tidy, at any depth and in either notation of collections.
-/
namespace TemplateDocs

namespace Json

/-- No object has a key twice, and integers fit 64 bits. -/
inductive Tidy : Value → Prop
  | null : Tidy .null
  | bool (b : Bool) : Tidy (.bool b)
  | int {i : Int} (h : -(twoTo 63 : Int) ≤ i ∧ i < twoTo 63) : Tidy (.number (.int i))
  | float (x : Float) : Tidy (.number (.float x))
  | string (s : Text) : Tidy (.string s)
  | array {items : List Value} (h : ∀ v ∈ items, Tidy v) : Tidy (.array items)
  | object {fields : Fields} (sorted : Fields.Sorted fields) (h : ∀ f ∈ fields, Tidy f.2) :
      Tidy (.object fields)

namespace Tidy

theorem distinctKeys {v : Value} (h : Tidy v) : DistinctKeys v := by
  induction h with
  | null => exact .null
  | bool b => exact .bool b
  | int h => exact .number _
  | float x => exact .number _
  | string s => exact .string s
  | array _ ih => exact .array ih
  | object sorted _ ih => exact .object sorted.nodup ih

theorem inside {v w : Value} (h : Tidy v) (hw : Inside w v) : Tidy w := by
  refine hw.of_hereditary ?_ ?_ h
  · intro items h
    cases h with
    | array h => exact h
  · intro fields h
    cases h with
    | object _ h => exact h

theorem insert {acc : Fields} (hacc : Tidy (.object acc)) (key : Text) {v : Value} (hv : Tidy v) :
    Tidy (.object (Fields.insert key v acc)) := by
  cases hacc with
  | object sorted hvalues =>
    refine .object (sorted.insert key v) ?_
    intro f hf
    rcases Fields.mem_insert hf with rfl | hf
    · exact hv
    · exact hvalues f hf

theorem empty : Tidy (.object []) := .object .nil (by simp)

end Tidy
end Json

namespace Outline

open Json (Value Fields Tidy)

theorem resolve_eq_string {t s : Text} (h : resolve t = .string s) : t = s := by
  unfold resolve at h
  split_ifs at h
  split at h
  · cases h
  · split at h
    · cases h
    · cases h
      rfl

/-- A plain text with a quote in it is a string. -/
theorem resolve_of_mark {t : Text} (h : '"' ∈ t) : resolve t = .string t := by
  have hwords : ∀ w ∈ nullWords ++ trueWords ++ falseWords, '"' ∉ w := by decide
  have hword : t ∉ nullWords ++ trueWords ++ falseWords := fun hm => hwords t hm h
  have hdigits : ∀ {u : Text} (acc : Nat), '"' ∈ u → Text.digitsFrom? 10 acc u = none := by
    intro u acc hu
    induction u generalizing acc with
    | nil => cases hu
    | cons c u ih =>
      rw [Text.digitsFrom?]
      split_ifs with hc
      · rcases List.mem_cons.mp hu with rfl | hu
        · exact absurd hc (by decide)
        · exact ih _ hu
      · rfl
  have hdigits? : ∀ {u : Text}, '"' ∈ u → Text.digits? 10 u = none := by
    intro u hu
    rw [Text.digits?, hdigits 0 hu, ite_self]
  have hint : smallInteger? t = none := by
    have hint : Text.integer? 10 t = none := by
      unfold Text.integer?
      split
      · rw [hdigits? (by simpa using h)]
        rfl
      · unfold Text.natural?
        split
        · rw [hdigits? (by simpa using h)]
          rfl
        · rw [hdigits? h]
          rfl
    rw [smallInteger?, hint, Option.bind_none]
  have hfloat : float? t = none := by
    have hnumeric : isNumeric t = false := by
      rw [isNumeric, Bool.and_eq_false_iff]
      left
      rw [List.all_eq_false]
      exact ⟨'"', h, by decide⟩
    simp [float?, hnumeric]
  simp only [List.mem_append, not_or] at hword
  simp [resolve, hword, hint, hfloat]

theorem resolve_tidy (t : Text) : Tidy (resolve t) := by
  unfold resolve
  split_ifs
  · exact .null
  · exact .bool true
  · exact .bool false
  · cases hint : smallInteger? t with
    | some i =>
      obtain ⟨j, -, hj⟩ := Option.bind_eq_some_iff.mp hint
      split_ifs at hj with hrange
      cases hj
      exact .int hrange
    | none =>
      cases hfloat : float? t with
      | none => exact .string t
      | some n =>
        unfold float? at hfloat
        split_ifs at hfloat
        obtain ⟨d, -, hd⟩ := Option.bind_eq_some_iff.mp hfloat
        unfold Json.Number.ofFloat? at hd
        split_ifs at hd
        cases hd
        exact .float _

namespace Flow

/-- Fields are added to those read before. -/
def Part.Tidy : Part → Prop
  | .value v | .slot v => Json.Tidy v
  | .items vs => ∀ v ∈ vs, Json.Tidy v
  | .key _ => True
  | .fields acc fs => Json.Tidy (.object acc) → Json.Tidy (.object fs)

theorem Takes.tidy {part : Part} {t r : Text} {ps : List Text} (h : Takes part t ps r) :
    part.Tidy := by
  induction h with
  | array _ _ ih => exact .array ih
  | object _ _ ih => exact ih .empty
  | quoted => exact .string _
  | plain => exact resolve_tidy _
  | itemsEnd => exact List.forall_mem_nil _
  | itemsLast _ _ _ ih => exact List.forall_mem_singleton.mpr ih
  | itemsMore _ _ _ _ ihv ihr => exact List.forall_mem_cons.mpr ⟨ihv, ihr⟩
  | keyQuoted | keyPlain => trivial
  | slotValue _ _ ih => exact ih
  | slotNull => exact .null
  | fieldsEnd => exact id
  | fieldsLast _ _ _ _ _ _ _ ihv => exact fun hacc => hacc.insert _ ihv
  | fieldsMore _ _ _ _ _ _ _ _ ihv ihr => exact fun hacc => ihr (hacc.insert _ ihv)

/-- What opens with a bracket or a brace is no text. -/
theorem read_ne_string {c : Char} {t s : Text} (hc : isOpening c = true) :
    read (c :: t) ≠ .ok (.string s) := by
  have hspace : Text.isSpace c = false := by
    rw [isOpening, Bool.or_eq_true, decide_eq_true_iff, decide_eq_true_iff] at hc
    rcases hc with rfl | rfl <;> decide
  have hstart : Text.trimStart (c :: t) = c :: t := Text.trimStart_of_head (by simpa using hspace)
  intro h
  obtain ⟨r, hread, hr⟩ := Except.map_eq_ok_iff.mp h
  rw [readValue] at hread
  split at hread
  · obtain ⟨items, -, rfl⟩ := Except.map_eq_ok_iff.mp hread
    cases hr
  · obtain ⟨fields, -, rfl⟩ := Except.map_eq_ok_iff.mp hread
    cases hr
  · next hbracket hbrace =>
    rw [isOpening, Bool.or_eq_true, decide_eq_true_iff, decide_eq_true_iff] at hc
    rcases hc with rfl | rfl
    · exact hbracket t hstart
    · exact hbrace t hstart

theorem collection?_cons {c : Char} {t front trailing : Text} {depth : Nat} (hc : isOpening c = true)
    (h : collection? depth (c :: t) = some (front, trailing)) : ∃ rest, front = c :: rest := by
  have hquote : isQuote c = false := by
    rw [isOpening, Bool.or_eq_true, decide_eq_true_iff, decide_eq_true_iff] at hc
    rcases hc with rfl | rfl <;> decide
  rw [collection?, hquote, if_neg (by decide), if_pos hc] at h
  obtain ⟨⟨s, r⟩, -, he⟩ := Option.map_eq_some_iff.mp h
  cases he
  exact ⟨s, rfl⟩

theorem read_tidy {t : Text} {v : Value} (h : read t = .ok v) : Tidy v := by
  unfold read at h
  cases hread : readValue t with
  | error e => simp [hread, Except.map] at h
  | ok r =>
    simp only [hread, Except.map, Except.ok.injEq] at h
    subst h
    obtain ⟨ps, htakes⟩ := takes_of_readValue hread
    exact htakes.tidy

end Flow

theorem readInline_tidy {text : Text} {line : Line} {parent : Option Nat} {ls left : List Line}
    {v : Value} (h : (readInline text line parent ls).map Read.parts = .ok (v, left)) : Tidy v := by
  rcases readInline_cases text line parent with hr | hr | hr | hr
  · rw [hr, readBlock_parts] at h
    split at h
    · cases h
    · dsimp only at h
      split_ifs at h <;> cases h
      · exact .string _
      · exact .string _
  · rw [hr, readQuoted_parts] at h
    obtain ⟨front, -, -, hfront, -⟩ := finish_ok h
    cases hq : unquoted front with
    | error fault => simp [hq, Except.map] at hfront
    | ok s =>
      simp only [hq, Except.map, Except.ok.injEq] at hfront
      subst hfront
      exact .string s
  · rw [hr, readFlow_parts] at h
    obtain ⟨front, -, -, hfront, -⟩ := finish_ok h
    exact Flow.read_tidy hfront
  · rw [hr] at h
    cases h
    exact resolve_tidy _

/-- A mapping goes on from fields that are tidy. -/
def Task.Tidy : Task → Prop
  | .mapping _ acc => Json.Tidy (.object acc)
  | _ => True

theorem Reads.tidy {task : Task} {ls left : List Line} {v : Value} (h : Reads task ls v left)
    (ht : task.Tidy) : Json.Tidy v := by
  induction h with
  | nothing | itemNull | entryNull => exact .null
  | @block parent ls rest left line task v _ htask _ ih =>
    apply ih
    unfold blockTask? at htask
    split_ifs at htask <;> cases htask
    · trivial
    · exact .empty
  | inline _ _ hr => exact readInline_tidy hr
  | mappingEnd => exact ht
  | mappingEntry _ _ _ _ _ _ ihv ihr => exact ihr (ht.insert _ (ihv trivial))
  | sequenceEnd => exact .array (by simp)
  | sequenceItem _ _ _ _ _ ihv ihr =>
    cases ihr trivial with
    | array hvs => exact .array (List.forall_mem_cons.mpr ⟨ihv trivial, hvs⟩)
  | itemBelow _ _ _ _ ih => exact ih trivial
  | itemInline _ _ ih => exact ih trivial
  | entryBelow _ _ _ _ ih => exact ih trivial
  | entryList _ _ _ _ _ ih => exact ih trivial
  | entryInline _ hr => exact readInline_tidy hr

/-- Whatever is read from a text is tidy. -/
theorem read_tidy {t : Text} {n : Nat} {v : Value} (h : read t n = .ok v) : Tidy v := by
  obtain ⟨left, hreads, -⟩ := readLines_eq_ok_iff.mp h
  exact hreads.tidy trivial

end Outline
end TemplateDocs
