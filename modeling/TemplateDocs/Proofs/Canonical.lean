import Mathlib
import TemplateDocs.Json.Writer
import TemplateDocs.Proofs.Capture
import TemplateDocs.Proofs.Records

/-!
# Values in canonical form

A value that was read has its fields in the order of their keys, no key twice, and integers of 64
bits. Such fields are built by adding each entry after the ones before it.
-/
namespace TemplateDocs

namespace Text

theorem integer?_ofInt (i : Int) : integer? 10 (ofInt i) = some i := by
  unfold ofInt
  split_ifs with hi
  · rw [integer?, digits?_ofNat]
    simp only [Option.map_some, Option.some.injEq]
    omega
  · unfold integer?
    split
    · next t ht =>
      have := isDigit_of_mem_ofNat (n := i.natAbs) (c := '-') (by rw [ht]; simp)
      simp at this
    · rw [natural?_ofNat]
      simp only [Option.map_some, Option.some.injEq, Int.ofNat_eq_natCast]
      omega

/-- The characters of an integer. -/
theorem mem_ofInt {i : Int} {c : Char} (h : c ∈ ofInt i) : c.isDigit = true ∨ c = '-' := by
  unfold ofInt at h
  split_ifs at h
  · rcases List.mem_cons.mp h with rfl | h
    · exact .inr rfl
    · exact .inl (isDigit_of_mem_ofNat h)
  · exact .inl (isDigit_of_mem_ofNat h)

theorem ofInt_ne_nil (i : Int) : ofInt i ≠ [] := by
  unfold ofInt
  split_ifs
  · simp
  · exact ofNat_ne_nil _

theorem ofInt_ne_dash (i : Int) : ofInt i ≠ ['-'] := by
  intro h
  unfold ofInt at h
  split_ifs at h
  · exact ofNat_ne_nil _ (List.cons.inj h).2
  · have := isDigit_of_mem_ofNat (n := i.natAbs) (c := '-') (by rw [h]; simp)
    simp at this

end Text

namespace Json

/-- Values that are written as one word: null, booleans and integers of 64 bits. -/
inductive Plain : Value → Prop
  | null : Plain .null
  | bool (b : Bool) : Plain (.bool b)
  | int {i : Int} (h : -(twoTo 63 : Int) ≤ i ∧ i < twoTo 63) : Plain (.number (.int i))

/-- Plain values and strings, and collections of them whose fields are in the order of their keys.
Every string and every key meets the condition stated for it. -/
inductive Canonical (string key : Text → Prop) : Value → Prop
  | plain {v : Value} (h : Plain v) : Canonical string key v
  | string {s : Text} (h : string s) : Canonical string key (.string s)
  | array {items : List Value} (h : ∀ v ∈ items, Canonical string key v) :
      Canonical string key (.array items)
  | object {fields : Fields} (sorted : (fields.map Prod.fst).Pairwise (Text.precedes · ·))
      (keys : ∀ f ∈ fields, key f.1) (h : ∀ f ∈ fields, Canonical string key f.2) :
      Canonical string key (.object fields)

/-- Arrays and objects. -/
inductive Collection : Value → Prop
  | array (items : List Value) : Collection (.array items)
  | object (fields : Fields) : Collection (.object fields)

namespace Fields

theorem has_eq_false {key : Text} {fields : Fields} (h : ∀ f ∈ fields, Text.precedes f.1 key) :
    has key fields = false := by
  induction fields with
  | nil => rfl
  | cons f rest ih =>
    obtain ⟨k, v⟩ := f
    have hk : k ≠ key := by
      rintro rfl
      have := h (k, v) (by simp)
      simp [Text.precedes_irrefl] at this
    have := ih fun f hf => h f (by simp [hf])
    simpa [has, get?, hk] using this

/-- An entry whose key comes after all others is put at the end. -/
theorem insert_last {key : Text} {v : Value} {fields : Fields}
    (h : ∀ f ∈ fields, Text.precedes f.1 key) : insert key v fields = fields ++ [(key, v)] := by
  induction fields with
  | nil => rfl
  | cons f rest ih =>
    obtain ⟨k, w⟩ := f
    have hk := h (k, w) (by simp)
    have hne : k ≠ key := by
      rintro rfl
      simp [Text.precedes_irrefl] at hk
    rw [insert, if_neg hne, Text.precedes_asymm hk, if_neg (by simp),
      ih fun f hf => h f (by simp [hf])]
    rfl

/-- In sorted fields every key comes after the keys before it. -/
theorem precedes_of_sorted {acc rest : Fields} {key : Text} {v : Value}
    (h : ((acc ++ (key, v) :: rest).map Prod.fst).Pairwise (Text.precedes · ·)) :
    ∀ f ∈ acc, Text.precedes f.1 key := by
  intro f hf
  rw [List.map_append, List.pairwise_append] at h
  exact h.2.2 f.1 (List.mem_map_of_mem hf) key (by simp)

end Fields
end Json

end TemplateDocs
