import Mathlib
import TemplateDocs.Json.Value
import TemplateDocs.Proofs.Text

/-!
# Objects as records

An object is what it holds under each key. Two values are the same where they differ at most in the
order of fields. A record is written as a sheet: a list of keys, some of which have a value.
-/
namespace TemplateDocs.Json

/-- No object in the value has a key twice. -/
inductive DistinctKeys : Value → Prop
  | null : DistinctKeys .null
  | bool (b : Bool) : DistinctKeys (.bool b)
  | number (n : Number) : DistinctKeys (.number n)
  | string (s : Text) : DistinctKeys (.string s)
  | array {items : List Value} (h : ∀ v ∈ items, DistinctKeys v) : DistinctKeys (.array items)
  | object {fields : Fields} (keys : (fields.map Prod.fst).Nodup)
      (h : ∀ f ∈ fields, DistinctKeys f.2) : DistinctKeys (.object fields)

/-- A value is part of another one, at any depth. -/
inductive Inside (w : Value) : Value → Prop
  | whole : Inside w w
  | item {v : Value} {items : List Value} (hv : v ∈ items) (h : Inside w v) : Inside w (.array items)
  | field {f : Text × Value} {fields : Fields} (hf : f ∈ fields) (h : Inside w f.2) :
      Inside w (.object fields)

theorem Inside.trans {u v w : Value} (h : Inside u v) (hv : Inside v w) : Inside u w := by
  induction hv with
  | whole => exact h
  | item hmem _ ih => exact .item hmem ih
  | field hmem _ ih => exact .field hmem ih

/-- What goes over from collections to what is in them goes over to every part. -/
theorem Inside.of_hereditary {P : Value → Prop}
    (harray : ∀ items, P (.array items) → ∀ v ∈ items, P v)
    (hobject : ∀ fields, P (.object fields) → ∀ f ∈ fields, P f.2) {v w : Value} (hw : Inside w v)
    (h : P v) : P w := by
  induction hw with
  | whole => exact h
  | item hv _ ih => exact ih (harray _ h _ hv)
  | field hf _ ih => exact ih (hobject _ h _ hf)

theorem DistinctKeys.inside {v w : Value} (h : DistinctKeys v) (hw : Inside w v) : DistinctKeys w := by
  refine hw.of_hereditary ?_ ?_ h
  · intro items h
    cases h with
    | array h => exact h
  · intro fields h
    cases h with
    | object _ h => exact h

/-- Equality of values up to the order of fields. -/
inductive Same : Value → Value → Prop
  | refl (v : Value) : Same v v
  | array {xs ys : List Value} (h : List.Forall₂ Same xs ys) : Same (.array xs) (.array ys)
  | object {fs gs : Fields} (h : ∀ key, Option.Rel Same (Fields.get? key fs) (Fields.get? key gs)) :
      Same (.object fs) (.object gs)

theorem Same.option_refl (v : Option Value) : Option.Rel Same v v := by
  cases v with
  | none => exact .none
  | some v => exact .some (.refl v)

namespace Fields

theorem get?_insert (key k : Text) (v : Value) (fields : Fields) :
    get? key (insert k v fields) = if k = key then some v else get? key fields := by
  induction fields with
  | nil => rfl
  | cons entry rest ih =>
    obtain ⟨k', v'⟩ := entry
    rw [insert]
    by_cases h1 : k' = k
    · subst h1
      by_cases h : k' = key <;> simp [get?, h]
    · by_cases h2 : Text.precedes k k'
      · simp [h1, h2, get?]
      · by_cases h3 : k' = key
        · subst h3
          simp [get?, h1, h2, Ne.symm h1]
        · simp [get?, h1, h2, h3, ih]

theorem has_insert (key : Text) (v : Value) (fields : Fields) : has key (insert key v fields) = true := by
  rw [has, get?_insert, if_pos rfl]
  rfl

theorem get?_eq_none_iff {key : Text} {fields : Fields} :
    get? key fields = none ↔ key ∉ fields.map Prod.fst := by
  induction fields with
  | nil => simp [get?]
  | cons f rest ih =>
    obtain ⟨k, v⟩ := f
    by_cases h : k = key
    · simp [get?, h]
    · simp [get?, h, ih, Ne.symm h]

theorem mem_of_get? {key : Text} {fields : Fields} {v : Value} (h : get? key fields = some v) :
    (key, v) ∈ fields := by
  induction fields with
  | nil => cases h
  | cons f rest ih =>
    obtain ⟨k, w⟩ := f
    rw [get?] at h
    split_ifs at h with hk
    · cases h
      subst hk
      exact List.mem_cons_self
    · exact List.mem_cons_of_mem _ (ih h)

theorem get?_of_mem {key : Text} {fields : Fields} {v : Value} (hkeys : (fields.map Prod.fst).Nodup)
    (h : (key, v) ∈ fields) : get? key fields = some v := by
  cases hget : get? key fields with
  | none => exact absurd (List.mem_map_of_mem h) (get?_eq_none_iff.mp hget)
  | some w =>
    have hsame := List.inj_on_of_nodup_map hkeys (mem_of_get? hget) h rfl
    rw [Prod.mk.injEq] at hsame
    rw [hsame.2]

theorem get?_append (key : Text) (fs gs : Fields) :
    get? key (fs ++ gs) = (get? key fs).or (get? key gs) := by
  induction fs with
  | nil => rfl
  | cons f rest ih =>
    obtain ⟨k, v⟩ := f
    rw [List.cons_append, get?, get?, ih]
    split_ifs <;> rfl

theorem get?_filter {fields : Fields} (h : (fields.map Prod.fst).Nodup) (p : Text × Value → Bool)
    (key : Text) : get? key (fields.filter p) = (get? key fields).filter fun v => p (key, v) := by
  induction fields with
  | nil => rfl
  | cons f rest ih =>
    obtain ⟨k, v⟩ := f
    rw [List.map_cons, List.nodup_cons] at h
    have hrest := ih h.2
    by_cases hk : k = key
    · subst hk
      rw [get?_eq_none_iff.mpr h.1] at hrest
      by_cases hp : p (k, v) = true
      · simp [hp, get?, Option.filter]
      · simp [hp, get?, hrest, Option.filter]
    · by_cases hp : p (k, v) = true
      · simp [hp, get?, hk, hrest]
      · simp [hp, get?, hk, hrest]

/-- The fields are in the order of their keys, and no key is there twice. -/
def Sorted (fields : Fields) : Prop := (fields.map Prod.fst).Pairwise (Text.precedes · ·)

theorem Sorted.nodup {fields : Fields} (h : Sorted fields) : (fields.map Prod.fst).Nodup := by
  refine List.Pairwise.imp ?_ h
  rintro s t hst rfl
  rw [Text.precedes_irrefl] at hst
  cases hst

theorem mem_insert {key : Text} {v : Value} {fields : Fields} {f : Text × Value}
    (h : f ∈ insert key v fields) : f = (key, v) ∨ f ∈ fields := by
  induction fields with
  | nil => exact .inl (List.mem_singleton.mp h)
  | cons entry rest ih =>
    obtain ⟨k, w⟩ := entry
    rw [insert] at h
    split_ifs at h
    · exact (List.mem_cons.mp h).imp_right (List.mem_cons_of_mem _)
    · exact List.mem_cons.mp h
    · rcases List.mem_cons.mp h with rfl | h
      · exact .inr List.mem_cons_self
      · exact (ih h).imp_right (List.mem_cons_of_mem _)

theorem Sorted.insert {fields : Fields} (h : Sorted fields) (key : Text) (v : Value) :
    Sorted (Fields.insert key v fields) := by
  induction fields with
  | nil => exact List.pairwise_singleton _ _
  | cons entry rest ih =>
    obtain ⟨k, w⟩ := entry
    obtain ⟨hfirst, hrest⟩ := List.pairwise_cons.mp h
    rw [Fields.insert]
    split_ifs with heq hbefore
    · subst heq
      exact h
    · refine List.pairwise_cons.mpr ⟨?_, h⟩
      intro other hother
      rcases List.mem_cons.mp hother with rfl | hother
      · exact hbefore
      · exact Text.precedes_trans hbefore (hfirst other hother)
    · refine List.pairwise_cons.mpr ⟨?_, ih hrest⟩
      intro other hother
      obtain ⟨f, hf, rfl⟩ := List.mem_map.mp hother
      rcases mem_insert hf with rfl | hf
      · exact Text.precedes_of_not (Ne.symm heq) hbefore
      · exact hfirst f.1 (List.mem_map_of_mem hf)

theorem insert_of_lt {key k : Text} (h : key < k) (v w : Value) (rest : Fields) :
    insert key v ((k, w) :: rest) = (key, v) :: (k, w) :: rest := by
  rw [insert, if_neg h.ne', if_pos (Text.precedes_iff.mpr h)]

theorem insert_of_gt {key k : Text} (h : k < key) (v w : Value) (rest : Fields) :
    insert key v ((k, w) :: rest) = (k, w) :: insert key v rest := by
  rw [insert, if_neg h.ne, if_neg fun hp => h.not_gt (Text.precedes_iff.mp hp)]

theorem insert_self (key : Text) (v w : Value) (rest : Fields) :
    insert key v ((key, w) :: rest) = (key, v) :: rest := if_pos rfl

/-- Entries of different keys can be put in either order. -/
theorem insert_comm {k k' : Text} (hne : k ≠ k') (v v' : Value) (fields : Fields) :
    insert k v (insert k' v' fields) = insert k' v' (insert k v fields) := by
  wlog h : k < k' generalizing k k' v v'
  · exact (this hne.symm v' v (lt_of_le_of_ne (not_lt.mp h) hne.symm)).symm
  induction fields with
  | nil => rw [insert, insert, insert_of_lt h, insert_of_gt h, insert]
  | cons f rest ih =>
    obtain ⟨l, w⟩ := f
    rcases lt_trichotomy l k with hl | rfl | hl
    · simp only [insert_of_gt hl, insert_of_gt (hl.trans h), ih]
    · simp only [insert_of_gt h, insert_self]
    · simp only [insert_of_lt hl, insert_of_gt h]
      rcases lt_trichotomy l k' with hl' | rfl | hl'
      · simp only [insert_of_gt hl', insert_of_lt hl]
      · simp only [insert_self, insert_of_lt hl]
      · simp only [insert_of_lt hl', insert_of_lt h]

theorem mem_overlay {lower upper : Fields} {f : Text × Value} (h : f ∈ overlay lower upper) :
    f ∈ lower ∨ f ∈ upper := by
  induction upper generalizing lower with
  | nil => exact .inl h
  | cons entry rest ih =>
    rcases ih h with h | h
    · rcases mem_insert h with rfl | h
      · exact .inr List.mem_cons_self
      · exact .inl h
    · exact .inr (List.mem_cons_of_mem _ h)

theorem Sorted.overlay {lower : Fields} (h : Sorted lower) (upper : Fields) :
    Sorted (Fields.overlay lower upper) := by
  induction upper generalizing lower with
  | nil => exact h
  | cons entry rest ih => exact ih (h.insert entry.1 entry.2)

/-- What lies over other fields is found first; a key that it has not is looked up below. -/
theorem get?_overlay (lower : Fields) {upper : Fields} (h : (upper.map Prod.fst).Nodup) (key : Text) :
    get? key (overlay lower upper) = (get? key upper).or (get? key lower) := by
  induction upper generalizing lower with
  | nil => rfl
  | cons entry rest ih =>
    obtain ⟨k, v⟩ := entry
    rw [List.map_cons, List.nodup_cons] at h
    have hrest := ih (insert k v lower) h.2
    rw [get?_insert] at hrest
    refine hrest.trans ?_
    rw [get?]
    split_ifs with hk
    · rw [← hk, get?_eq_none_iff.mpr h.1]
      rfl
    · rfl

end Fields

/-! ### Sheets -/

/-- The entries of the keys that have a value. -/
def sheet (slots : List (Text × Option Value)) : Fields :=
  slots.flatMap fun slot => (slot.2.map fun v => (slot.1, v)).toList

namespace sheet

variable {slots : List (Text × Option Value)} {extra : Fields} {key : Text}

theorem mem_iff {f : Text × Value} : f ∈ sheet slots ↔ (f.1, some f.2) ∈ slots := by
  obtain ⟨k, v⟩ := f
  simp only [sheet, List.mem_flatMap, Option.mem_toList, Option.map_eq_some_iff, Prod.mk.injEq,
    Prod.exists]
  constructor
  · rintro ⟨_, _, hmem, _, rfl, rfl, rfl⟩
    exact hmem
  · exact fun hmem => ⟨k, some v, hmem, v, rfl, rfl, rfl⟩

theorem keys_sublist (slots : List (Text × Option Value)) :
    ((sheet slots).map Prod.fst).Sublist (slots.map Prod.fst) := by
  induction slots with
  | nil => exact .slnil
  | cons slot slots ih =>
    obtain ⟨k, v⟩ := slot
    cases v with
    | none => exact ih.cons k
    | some v => exact ih.cons_cons k

theorem get?_of_not_mem (h : key ∉ slots.map Prod.fst) :
    Fields.get? key (sheet slots ++ extra) = Fields.get? key extra := by
  have hnone : Fields.get? key (sheet slots) = none :=
    Fields.get?_eq_none_iff.mpr fun hmem => h ((keys_sublist slots).subset hmem)
  rw [Fields.get?_append, hnone, Option.none_or]

theorem get?_of_mem {v : Option Value} (hnd : (slots.map Prod.fst).Nodup)
    (hextra : key ∉ extra.map Prod.fst) (h : (key, v) ∈ slots) :
    Fields.get? key (sheet slots ++ extra) = v := by
  induction slots with
  | nil => cases h
  | cons slot slots ih =>
    obtain ⟨k, w⟩ := slot
    rw [List.map_cons, List.nodup_cons] at hnd
    have hsplit : sheet ((k, w) :: slots) ++ extra =
        (w.map fun v => (k, v)).toList ++ (sheet slots ++ extra) := List.append_assoc _ _ _
    rw [hsplit, Fields.get?_append]
    rcases List.mem_cons.mp h with heq | hmem
    · cases heq
      rw [get?_of_not_mem hnd.1, Fields.get?_eq_none_iff.mpr hextra, Option.or_none]
      cases v with
      | none => rfl
      | some v => exact if_pos rfl
    · have hne : k ≠ key := by
        rintro rfl
        exact hnd.1 (List.mem_map.mpr ⟨_, hmem, rfl⟩)
      have hfirst : Fields.get? key (w.map fun v => (k, v)).toList = none := by
        cases w with
        | none => rfl
        | some w => exact if_neg hne
      rw [hfirst, Option.none_or, ih hnd.2 hmem]

/-- A sheet and further entries make an object without repeated keys. -/
theorem distinctKeys (hnd : (slots.map Prod.fst).Nodup) (hextra : (extra.map Prod.fst).Nodup)
    (hdisjoint : ∀ key ∈ slots.map Prod.fst, key ∉ extra.map Prod.fst)
    (hslots : ∀ slot ∈ slots, ∀ v ∈ slot.2, DistinctKeys v)
    (hvalues : ∀ f ∈ extra, DistinctKeys f.2) : DistinctKeys (.object (sheet slots ++ extra)) := by
  have hsub := keys_sublist slots
  refine .object ?_ ?_
  · rw [List.map_append, List.nodup_append']
    exact ⟨hnd.sublist hsub, hextra, fun key hkey => hdisjoint key (hsub.subset hkey)⟩
  · intro f hf
    rcases List.mem_append.mp hf with hf | hf
    · exact hslots _ (mem_iff.mp hf) f.2 rfl
    · exact hvalues f hf

end sheet
end TemplateDocs.Json
