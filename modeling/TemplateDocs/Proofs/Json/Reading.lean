import Mathlib
import TemplateDocs.Proofs.Json.Tokens
import TemplateDocs.Proofs.Records

/-!
# Reading the tokens of a value

The tokens of a value are read as that value with its fields in order, unless it is nested too deep.
-/
namespace TemplateDocs.Json

/-! ### Parts of a value -/

/-- What holds of a collection if it holds of its parts holds of every value. -/
@[elab_as_elim]
theorem Value.induction {P : Value → Prop} (null : P .null) (bool : ∀ b, P (.bool b))
    (number : ∀ n, P (.number n)) (string : ∀ s, P (.string s))
    (array : ∀ items, (∀ v ∈ items, P v) → P (.array items))
    (object : ∀ fields : Fields, (∀ f ∈ fields, P f.2) → P (.object fields)) (v : Value) : P v := by
  induction hn : sizeOf v using Nat.strong_induction_on generalizing v with
  | _ n ih =>
    subst hn
    cases v with
    | null => exact null
    | bool b => exact bool b
    | number n => exact number n
    | string s => exact string s
    | array items =>
      refine array items fun v hv => ih _ ?_ v rfl
      have hsize := List.sizeOf_lt_of_mem hv
      simp only [Value.array.sizeOf_spec]
      omega
    | object fields =>
      refine object fields fun f hf => ih _ ?_ f.2 rfl
      have hsize := List.sizeOf_lt_of_mem hf
      obtain ⟨k, v⟩ := f
      simp only [Prod.mk.sizeOf_spec, Value.object.sizeOf_spec] at hsize ⊢
      omega

mutual

/-- The numbers in a value. -/
def numbers : Value → List Number
  | .null => []
  | .bool _ => []
  | .number n => [n]
  | .string _ => []
  | .array items => itemNumbers items
  | .object fields => fieldNumbers fields

def itemNumbers : List Value → List Number
  | [] => []
  | v :: rest => numbers v ++ itemNumbers rest

def fieldNumbers : List (Text × Value) → List Number
  | [] => []
  | (_, v) :: rest => numbers v ++ fieldNumbers rest

end

theorem mem_itemNumbers {n : Number} {v : Value} {items : List Value} (hv : v ∈ items)
    (h : n ∈ numbers v) : n ∈ itemNumbers items := by
  induction items with
  | nil => cases hv
  | cons w rest ih =>
    rw [itemNumbers]
    rcases List.mem_cons.mp hv with rfl | hv
    · exact List.mem_append_left _ h
    · exact List.mem_append_right _ (ih hv)

theorem mem_fieldNumbers {n : Number} {f : Text × Value} {fields : Fields} (hf : f ∈ fields)
    (h : n ∈ numbers f.2) : n ∈ fieldNumbers fields := by
  induction fields with
  | nil => cases hf
  | cons g rest ih =>
    obtain ⟨k, v⟩ := g
    rw [fieldNumbers]
    rcases List.mem_cons.mp hf with rfl | hf
    · exact List.mem_append_left _ h
    · exact List.mem_append_right _ (ih hf)

theorem mem_numbers_of_inside {n : Number} {v : Value} (h : Inside (.number n) v) :
    n ∈ numbers v := by
  induction h with
  | whole => exact List.mem_singleton_self n
  | item hv _ ih => exact mem_itemNumbers hv ih
  | field hf _ ih => exact mem_fieldNumbers hf ih

def Number.isInt : Number → Bool
  | .int _ => true
  | .float _ => false

theorem integral_of_inside {v : Value} (h : ∀ n, Inside (.number n) v →
    ∃ i, n = .int i ∧ -(twoTo 63 : Int) ≤ i ∧ i < twoTo 63) : Integral v := by
  induction v using Value.induction with
  | null => exact .null
  | bool b => exact .bool b
  | number n =>
    obtain ⟨i, rfl, hi⟩ := h n .whole
    exact .int hi
  | string s => exact .string s
  | array items ih => exact .array fun v hv => ih v hv fun n hn => h n (.item hv hn)
  | object fields ih => exact .object fun f hf => ih f hf fun n hn => h n (.field hf hn)

theorem Integral.inside {v w : Value} (h : Integral v) (hw : Inside w v) : Integral w := by
  refine hw.of_hereditary ?_ ?_ h
  · intro items h
    cases h with
    | array h => exact h
  · intro fields h
    cases h with
    | object h => exact h

/-! ### Depth and order -/

mutual

/-- How many brackets are open at the deepest place of a value. -/
def depth : Value → Nat
  | .null => 0
  | .bool _ => 0
  | .number _ => 0
  | .string _ => 0
  | .array items => itemDepth items + 1
  | .object fields => fieldDepth fields + 1

def itemDepth : List Value → Nat
  | [] => 0
  | v :: rest => max (depth v) (itemDepth rest)

def fieldDepth : List (Text × Value) → Nat
  | [] => 0
  | (_, v) :: rest => max (depth v) (fieldDepth rest)

end

mutual

/-- The value with its fields in the order of their keys, at every depth. -/
def arranged : Value → Value
  | .null => .null
  | .bool b => .bool b
  | .number n => .number n
  | .string s => .string s
  | .array items => .array (arrangedItems items)
  | .object fields => .object (Fields.ofList (arrangedFields fields))

def arrangedItems : List Value → List Value
  | [] => []
  | v :: rest => arranged v :: arrangedItems rest

def arrangedFields : List (Text × Value) → List (Text × Value)
  | [] => []
  | (k, v) :: rest => (k, arranged v) :: arrangedFields rest

end

theorem arrangedItems_eq_map (items : List Value) : arrangedItems items = items.map arranged := by
  induction items with
  | nil => rfl
  | cons v rest ih => rw [arrangedItems, ih, List.map_cons]

theorem arrangedFields_eq_map (fields : Fields) :
    arrangedFields fields = fields.map fun f => (f.1, arranged f.2) := by
  induction fields with
  | nil => rfl
  | cons f rest ih => rw [arrangedFields, ih, List.map_cons]

theorem get?_arrangedFields (key : Text) (fields : Fields) :
    Fields.get? key (arrangedFields fields) = (Fields.get? key fields).map arranged := by
  induction fields with
  | nil => rfl
  | cons f rest ih =>
    obtain ⟨k, v⟩ := f
    rw [arrangedFields, Fields.get?, Fields.get?, ih]
    split_ifs <;> rfl

/-- What stands under a key after the fields were put in order. -/
theorem get?_ofList_arrangedFields {fields : Fields} (h : (fields.map Prod.fst).Nodup) (key : Text) :
    Fields.get? key (Fields.ofList (arrangedFields fields)) =
      (Fields.get? key fields).map arranged := by
  have hkeys : (arrangedFields fields).map Prod.fst = fields.map Prod.fst := by
    rw [arrangedFields_eq_map, List.map_map]
    rfl
  rw [Fields.ofList, Fields.get?_overlay _ (hkeys ▸ h), get?_arrangedFields]
  cases Fields.get? key fields <;> rfl

theorem same_arranged {v : Value} (h : DistinctKeys v) : Same (arranged v) v := by
  induction h with
  | null => exact .refl _
  | bool b => exact .refl _
  | number n => exact .refl _
  | string s => exact .refl _
  | @array items _ ih =>
    rw [arranged, arrangedItems_eq_map]
    refine .array (List.forall₂_map_left_iff.mpr ?_)
    exact List.forall₂_same.mpr ih
  | @object fields keys _ ih =>
    rw [arranged]
    refine .object fun key => ?_
    rw [get?_ofList_arrangedFields keys]
    cases hget : Fields.get? key fields with
    | none => exact .none
    | some v => exact .some (ih _ (Fields.mem_of_get? hget))

theorem distinctKeys_arranged (v : Value) : DistinctKeys (arranged v) := by
  induction v using Value.induction with
  | null => exact .null
  | bool b => exact .bool b
  | number n => exact .number n
  | string s => exact .string s
  | array items ih =>
    rw [arranged, arrangedItems_eq_map]
    refine .array fun v hv => ?_
    obtain ⟨w, hw, rfl⟩ := List.mem_map.mp hv
    exact ih w hw
  | object fields ih =>
    rw [arranged]
    have hempty : Fields.Sorted [] := .nil
    refine .object (hempty.overlay _).nodup fun f hf => ?_
    rcases Fields.mem_overlay hf with hf | hf
    · cases hf
    · rw [arrangedFields_eq_map] at hf
      obtain ⟨g, hg, rfl⟩ := List.mem_map.mp hf
      exact ih g hg

/-! ### The readers without their bounds -/

def takeValue (depth : Nat) (ts : List Token) : Option (Value × List Token) :=
  (readValue depth ts).map fun r => (r.value, r.rest)

def takeItems (depth : Nat) (ts : List Token) : Option (List Value × List Token) :=
  (readItems depth ts).map fun r => (r.value, r.rest)

def takeFields (depth : Nat) (ts : List Token) : Option (Fields × List Token) :=
  (readFields depth ts).map fun r => (r.value, r.rest)

section

variable {d : Nat} {ts rest : List Token}

theorem takeValue_scalar (d : Nat) (v : Value) (ts : List Token) :
    takeValue d (.scalar v :: ts) = some (v, ts) := by
  rw [takeValue, readValue]
  rfl

theorem takeValue_array_nil (d : Nat) (ts : List Token) :
    takeValue d (.openArray :: .closeArray :: ts) = if d = 0 then none else some (.array [], ts) := by
  rw [takeValue, readValue]
  split_ifs <;> rfl

theorem takeValue_object_nil (d : Nat) (ts : List Token) :
    takeValue d (.openObject :: .closeObject :: ts) = if d = 0 then none else some (.object [], ts) := by
  rw [takeValue, readValue]
  split_ifs <;> rfl

theorem takeValue_array_zero (h : ∀ r, ts ≠ .closeArray :: r) :
    takeValue 0 (.openArray :: ts) = none := by
  rw [takeValue, readValue]
  · rfl
  · exact h

theorem takeValue_array_succ (h : ∀ r, ts ≠ .closeArray :: r) :
    takeValue (d + 1) (.openArray :: ts) = (takeItems d ts).map fun p => (.array p.1, p.2) := by
  rw [takeValue, readValue, takeItems]
  · cases readItems d ts <;> rfl
  · exact h

theorem takeValue_object_zero (h : ∀ r, ts ≠ .closeObject :: r) :
    takeValue 0 (.openObject :: ts) = none := by
  rw [takeValue, readValue]
  · rfl
  · exact h

theorem takeValue_object_succ (h : ∀ r, ts ≠ .closeObject :: r) :
    takeValue (d + 1) (.openObject :: ts) =
      (takeFields d ts).map fun p => (.object (Fields.ofList p.1), p.2) := by
  rw [takeValue, readValue, takeFields]
  · cases readFields d ts <;> rfl
  · exact h

theorem takeItems_none (h : takeValue d ts = none) : takeItems d ts = none := by
  rw [takeValue, Option.map_eq_none_iff] at h
  rw [takeItems, readItems, h]
  rfl

theorem takeItems_last {v : Value} (h : takeValue d ts = some (v, .closeArray :: rest)) :
    takeItems d ts = some ([v], rest) := by
  obtain ⟨⟨v', r, hr⟩, hread, hparts⟩ := Option.map_eq_some_iff.mp h
  cases hparts
  rw [takeItems, readItems, hread]
  rfl

theorem takeItems_comma {v : Value} (h : takeValue d ts = some (v, .comma :: rest)) :
    takeItems d ts = (takeItems d rest).map fun p => (v :: p.1, p.2) := by
  obtain ⟨⟨v', r, hr⟩, hread, hparts⟩ := Option.map_eq_some_iff.mp h
  cases hparts
  rw [takeItems, readItems, hread, takeItems]
  dsimp only
  cases readItems d rest <;> rfl

theorem takeFields_none {k : Text} (h : takeValue d ts = none) :
    takeFields d (.scalar (.string k) :: .colon :: ts) = none := by
  rw [takeValue, Option.map_eq_none_iff] at h
  rw [takeFields, readFields, h]
  rfl

theorem takeFields_last {k : Text} {v : Value} (h : takeValue d ts = some (v, .closeObject :: rest)) :
    takeFields d (.scalar (.string k) :: .colon :: ts) = some ([(k, v)], rest) := by
  obtain ⟨⟨v', r, hr⟩, hread, hparts⟩ := Option.map_eq_some_iff.mp h
  cases hparts
  rw [takeFields, readFields, hread]
  rfl

theorem takeFields_comma {k : Text} {v : Value} (h : takeValue d ts = some (v, .comma :: rest)) :
    takeFields d (.scalar (.string k) :: .colon :: ts) =
      (takeFields d rest).map fun p => ((k, v) :: p.1, p.2) := by
  obtain ⟨⟨v', r, hr⟩, hread, hparts⟩ := Option.map_eq_some_iff.mp h
  cases hparts
  rw [takeFields, readFields, hread, takeFields]
  dsimp only
  cases readFields d rest <;> rfl

end

/-! ### Tokens of values -/

theorem valueTokens_ne_close (v : Value) (ts r : List Token) :
    valueTokens v ++ ts ≠ .closeArray :: r := by
  cases v <;> simp [valueTokens]

/-- The tokens of a value are read as the value in order, unless it is too deep. -/
def ReadsBack (v : Value) : Prop :=
  ∀ d rest, takeValue d (valueTokens v ++ rest) =
    if depth v ≤ d then some (arranged v, rest) else none

theorem takeItems_tokens {v : Value} {items : List Value} (h : ∀ w ∈ v :: items, ReadsBack w)
    (d : Nat) (rest : List Token) :
    takeItems d (separated .closeArray (itemTokens (v :: items)) ++ rest) =
      if itemDepth (v :: items) ≤ d then some (arrangedItems (v :: items), rest) else none := by
  induction items generalizing v with
  | nil =>
    have hv := h v List.mem_cons_self d (.closeArray :: rest)
    rw [itemTokens, itemTokens, separated, List.append_assoc, itemDepth, itemDepth, Nat.max_zero]
    split_ifs at hv ⊢ with hdepth
    · exact takeItems_last hv
    · exact takeItems_none hv
  | cons w items ih =>
    have hv := h v List.mem_cons_self d
      (.comma :: (separated .closeArray (itemTokens (w :: items)) ++ rest))
    have hrest := ih (fun u hu => h u (List.mem_cons_of_mem _ hu))
    rw [itemTokens, itemTokens, separated, ← itemTokens, List.append_assoc, List.cons_append, itemDepth]
    by_cases hdepth : depth v ≤ d
    · rw [if_pos hdepth] at hv
      rw [takeItems_comma hv, hrest]
      by_cases hothers : itemDepth (w :: items) ≤ d
      · rw [if_pos hothers, if_pos (Nat.max_le.mpr ⟨hdepth, hothers⟩)]
        rfl
      · rw [if_neg hothers, if_neg fun hmax => hothers (Nat.max_le.mp hmax).2]
        rfl
    · rw [if_neg hdepth] at hv
      rw [takeItems_none hv, if_neg fun hmax => hdepth (Nat.max_le.mp hmax).1]

theorem takeFields_tokens {f : Text × Value} {fields : Fields} (h : ∀ g ∈ f :: fields, ReadsBack g.2)
    (d : Nat) (rest : List Token) :
    takeFields d (separated .closeObject (fieldTokens (f :: fields)) ++ rest) =
      if fieldDepth (f :: fields) ≤ d then some (arrangedFields (f :: fields), rest) else none := by
  induction fields generalizing f with
  | nil =>
    obtain ⟨k, v⟩ := f
    have hv := h _ List.mem_cons_self d (.closeObject :: rest)
    rw [fieldTokens, fieldTokens, separated, List.append_assoc, fieldDepth, fieldDepth, Nat.max_zero]
    dsimp only at hv
    split_ifs at hv ⊢ with hdepth
    · exact takeFields_last hv
    · exact takeFields_none hv
  | cons g fields ih =>
    obtain ⟨k, v⟩ := f
    have hv := h _ List.mem_cons_self d
      (.comma :: (separated .closeObject (fieldTokens (g :: fields)) ++ rest))
    have hrest := ih (fun u hu => h u (List.mem_cons_of_mem _ hu))
    rw [fieldTokens, fieldTokens, separated, ← fieldTokens, List.append_assoc, List.cons_append,
      fieldDepth]
    dsimp only at hv
    by_cases hdepth : depth v ≤ d
    · rw [if_pos hdepth] at hv
      simp only [List.cons_append]
      rw [takeFields_comma hv, hrest]
      by_cases hothers : fieldDepth (g :: fields) ≤ d
      · rw [if_pos hothers, if_pos (Nat.max_le.mpr ⟨hdepth, hothers⟩)]
        rfl
      · rw [if_neg hothers, if_neg fun hmax => hothers (Nat.max_le.mp hmax).2]
        rfl
    · rw [if_neg hdepth] at hv
      simp only [List.cons_append]
      rw [takeFields_none hv, if_neg fun hmax => hdepth (Nat.max_le.mp hmax).1]

theorem readsBack_array {items : List Value} (h : ∀ v ∈ items, ReadsBack v) :
    ReadsBack (.array items) := by
  intro d rest
  cases items with
  | nil =>
    rw [valueTokens, itemTokens, separated, depth, itemDepth]
    change takeValue d (.openArray :: .closeArray :: rest) = _
    rw [takeValue_array_nil]
    by_cases hd : d = 0
    · rw [if_pos hd, if_neg (by omega)]
    · rw [if_neg hd, if_pos (by omega)]
      rfl
  | cons v items =>
    have hopen : ∀ r, separated .closeArray (itemTokens (v :: items)) ++ rest ≠ .closeArray :: r := by
      intro r
      rw [itemTokens]
      cases items <;> simp [itemTokens, separated, valueTokens_ne_close]
    rw [valueTokens, List.cons_append, depth]
    cases d with
    | zero => rw [takeValue_array_zero hopen, if_neg (by omega)]
    | succ d =>
      rw [takeValue_array_succ hopen, takeItems_tokens h]
      by_cases hd : itemDepth (v :: items) ≤ d
      · rw [if_pos hd, if_pos (by omega)]
        rfl
      · rw [if_neg hd, if_neg (by omega)]
        rfl

theorem readsBack_object {fields : Fields} (h : ∀ f ∈ fields, ReadsBack f.2) :
    ReadsBack (.object fields) := by
  intro d rest
  cases fields with
  | nil =>
    rw [valueTokens, fieldTokens, separated, depth, fieldDepth]
    change takeValue d (.openObject :: .closeObject :: rest) = _
    rw [takeValue_object_nil]
    by_cases hd : d = 0
    · rw [if_pos hd, if_neg (by omega)]
    · rw [if_neg hd, if_pos (by omega)]
      rfl
  | cons f fields =>
    have hopen : ∀ r, separated .closeObject (fieldTokens (f :: fields)) ++ rest ≠
        .closeObject :: r := by
      intro r
      rw [fieldTokens]
      cases fields <;> simp [fieldTokens, separated]
    rw [valueTokens, List.cons_append, depth]
    cases d with
    | zero => rw [takeValue_object_zero hopen, if_neg (by omega)]
    | succ d =>
      rw [takeValue_object_succ hopen, takeFields_tokens h]
      by_cases hd : fieldDepth (f :: fields) ≤ d
      · rw [if_pos hd, if_pos (by omega)]
        rfl
      · rw [if_neg hd, if_neg (by omega)]
        rfl

theorem readsBack (v : Value) : ReadsBack v := by
  induction v using Value.induction with
  | null => exact fun d rest => takeValue_scalar d .null rest
  | bool b => exact fun d rest => takeValue_scalar d (.bool b) rest
  | number n => exact fun d rest => takeValue_scalar d (.number n) rest
  | string s => exact fun d rest => takeValue_scalar d (.string s) rest
  | array items ih => exact readsBack_array ih
  | object fields ih => exact readsBack_object ih

/-- A text with the tokens of a value is read as the value in order, unless it is too deep. -/
theorem parse?_of_tokens? {t : Text} {v : Value} (h : tokens? t = some (valueTokens v)) :
    parse? t = if depth v ≤ maxDepth then some (arranged v) else none := by
  have hread := readsBack v maxDepth []
  rw [List.append_nil, takeValue] at hread
  rw [parse?, h, Option.bind_some]
  split_ifs at hread ⊢ with hdepth
  · obtain ⟨r, hr, hparts⟩ := Option.map_eq_some_iff.mp hread
    obtain ⟨hvalue, hrest⟩ := Prod.mk.inj hparts
    rw [hr, Option.bind_some, hrest, hvalue]
    rfl
  · rw [Option.map_eq_none_iff] at hread
    rw [hread]
    rfl

end TemplateDocs.Json
