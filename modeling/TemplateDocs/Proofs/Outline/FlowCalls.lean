import Mathlib
import TemplateDocs.Proofs.Outline.Calls
import TemplateDocs.Proofs.Outline.Wholeness

/-!
# The calls of reading a flow collection

The readers of flow collections as plans, in the way of the readers of blocks. The loop of a
collection goes on after a comma, and once more in front of the closing bracket. A value may take no
character at all; then the loop was not in front of the bracket, and it can go on only after a comma.
-/
namespace TemplateDocs.Outline.Flow

open Json (Value Fields)
open Text (trimStart)

abbrev Outcome := Except Fault (Value × Text)

/-- A call, with the characters from the next one to be read on. -/
inductive Call where
  | value (t : Text)
  /-- A sequence; `t` is what follows its opening bracket. -/
  | sequence (t : Text)
  /-- A turn of the loop of a sequence. -/
  | items (t : Text)
  /-- A mapping; `t` is what follows its opening brace. -/
  | mapping (t : Text)
  /-- A turn of the loop of a mapping, with the fields read before. -/
  | fields (acc : Fields) (t : Text)

/-- Where a call enters the reader. -/
inductive Point where
  | value | sequence | items | mapping | fields
  deriving DecidableEq, Repr

/-- Where the loop goes on after a part: behind a comma, or in front of the closing bracket. -/
def goOn? (closing : Char) (t : Text) : Option Text :=
  if (trimStart t).head? = some ',' then some (trimStart t).tail
  else if (trimStart t).head? = some closing then some (trimStart t)
  else none

/-- A scalar at the front of a text. -/
def scalar (t : Text) : Outcome :=
  if (t.head?.map isQuote).getD false then (quotedText t).map fun q => (.string q.value, q.rest)
  else .ok (resolve (Text.trim (plainRun false t).1), (plainRun false t).2)

namespace Call

def run : Call → Outcome
  | .value t => (readValue t).map fun r => (r.value, r.rest)
  | .sequence t | .items t => (readItems t).map fun r => (.array r.value, r.rest)
  | .mapping t => (readFields [] t).map fun r => (.object r.value, r.rest)
  | .fields acc t => (readFields acc t).map fun r => (.object r.value, r.rest)

/-- What stands under a key, and what is done with it: null if no colon follows the key. -/
def slot (t : Text) (next : Value → Text → Plan Call Outcome) : Plan Call Outcome :=
  if (trimStart t).head? = some ':' then
    .call (.value (trimStart t).tail) fun
      | .error e => .done (.error e)
      | .ok (v, rest) => next v rest
  else next .null (trimStart t)

/-- How a mapping goes on after the value under a key. -/
def add (acc : Fields) (k : Text) (v : Value) (t : Text) : Plan Call Outcome :=
  if Fields.has k acc then .done (.error (.duplicateKey k))
  else
    match goOn? '\x7d' t with
    | none => .done (.error .expectedFieldEnd)
    | some next => .call (.fields (Fields.insert k v acc) next) .done

def plan : Call → Plan Call Outcome
  | .value t =>
    if (trimStart t).head? = some '[' then .call (.sequence (trimStart t).tail) .done
    else if (trimStart t).head? = some '\x7b' then .call (.mapping (trimStart t).tail) .done
    else .done (scalar (trimStart t))
  | .sequence t => .call (.items t) .done
  | .items t =>
    if (trimStart t).head? = some ']' then .done (.ok (.array [], (trimStart t).tail))
    else
      .call (.value (trimStart t)) fun
        | .error e => .done (.error e)
        | .ok (v, rest) =>
          match goOn? ']' rest with
          | none => .done (.error .expectedItemEnd)
          | some next => .call (.items next) fun outcome => .done (prepend v outcome)
  | .mapping t => .call (.fields [] t) .done
  | .fields acc t =>
    if (trimStart t).head? = some '\x7d' then .done (.ok (.object acc, (trimStart t).tail))
    else
      match key (trimStart t) with
      | .error e => .done (.error e)
      | .ok k =>
        if k.value = [] then .done (.error .expectedKey)
        else slot k.rest (add acc k.value)

/-- How many characters are left. -/
def left : Call → Nat
  | .value t | .items t | .fields _ t => t.length
  | .sequence t | .mapping t => t.length + 1

def point : Call → Point
  | .value _ => .value
  | .sequence _ => .sequence
  | .items _ => .items
  | .mapping _ => .mapping
  | .fields _ _ => .fields

end Call

/-- What stands under a key. -/
def underKey (t : Text) : Outcome :=
  if (trimStart t).head? = some ':' then (Call.value (trimStart t).tail).run
  else .ok (.null, trimStart t)

/-! ### Plans and readers -/

theorem head?_ne_of_cons {t : Text} {c : Char} (h : ∀ r, t = c :: r → False) : t.head? ≠ some c := by
  intro hc
  obtain ⟨r, hr⟩ := List.head?_eq_some_iff.mp hc
  exact h r hr

theorem run_value_eq (t : Text) : (Call.value t).run = (Call.value t).plan.eval Call.run := by
  rw [Call.run, readValue, Call.plan]
  split
  · next r h =>
    simp only [h, List.head?_cons, if_true, List.tail_cons, Plan.eval, Call.run]
    cases readItems r <;> rfl
  · next r h =>
    simp only [h, List.head?_cons, Option.some.injEq, Char.reduceEq, if_true, if_false, List.tail_cons,
      Plan.eval, Call.run]
    cases readFields [] r <;> rfl
  · next hbracket hbrace =>
    rw [if_neg (head?_ne_of_cons hbracket), if_neg (head?_ne_of_cons hbrace), Plan.eval, scalar]
    split_ifs
    · cases quotedText (trimStart t) <;> rfl
    · rfl

theorem trimStart_trimStart (t : Text) : trimStart (trimStart t) = trimStart t :=
  List.dropWhile_idempotent _ t

theorem run_value_trimStart (t : Text) : (Call.value (trimStart t)).run = (Call.value t).run := by
  rw [run_value_eq, run_value_eq, Call.plan, Call.plan, trimStart_trimStart]

theorem goOn?_eq_comma {closing : Char} {t r : Text} (h : trimStart t = ',' :: r) :
    goOn? closing t = some r := by
  simp [goOn?, h]

theorem goOn?_eq_closing {closing : Char} (hc : closing ≠ ',') {t r : Text}
    (h : trimStart t = closing :: r) : goOn? closing t = some (closing :: r) := by
  simp [goOn?, h, hc]

theorem goOn?_eq_none {closing : Char} {t : Text} (hcomma : ∀ r, trimStart t = ',' :: r → False)
    (hclosing : ∀ r, trimStart t = closing :: r → False) : goOn? closing t = none := by
  rw [goOn?, if_neg (head?_ne_of_cons hcomma), if_neg (head?_ne_of_cons hclosing)]

theorem run_value_ok {t : Text} {v : Read Value t} (h : readValue t = .ok v) :
    (Call.value t).run = .ok (v.value, v.rest) := by
  rw [Call.run, h]
  rfl

theorem run_value_error {t : Text} {e : Fault} (h : readValue t = .error e) :
    (Call.value t).run = .error e := by
  rw [Call.run, h]
  rfl

theorem run_items_closing (r : Text) : (Call.items (']' :: r)).run = .ok (.array [], r) := by
  have hstart : trimStart (']' :: r) = ']' :: r := Text.trimStart_of_head (by simp [Text.isSpace])
  rw [Call.run, readItems]
  split
  · next s h =>
    cases hstart.symm.trans h
    rfl
  · next hno => exact (hno r hstart).elim

theorem run_fields_closing (acc : Fields) (r : Text) :
    (Call.fields acc ('\x7d' :: r)).run = .ok (.object acc, r) := by
  have hstart : trimStart ('\x7d' :: r) = '\x7d' :: r := Text.trimStart_of_head (by simp [Text.isSpace])
  rw [Call.run, readFields]
  split
  · next s h =>
    cases hstart.symm.trans h
    rfl
  · next hno => exact (hno r hstart).elim

theorem run_items_eq (t : Text) : (Call.items t).run = (Call.items t).plan.eval Call.run := by
  rw [Call.plan, Call.run, readItems]
  split
  · next r h =>
    simp only [h, List.head?_cons, if_true]
    rfl
  · next hno =>
    rw [if_neg (head?_ne_of_cons hno), Plan.eval, run_value_trimStart]
    cases hv : readValue t with
    | error e =>
      rw [run_value_error hv]
      rfl
    | ok v =>
      rw [run_value_ok hv]
      dsimp only
      split
      · next r h =>
        simp only [goOn?_eq_comma h, Plan.eval, Call.run]
        cases readItems r <;> rfl
      · next r h =>
        simp only [goOn?_eq_closing (by decide) h, Plan.eval, run_items_closing]
        rfl
      · next hcomma hclosing =>
        simp only [goOn?_eq_none hcomma hclosing]
        rfl

theorem underKey_colon {t r : Text} (h : trimStart t = ':' :: r) : underKey t = (Call.value r).run := by
  simp [underKey, h]

theorem eval_slot (t : Text) (next : Value → Text → Plan Call Outcome) :
    (Call.slot t next).eval Call.run =
      match underKey t with
      | .error e => .error e
      | .ok (v, rest) => (next v rest).eval Call.run := by
  unfold Call.slot underKey
  split_ifs
  · rw [Plan.eval]
    cases (Call.value (trimStart t).tail).run <;> rfl
  · rfl

theorem run_fields_eq (acc : Fields) (t : Text) :
    (Call.fields acc t).run = (Call.fields acc t).plan.eval Call.run := by
  rw [Call.plan, Call.run, readFields]
  split
  · next r h =>
    simp only [h, List.head?_cons, if_true]
    rfl
  · next hno =>
    rw [if_neg (head?_ne_of_cons hno)]
    cases key (trimStart t) with
    | error e => rfl
    | ok k =>
      dsimp -zeta only
      by_cases hempty : k.value = []
      · rw [if_pos hempty, if_pos hempty]
        rfl
      rw [if_neg hempty, if_neg hempty]
      extract_lets value
      have hslot : underKey k.rest = value.map fun v => (v.value, v.rest) := by
        unfold value
        split
        · next r h =>
          rw [underKey_colon h, Call.run]
          cases readValue r <;> rfl
        · next hcolon =>
          rw [underKey, if_neg (head?_ne_of_cons hcolon)]
          rfl
      rw [eval_slot, hslot]
      clear_value value
      clear hslot
      cases value with
      | error e => rfl
      | ok v =>
        change _ = (Call.add acc k.value v.value v.rest).eval Call.run
        rw [Call.add]
        dsimp only
        split_ifs
        · rfl
        · split
          · next r h =>
            simp only [goOn?_eq_comma h, Plan.eval, Call.run]
            cases readFields (Fields.insert k.value v.value acc) r <;> rfl
          · next r h =>
            simp only [goOn?_eq_closing (by decide) h, Plan.eval, run_fields_closing]
            rfl
          · next hcomma hclosing =>
            simp only [goOn?_eq_none hcomma hclosing]
            rfl

/-- Each call follows its plan. -/
theorem Call.run_eq (c : Call) : c.run = c.plan.eval Call.run := by
  cases c with
  | value t => exact run_value_eq t
  | sequence t | mapping t => rfl
  | items t => exact run_items_eq t
  | fields acc t => exact run_fields_eq acc t

theorem read_eq (t : Text) : read t = (Call.value t).run.map Prod.fst := by
  rw [read, Call.run]
  cases readValue t <;> rfl

/-! ### What a call takes -/

theorem exists_read {α : Type} {t : Text} {x : Except Fault (Read α t)} {f : α → Value} {v : Value}
    {u : Text} (h : (x.map fun r => (f r.value, r.rest)) = .ok (v, u)) : ∃ r, x = .ok r ∧ r.rest = u := by
  cases x with
  | error e => cases h
  | ok r =>
    cases h
    exact ⟨r, rfl, rfl⟩

theorem trimStart_suffix (t : Text) : trimStart t <:+ t := List.dropWhile_suffix _

/-- A value may take nothing, apart from the blanks in front of it. -/
theorem suffix_of_run_value {t u : Text} {v : Value} (h : (Call.value t).run = .ok (v, u)) :
    u <:+ trimStart t := by
  rw [← run_value_trimStart] at h
  obtain ⟨r, hr, rfl⟩ := exists_read (f := id) h
  obtain ⟨ps, htakes⟩ := takes_of_readValue hr
  exact htakes.suffix

/-- Items take the closing bracket at least. -/
theorem length_lt_of_run_items {t u : Text} {v : Value} (h : (Call.items t).run = .ok (v, u)) :
    u.length < t.length := by
  obtain ⟨r, hr, rfl⟩ := exists_read h
  obtain ⟨ps, htakes⟩ := (reads_taken t).2.1 r hr
  generalize r.value = vs at htakes
  cases htakes with
  | itemsEnd h => exact length_lt_of_trimStart h
  | itemsLast _ hv hend => exact (length_lt_of_trimStart hend).trans_le hv.suffix.length_le
  | itemsMore _ hv hcomma hrest =>
    have hle := hrest.suffix.length_le.trans_lt (length_lt_of_trimStart hcomma)
    exact hle.trans_le hv.suffix.length_le

/-- Fields take the closing brace at least. -/
theorem length_lt_of_run_fields {acc : Fields} {t u : Text} {v : Value}
    (h : (Call.fields acc t).run = .ok (v, u)) : u.length < t.length := by
  obtain ⟨r, hr, rfl⟩ := exists_read h
  obtain ⟨ps, htakes⟩ := (reads_taken t).2.2 acc r hr
  generalize r.value = fs at htakes
  cases htakes with
  | fieldsEnd h => exact length_lt_of_trimStart h
  | fieldsLast _ hk _ hv _ hend =>
    have hle := (hv.suffix.trans hk.suffix).length_le.trans (trimStart_length t)
    exact (length_lt_of_trimStart hend).trans_le hle
  | fieldsMore _ hk _ hv _ hcomma hrest =>
    have hle := (hv.suffix.trans hk.suffix).length_le.trans (trimStart_length t)
    exact (hrest.suffix.length_le.trans_lt (length_lt_of_trimStart hcomma)).trans_le hle

theorem goOn?_cases {closing : Char} {t next : Text} (h : goOn? closing t = some next) :
    next.length < t.length ∨ next = trimStart t ∧ next.head? = some closing := by
  unfold goOn? at h
  split_ifs at h with hcomma hclosing
  · obtain ⟨r, hr⟩ := List.head?_eq_some_iff.mp hcomma
    cases h
    rw [hr]
    exact .inl (length_lt_of_trimStart hr)
  · cases h
    exact .inr ⟨rfl, hclosing⟩

/-- A loop that is not in front of the closing bracket goes on further behind. -/
theorem goOn?_length_lt {closing : Char} {t u next : Text} (ht : t.head? ≠ some closing) (hu : u <:+ t)
    (h : goOn? closing u = some next) : next.length < t.length := by
  rcases goOn?_cases h with hlt | ⟨rfl, hclosing⟩
  · exact hlt.trans_le hu.length_le
  · -- if nothing was taken, the loop is where it was, and that is not in front of the bracket
    have hsuffix := (trimStart_suffix u).trans hu
    refine lt_of_le_of_ne hsuffix.length_le fun hlength => ht ?_
    rwa [← hsuffix.eq_of_length hlength]

/-! ### What a call does -/

def Point.rank : Point → Nat
  | .items | .fields => 3
  | .value => 2
  | .sequence | .mapping => 1

namespace Call

def size (c : Call) : ℕ ×ₗ ℕ := toLex (c.left, c.point.rank)

/-- How far from the end the call is made, in halves: a value comes just before its first character. -/
def distance (c : Call) : Nat := 2 * c.left + if c.point = .value then 1 else 0

theorem size_lt_of_left {c d : Call} (h : d.left < c.left) : d.size < c.size :=
  Prod.Lex.toLex_lt_toLex.mpr (.inl h)

theorem size_lt_of_rank {c d : Call} (h : d.left ≤ c.left) (hrank : d.point.rank < c.point.rank) :
    d.size < c.size := by
  rcases h.lt_or_eq with h | h
  · exact size_lt_of_left h
  · exact Prod.Lex.toLex_lt_toLex.mpr (.inr ⟨h, hrank⟩)

theorem left_le_of_size {c d : Call} (h : d.size < c.size) : d.left ≤ c.left := by
  rcases Prod.Lex.toLex_lt_toLex.mp h with h | h
  · exact h.le
  · exact h.1.le

theorem rest_lt_distance {c : Call} {v : Value} {u : Text} (h : c.run = .ok (v, u)) :
    2 * u.length < c.distance := by
  cases c with
  | value t =>
    have hle := (suffix_of_run_value h).length_le.trans (trimStart_length t)
    simp only [distance, left, point, if_true]
    omega
  | sequence t | items t =>
    have hitems : (items t).run = .ok (v, u) := h
    have hlt := length_lt_of_run_items hitems
    simp only [distance, left, point]
    omega
  | mapping t =>
    have hfields : (fields [] t).run = .ok (v, u) := h
    have hlt := length_lt_of_run_fields hfields
    simp only [distance, left, point]
    omega
  | fields acc t =>
    have hlt := length_lt_of_run_fields h
    simp only [distance, left, point]
    omega

/-- The calls that a call makes, and how it ends. A turn of a loop goes on behind what it has read, or
it finds the closing bracket and ends there. -/
inductive Shape (c : Call) : List Call → Prop
  | alone : Shape c []
  | last {d : Call} (hd : d.size < c.size) (hend : c.run.map Prod.snd = d.run.map Prod.snd) : Shape c [d]
  | failed {d : Call} {e : Fault} (hd : d.size < c.size) (hrun : c.run = .error e) : Shape c [d]
  | turn {d next : Call} {v : Value} {u : Text} (hd : d.size < c.size) (hrun : d.run = .ok (v, u))
      (hnext : next.size < c.size)
      (hmore : next.left < u.length ∨ next.distance ≤ 2 * u.length ∧ next.plan.calls Call.run = [])
      (hend : c.run.map Prod.snd = next.run.map Prod.snd) : Shape c [d, next]

theorem shape_value (t : Text) : Shape (.value t) ((value t).plan.calls Call.run) := by
  have hrun := (value t).run_eq
  rw [plan] at hrun ⊢
  have hle := trimStart_length t
  split_ifs at hrun ⊢ with hbracket hbrace
  · obtain ⟨r, hr⟩ := List.head?_eq_some_iff.mp hbracket
    refine .last (size_lt_of_rank ?_ (by simp [point, Point.rank])) (by rw [hrun]; rfl)
    rwa [hr] at hle ⊢
  · obtain ⟨r, hr⟩ := List.head?_eq_some_iff.mp hbrace
    refine .last (size_lt_of_rank ?_ (by simp [point, Point.rank])) (by rw [hrun]; rfl)
    rwa [hr] at hle ⊢
  · exact .alone

theorem more_of_goOn? {closing : Char} {u next : Text} {c : Call} (h : goOn? closing u = some next)
    (hleft : c.left = next.length) (hpoint : c.point ≠ .value)
    (hcalls : (trimStart next).head? = some closing → c.plan.calls Call.run = []) :
    c.left < u.length ∨ c.distance ≤ 2 * u.length ∧ c.plan.calls Call.run = [] := by
  rcases goOn?_cases h with hlt | ⟨rfl, hclosing⟩
  · exact .inl (hleft ▸ hlt)
  · refine .inr ⟨?_, hcalls (by rwa [trimStart_trimStart])⟩
    have hle := trimStart_length u
    rw [distance, if_neg hpoint, hleft]
    omega

theorem shape_items (t : Text) : Shape (.items t) ((items t).plan.calls Call.run) := by
  have hrun := (items t).run_eq
  rw [plan] at hrun ⊢
  split_ifs at hrun ⊢ with hclosing
  · exact .alone
  have hd : (value (trimStart t)).size < (items t).size :=
    size_lt_of_rank (trimStart_length t) (by simp [point, Point.rank])
  simp only [Plan.eval, Plan.calls] at hrun ⊢
  cases hv : (value (trimStart t)).run with
  | error e =>
    simp only [hv, Plan.eval] at hrun
    exact .failed hd hrun
  | ok result =>
    obtain ⟨v, u⟩ := result
    cases hnext : goOn? ']' u with
    | none =>
      simp only [hv, hnext, Plan.eval, Plan.calls] at hrun ⊢
      exact .failed hd hrun
    | some next =>
      simp only [hv, hnext, Plan.eval, Plan.calls] at hrun ⊢
      have hsuffix := suffix_of_run_value hv
      rw [trimStart_trimStart] at hsuffix
      refine .turn hd hv (size_lt_of_left ?_) (more_of_goOn? hnext rfl (by simp [point]) fun h => ?_)
        (by rw [hrun, map_snd_prepend])
      · exact (goOn?_length_lt hclosing hsuffix hnext).trans_le (trimStart_length t)
      · rw [plan, if_pos h]
        rfl

theorem add_cases (acc : Fields) (k : Text) (v : Value) (u : Text) :
    (∃ e, add acc k v u = .done (.error e)) ∨
      ∃ acc' next, goOn? '\x7d' u = some next ∧ add acc k v u = .call (.fields acc' next) .done := by
  unfold add
  split_ifs
  · exact .inl ⟨_, rfl⟩
  · cases hnext : goOn? '\x7d' u with
    | none => exact .inl ⟨_, rfl⟩
    | some next => exact .inr ⟨_, next, rfl, rfl⟩

theorem shape_fields (acc : Fields) (t : Text) :
    Shape (.fields acc t) ((fields acc t).plan.calls Call.run) := by
  have hrun := (fields acc t).run_eq
  rw [plan] at hrun ⊢
  split_ifs at hrun ⊢ with hclosing
  · exact .alone
  cases hk : key (trimStart t) with
  | error e => exact .alone
  | ok k =>
    obtain ⟨ps, hkey⟩ := takes_key hk
    have hsuffix := (trimStart_suffix _).trans hkey.suffix
    simp only [hk] at hrun ⊢
    rw [slot] at hrun ⊢
    split_ifs at hrun ⊢ with hempty hcolon
    · exact .alone
    · obtain ⟨r, hr⟩ := List.head?_eq_some_iff.mp hcolon
      rw [hr] at hsuffix
      simp only [hr, List.tail_cons, Plan.eval, Plan.calls] at hrun ⊢
      have hd : (value r).size < (fields acc t).size :=
        size_lt_of_left (hsuffix.length_le.trans (trimStart_length t))
      cases hv : (value r).run with
      | error e =>
        simp only [hv, Plan.eval] at hrun
        exact .failed hd hrun
      | ok result =>
        obtain ⟨v, u⟩ := result
        simp only [hv] at hrun ⊢
        have hr := (suffix_of_run_value hv).trans (trimStart_suffix r)
        have hu := hr.trans ((List.suffix_cons ':' r).trans hsuffix)
        rcases add_cases acc k.value v u with ⟨e, hadd⟩ | ⟨acc', next, hnext, hadd⟩
        · rw [hadd] at hrun ⊢
          exact .failed hd hrun
        · rw [hadd] at hrun ⊢
          refine .turn hd hv (size_lt_of_left ?_)
            (more_of_goOn? hnext rfl (by simp [point]) fun h => ?_) (by rw [hrun]; rfl)
          · exact (goOn?_length_lt hclosing hu hnext).trans_le (trimStart_length t)
          · rw [plan, if_pos h]
            rfl
    · rcases add_cases acc k.value .null (trimStart k.rest) with ⟨e, hadd⟩ | ⟨acc', next, hnext, hadd⟩
      · rw [hadd]
        exact .alone
      · rw [hadd] at hrun ⊢
        refine .last (size_lt_of_left ?_) (by rw [hrun]; rfl)
        exact (goOn?_length_lt hclosing hsuffix hnext).trans_le (trimStart_length t)

theorem shape (c : Call) : Shape c (c.plan.calls Call.run) := by
  cases c with
  | value t => exact shape_value t
  | sequence t | mapping t => exact .last (size_lt_of_left (Nat.lt_succ_self _)) rfl
  | items t => exact shape_items t
  | fields acc t => exact shape_fields acc t

theorem Shape.size_lt {c d : Call} {ds : List Call} (h : Shape c ds) (hmem : d ∈ ds) :
    d.size < c.size := by
  cases h with
  | alone => cases hmem
  | last hd | failed hd =>
    rw [List.mem_singleton.mp hmem]
    exact hd
  | turn hd _ hnext =>
    rcases List.mem_cons.mp hmem with rfl | hmem
    · exact hd
    · rw [List.mem_singleton.mp hmem]
      exact hnext

end Call

/-! ### The order of calls -/

/-- Reading a flow collection as a recursion. -/
def reading : Recursion Call Outcome (ℕ ×ₗ ℕ) where
  plan := Call.plan
  run := Call.run
  run_eq := Call.run_eq
  size := Call.size
  falls c _ h := c.shape.size_lt h

namespace Call

/-- The course of the next turn lies behind what was read before it. -/
theorem distance_le_of_more {next e : Call} {n : Nat}
    (hmore : next.left < n ∨ next.distance ≤ 2 * n ∧ next.plan.calls Call.run = [])
    (he : e ∈ next :: reading.log next) : e.distance ≤ 2 * n := by
  have hdistance : e.distance ≤ 2 * e.left + 1 := by
    unfold distance
    split_ifs <;> omega
  rcases hmore with hlt | ⟨hle, hcalls⟩
  · rcases List.mem_cons.mp he with rfl | he
    · omega
    · have hleft := left_le_of_size (reading.size_lt_of_mem_log he)
      omega
  · have hlog : reading.log next = [] := by
      rw [reading.log_eq]
      exact congrArg _ hcalls
    rw [hlog] at he
    rwa [List.mem_singleton.mp he]

theorem reading_usesUp : reading.UsesUp (fun _ => True) distance leftOff where
  takes c d hd _ n hn := by
    obtain ⟨v, u, hrun, rfl⟩ := leftOff_eq_some_iff.mp hn
    exact rest_lt_distance hrun
  keeps c d hd n hn := by
    have hshape : c.Shape (reading.calls c) := c.shape
    generalize reading.calls c = ds at hd hshape
    cases hshape with
    | alone => cases hd
    | last _ hend =>
      rw [List.mem_singleton.mp hd]
      exact ⟨n, leftOff_eq_of_map_snd hend ▸ hn, le_rfl⟩
    | failed _ hrun =>
      change leftOff c.run = some n at hn
      rw [hrun] at hn
      cases hn
    | @turn d' next v u _ hrun _ hmore hend =>
      replace hn : leftOff next.run = some n := leftOff_eq_of_map_snd hend ▸ hn
      rcases List.mem_cons.mp hd with rfl | hd
      · obtain ⟨w, rest, hnext, rfl⟩ := leftOff_eq_some_iff.mp hn
        have hle := distance_le_of_more hmore List.mem_cons_self
        exact ⟨_, leftOff_eq_some_iff.mpr ⟨v, u, hrun, rfl⟩, ((rest_lt_distance hnext).trans_le hle).le⟩
      · rw [List.mem_singleton.mp hd]
        exact ⟨n, hn, le_rfl⟩
  goesOn c := by
    have hshape : c.Shape (reading.calls c) := c.shape
    generalize reading.calls c = ds at hshape
    cases hshape with
    | alone => exact .nil
    | last | failed => exact List.pairwise_singleton _ _
    | @turn d next v u _ hrun _ hmore _ =>
      refine List.pairwise_pair.mpr ⟨_, leftOff_eq_some_iff.mpr ⟨v, u, hrun, rfl⟩, ?_⟩
      exact fun e he _ => distance_le_of_more hmore he

/-- Of two calls that enter at one point, fewer characters are left for the later one. -/
def Later (c d : Call) : Prop := c.point = d.point → d.left < c.left

theorem later_of_mem_log {c e : Call} (h : e ∈ reading.log c) : Later c e := by
  intro hpoint
  rcases Prod.Lex.toLex_lt_toLex.mp (reading.size_lt_of_mem_log h) with hlt | ⟨-, hlt⟩
  · exact hlt
  · exact absurd hlt (hpoint ▸ lt_irrefl _)

theorem pairwise_later (c : Call) : (c :: reading.log c).Pairwise Later := by
  refine reading_usesUp.pairwise (fun _ _ => later_of_mem_log) (fun e e' h hpoint => ?_) c
  have hlt := h trivial trivial
  simp only [distance, hpoint] at hlt
  omega

end Call

end TemplateDocs.Outline.Flow
