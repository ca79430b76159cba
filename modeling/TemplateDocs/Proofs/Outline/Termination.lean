import Mathlib
import TemplateDocs.Proofs.Outline.Calls
import TemplateDocs.Proofs.Outline.Entries
import TemplateDocs.Proofs.Outline.FlowCalls

/-!
# Reading comes to an end

Each call of the readers leaves less to be read: fewer lines, or the same lines with less text on the
next one. An item is read on its own line again, and then only the text gets shorter. So the plans of
the calls have one solution, and whenever the readers come to a point of their code again, less is
left than at any time before.
-/
namespace TemplateDocs.Outline

open Json (Value Fields)

/-- How many lines are left, and how long the text of the next one is. -/
def leftOf (ls : List Line) : ℕ ×ₗ ℕ :=
  toLex (ls.length, (ls.head?.map fun line => line.text.length).getD 0)

theorem leftOf_lt_of_length {s t : List Line} (h : s.length < t.length) : leftOf s < leftOf t :=
  Prod.Lex.toLex_lt_toLex.mpr (.inl h)

theorem length_le_of_leftOf {s t : List Line} (h : leftOf s ≤ leftOf t) : s.length ≤ t.length := by
  rcases Prod.Lex.toLex_le_toLex.mp h with h | h
  · exact h.le
  · exact h.1.le

theorem leftOf_active_le (ls : List Line) : leftOf (active ls) ≤ leftOf ls := by
  rcases (active_suffix ls).length_le.lt_or_eq with h | h
  · exact (leftOf_lt_of_length h).le
  · rw [(active_suffix ls).eq_of_length h]

theorem leftOf_itemLine {line : Line} (hc : isTrailingComment (itemContent line) = false)
    (ls : List Line) : leftOf (itemLine line (itemContent line) :: ls) < leftOf (line :: ls) := by
  refine Prod.Lex.toLex_lt_toLex.mpr (.inr ⟨rfl, ?_⟩)
  have hne : itemContent line ≠ [] := by
    intro he
    simp [he, isTrailingComment] at hc
  have hle : (itemContent line).length ≤ (line.text.drop 1).length := Flow.trimStart_length _
  have hpos := List.length_pos_iff.mpr hne
  rw [List.length_drop] at hle
  simp only [List.head?_cons, Option.map_some, Option.getD_some, itemLine]
  omega

/-- Calls on the same lines go down from the value of an entry to the items of a sequence. -/
def Point.rank : Point → Nat
  | .entry => 5
  | .node => 4
  | .mapping | .sequence => 3
  | .item => 1

namespace Call

def left (c : Call) : ℕ ×ₗ ℕ := leftOf c.lines

def rank (c : Call) : Nat := (c.point?.map Point.rank).getD 2

def size (c : Call) : (ℕ ×ₗ ℕ) ×ₗ ℕ := toLex (c.left, c.rank)

theorem size_lt_of_left {c d : Call} (h : d.left < c.left) : d.size < c.size :=
  Prod.Lex.toLex_lt_toLex.mpr (.inl h)

theorem size_lt_of_rank {c d : Call} (h : d.left ≤ c.left) (hrank : d.rank < c.rank) :
    d.size < c.size := by
  rcases h.lt_or_eq with h | h
  · exact size_lt_of_left h
  · exact Prod.Lex.toLex_lt_toLex.mpr (.inr ⟨h, hrank⟩)

theorem length_le_of_size {c d : Call} (h : d.size < c.size) : d.lines.length ≤ c.lines.length := by
  rcases Prod.Lex.toLex_lt_toLex.mp h with h | h
  · exact length_le_of_leftOf h.le
  · exact length_le_of_leftOf h.1.le

/-- What is read leaves lines of those that were there. -/
theorem length_le_of_run {c : Call} {v : Value} {rest : List Line} (h : c.run = .ok (v, rest)) :
    rest.length ≤ c.lines.length := by
  have hle := (reads_of_run h).suffix.1.length_le
  cases c with
  | item line indent ls => exact hle.trans (Nat.le_succ _)
  | _ => exact hle

theorem length_lt_of_active {ls rest : List Line} {line : Line} (h : active ls = line :: rest) :
    rest.length < ls.length := by
  have := active_length_le ls
  rw [h, List.length_cons] at this
  exact this

theorem Makes.size_lt {c d : Call} (h : Makes c d) : d.size < c.size := by
  cases h with
  | @sequence _ ls _ _ h | @mapping _ ls _ _ h =>
    have hle := leftOf_active_le ls
    rw [h] at hle
    exact size_lt_of_rank hle (by simp [rank, point?, Point.rank])
  | firstEntry | firstItem => exact size_lt_of_rank le_rfl (by simp [rank, point?, Point.rank])
  | entry h => exact size_lt_of_left (leftOf_lt_of_length (length_lt_of_active h))
  | nextEntry h hv =>
    have hle := length_le_of_run hv
    exact size_lt_of_left (leftOf_lt_of_length (hle.trans_lt (length_lt_of_active h)))
  | @item _ ls _ _ h =>
    have hle := leftOf_active_le ls
    rw [h] at hle
    exact size_lt_of_rank hle (by simp [rank, point?, Point.rank])
  | nextItem h hv =>
    have hle := (reads_of_run hv).suffix.1.length_le
    exact size_lt_of_left (leftOf_lt_of_length (hle.trans_lt (length_lt_of_active h)))
  | @itemBelow _ _ _ ls _ h =>
    have hle := active_length_le ls
    rw [h] at hle
    exact size_lt_of_left (leftOf_lt_of_length (Nat.lt_succ_of_le hle))
  | itemInline hc => exact size_lt_of_left (leftOf_itemLine hc _)
  | @entryBelow _ _ _ _ ls _ h | @entryList _ _ _ _ ls _ h =>
    have hle := leftOf_active_le ls
    rw [h] at hle
    exact size_lt_of_rank hle (by simp [rank, point?, Point.rank])

theorem makes_of_mem {c d : Call} (h : d ∈ c.plan.calls Call.run) : Makes c d := by
  have hshape := c.shape
  generalize c.plan.calls Call.run = ds at h hshape
  cases hshape with
  | alone => cases h
  | last hd | failed hd =>
    rw [List.mem_singleton.mp h]
    exact hd
  | turn hd _ hnext =>
    rcases List.mem_cons.mp h with rfl | h
    · exact hd
    · rw [List.mem_singleton.mp h]
      exact hnext

end Call

/-- Reading as a recursion. -/
def reading : Recursion Call Outcome ((ℕ ×ₗ ℕ) ×ₗ ℕ) where
  plan := Call.plan
  run := Call.run
  run_eq := Call.run_eq
  size := Call.size
  falls _ _ h := (Call.makes_of_mem h).size_lt

namespace Call

/-- How far from the end the call is made: twice the lines left, and the value of an entry comes just
before its next line. -/
def distance (c : Call) : Nat := 2 * c.lines.length + if c.point? = some .entry then 1 else 0

/-- What a call takes comes after it. -/
theorem Makes.rest_lt_distance {c d : Call} (h : Makes c d) (hpoint : d.point? ≠ none) {v : Value}
    {rest : List Line} (hrun : d.run = .ok (v, rest)) : 2 * rest.length < d.distance := by
  have hreads := reads_of_run hrun
  have hactive : ∀ {ls tail : List Line} {line : Line}, active ls = line :: tail →
      active (line :: tail) = line :: tail := fun ha => active_cons (isIdle_of_active ha) _
  cases h with
  | firstEntry | nextEntry | firstItem | nextItem => exact absurd rfl hpoint
  | entry =>
    have hle := hreads.suffix.1.length_le
    simp only [distance, point?, lines, input, if_true] at hle ⊢
    omega
  | item =>
    have hle := hreads.suffix.1.length_le
    simp only [distance, point?, lines, input, List.length_cons] at hle ⊢
    omega
  | sequence h hitem =>
    have hle := (hreads.taken (hactive h) ⟨rfl, hitem⟩).length_le
    simp only [distance, point?, lines, input, List.length_cons]
    omega
  | mapping h =>
    have hle := (hreads.taken (hactive h) rfl).length_le
    simp only [distance, point?, lines, input, List.length_cons]
    omega
  | itemBelow h | entryBelow h =>
    have hle := (hreads.taken (hactive h) trivial).length_le
    simp only [distance, point?, lines, input, List.length_cons]
    omega
  | itemInline hc =>
    have hle := (hreads.taken (active_cons (itemLine_isIdle hc) _) trivial).length_le
    simp only [distance, point?, lines, input, List.length_cons]
    omega
  | entryList h hindent hitem =>
    have hle := (hreads.taken (hactive h) ⟨hindent, hitem⟩).length_le
    simp only [distance, point?, lines, input, List.length_cons]
    omega

/-- If a call succeeds, so do those that it makes, and they leave no less. -/
theorem exists_leftOff_of_mem {c d : Call} (h : d ∈ reading.calls c) {n : Nat}
    (hn : leftOff c.run = some n) : ∃ m, leftOff d.run = some m ∧ n ≤ m := by
  have hshape : c.Shape (reading.calls c) := c.shape
  generalize reading.calls c = ds at h hshape
  cases hshape with
  | alone => cases h
  | last _ hlast =>
    rw [List.mem_singleton.mp h]
    exact ⟨n, hlast ▸ hn, le_rfl⟩
  | failed _ _ hfail =>
    rw [hfail] at hn
    cases hn
  | @turn first next v mid _ hfirst _ _ hlines hend =>
    rw [leftOff_eq_of_map_snd hend] at hn
    rcases List.mem_cons.mp h with rfl | h
    · obtain ⟨w, rest, hnext, rfl⟩ := leftOff_eq_some_iff.mp hn
      have hle := length_le_of_run hnext
      exact ⟨_, leftOff_eq_some_iff.mpr ⟨v, mid, hfirst, rfl⟩, by rw [← hlines]; omega⟩
    · rw [List.mem_singleton.mp h]
      exact ⟨n, hn, le_rfl⟩

theorem Makes.distance_le {c d : Call} (h : Makes c d) : d.distance ≤ 2 * c.lines.length := by
  have hle := length_le_of_size h.size_lt
  cases h with
  | entry h =>
    have hlt := length_lt_of_active h
    simp only [distance, point?, lines, input, if_true] at hle ⊢
    omega
  | _ => simpa [distance, point?] using hle

/-- All calls in the course of a call are on what it was given. -/
theorem distance_le {c e : Call} (h : e ∈ reading.log c) : e.distance ≤ 2 * c.lines.length := by
  induction c using reading.induction with
  | h c ih =>
    obtain ⟨d, hd, rfl | he⟩ := reading.mem_log_iff.mp h
    · exact (makes_of_mem hd).distance_le
    · have hle := length_le_of_size (makes_of_mem hd).size_lt
      have := ih d hd he
      omega

/-- Of two calls that enter at one point, less is left for the later one. -/
def Later (c d : Call) : Prop := ∀ p, c.point? = some p → d.point? = some p → d.left < c.left

theorem later_of_mem_log {c e : Call} (h : e ∈ reading.log c) : Later c e := by
  intro p hc he
  have hrank : e.rank = c.rank := by rw [rank, rank, hc, he]
  rcases Prod.Lex.toLex_lt_toLex.mp (reading.size_lt_of_mem_log h) with hlt | ⟨-, hlt⟩
  · exact hlt
  · exact absurd hlt (hrank ▸ lt_irrefl _)

theorem reading_usesUp : reading.UsesUp (fun c => c.point? ≠ none) distance leftOff where
  takes c d hd hpoint n hn := by
    obtain ⟨v, rest, hrun, rfl⟩ := leftOff_eq_some_iff.mp hn
    exact (makes_of_mem hd).rest_lt_distance hpoint hrun
  keeps _ _ hd _ hn := exists_leftOff_of_mem hd hn
  goesOn c := by
    have hshape : c.Shape (reading.calls c) := c.shape
    generalize reading.calls c = ds at hshape
    cases hshape with
    | alone => exact .nil
    | last | failed => exact List.pairwise_singleton _ _
    | @turn d next v mid hd hrun _ hturn hlines _ =>
      -- the call of a turn leaves off where the next turn starts
      refine List.pairwise_pair.mpr ⟨_, leftOff_eq_some_iff.mpr ⟨v, mid, hrun, rfl⟩, ?_⟩
      intro e he hpoint
      rcases List.mem_cons.mp he with rfl | he
      · exact absurd hturn hpoint
      · exact hlines ▸ distance_le he

theorem pairwise_later (c : Call) : (c :: reading.log c).Pairwise Later := by
  refine reading_usesUp.pairwise (fun _ _ => later_of_mem_log) (fun e e' h p hp hp' => ?_) c
  have hlt := h (by simp [hp]) (by simp [hp'])
  simp only [distance, hp, hp'] at hlt
  exact leftOf_lt_of_length (by omega)

end Call

/-- Reading ends for all texts. The calls go down in a well-founded order, and so the readers are the
only functions that follow their plans; in the course of any call, lines with the text left, and for
flow collections characters, get strictly fewer from one entry at a point of the code to each later
one. -/
theorem reading_terminates :
    ((WellFounded fun d c => d ∈ reading.calls c) ∧
      (∀ f : Call → Outcome, (∀ c, f c = c.plan.eval f) ↔ f = Call.run) ∧
      ∀ c : Call, (c :: reading.log c).Pairwise Call.Later) ∧
    ((WellFounded fun d c => d ∈ Flow.reading.calls c) ∧
      (∀ f : Flow.Call → Flow.Outcome, (∀ c, f c = c.plan.eval f) ↔ f = Flow.Call.run) ∧
      ∀ c : Flow.Call, (c :: Flow.reading.log c).Pairwise Flow.Call.Later) ∧
    (∀ t : Text, Flow.read t = (Flow.Call.value t).run.map Prod.fst) ∧
    ∀ (t : Text) (firstLine : Nat), read t firstLine =
      match (Call.node none (documentBody (Line.numbered firstLine (Text.split '\n' t)))).run with
      | .error e => .error e
      | .ok (v, left) =>
        match active left with
        | [] => .ok v
        | line :: _ => .error ⟨line.number, .contentAfterDocument⟩ := by
  refine ⟨⟨reading.wellFounded_calls, fun f => reading.solves_iff, Call.pairwise_later⟩,
    ⟨Flow.reading.wellFounded_calls, fun f => Flow.reading.solves_iff, Flow.Call.pairwise_later⟩,
    Flow.read_eq, fun t firstLine => ?_⟩
  rw [read, readLines_eq]
  rfl

end TemplateDocs.Outline
