import Mathlib

/-!
# Recursion by calls

What a recursive function does is laid open as a plan: it makes calls one after the other, and the
result of each decides how it goes on. If every call is on something smaller, the plans determine the
results, and the calls that are made in the end can be listed in the order of time.
-/
namespace TemplateDocs

/-- What is done to come to a result. -/
inductive Plan (Call Result : Type) where
  | done (result : Result)
  | call (c : Call) (next : Result → Plan Call Result)

namespace Plan

variable {Call Result : Type}

/-- What the plan comes to, given the results of all calls. -/
def eval (run : Call → Result) : Plan Call Result → Result
  | .done result => result
  | .call c next => (next (run c)).eval run

/-- The calls that are made, in their order. -/
def calls (run : Call → Result) : Plan Call Result → List Call
  | .done _ => []
  | .call c next => c :: (next (run c)).calls run

/-- Only the calls that are made count. -/
theorem eval_congr {f run : Call → Result} {p : Plan Call Result}
    (h : ∀ c ∈ p.calls run, f c = run c) : p.eval f = p.eval run := by
  induction p with
  | done result => rfl
  | call c next ih =>
    have hc : f c = run c := h c List.mem_cons_self
    rw [eval, eval, hc]
    exact ih _ fun d hd => h d (List.mem_cons_of_mem _ hd)

end Plan

/-- A function that follows its plans, with calls that go down in a well-founded order. -/
structure Recursion (Call Result Size : Type) [Preorder Size] [WellFoundedLT Size] where
  plan : Call → Plan Call Result
  run : Call → Result
  run_eq : ∀ c, run c = (plan c).eval run
  size : Call → Size
  falls : ∀ c, ∀ d ∈ (plan c).calls run, size d < size c

namespace Recursion

variable {Call Result Size : Type} [Preorder Size] [WellFoundedLT Size]
  (R : Recursion Call Result Size)

/-- The calls that a call makes itself. -/
def calls (c : Call) : List Call := (R.plan c).calls R.run

theorem size_lt {c d : Call} (h : d ∈ R.calls c) : R.size d < R.size c := R.falls c d h

theorem induction {P : Call → Prop} (h : ∀ c, (∀ d ∈ R.calls c, P d) → P c) (c : Call) : P c := by
  induction hn : R.size c using WellFoundedLT.induction generalizing c with
  | ind n ih =>
    subst hn
    exact h c fun d hd => ih _ (R.size_lt hd) d rfl

theorem wellFounded_calls : WellFounded fun d c => d ∈ R.calls c :=
  Subrelation.wf R.size_lt (InvImage.wf R.size wellFounded_lt)

/-- The plans have one solution. -/
theorem solves_iff {f : Call → Result} : (∀ c, f c = (R.plan c).eval f) ↔ f = R.run := by
  constructor
  · intro hf
    funext c
    induction c using R.induction with
    | h c ih => rw [hf, R.run_eq, Plan.eval_congr ih]
  · rintro rfl
    exact R.run_eq

/-- All calls that are made in the course of a call, in the order of time. -/
def log (c : Call) : List Call :=
  (R.calls c).attach.flatMap fun d => d.1 :: log d.1
termination_by wellFounded_lt.wrap (R.size c)
decreasing_by exact R.size_lt d.2

theorem log_eq (c : Call) : R.log c = (R.calls c).flatMap fun d => d :: R.log d := by
  conv_rhs => rw [← List.attach_map_subtype_val (R.calls c), List.flatMap_map]
  rw [log]

theorem mem_log_iff {c e : Call} : e ∈ R.log c ↔ ∃ d ∈ R.calls c, e = d ∨ e ∈ R.log d := by
  rw [log_eq]
  simp

theorem size_lt_of_mem_log {c e : Call} (h : e ∈ R.log c) : R.size e < R.size c := by
  induction c using R.induction with
  | h c ih =>
    obtain ⟨d, hd, rfl | hlog⟩ := R.mem_log_iff.mp h
    · exact R.size_lt hd
    · exact (ih d hd hlog).trans (R.size_lt hd)

/-- What holds between a call and the calls in its course, and between the courses of calls that one
call makes after each other, holds between any two calls in the order of time. -/
theorem pairwise_log {r : Call → Call → Prop} (hdown : ∀ c, ∀ e ∈ R.log c, r c e)
    (hnext : ∀ c, (R.calls c).Pairwise fun d d' => ∀ e ∈ d :: R.log d, ∀ e' ∈ d' :: R.log d', r e e')
    (c : Call) : (c :: R.log c).Pairwise r := by
  induction c using R.induction with
  | h c ih =>
    refine List.pairwise_cons.mpr ⟨hdown c, ?_⟩
    rw [log_eq, List.pairwise_flatMap]
    exact ⟨ih, hnext c⟩

/-- Calls that use up what they are given. `marked` tells the calls that count, `distance` how far
from the end they are made, and `rest` how far from the end a call that succeeds leaves off. -/
structure UsesUp (marked : Call → Prop) (distance : Call → Nat) (rest : Result → Option Nat) : Prop where
  takes : ∀ c, ∀ d ∈ R.calls c, marked d → ∀ n, rest (R.run d) = some n → n < distance d
  keeps : ∀ c, ∀ d ∈ R.calls c, ∀ n, rest (R.run c) = some n → ∃ m, rest (R.run d) = some m ∧ n ≤ m
  goesOn : ∀ c, (R.calls c).Pairwise fun d d' => ∃ n, rest (R.run d) = some n ∧
    ∀ e ∈ d' :: R.log d', marked e → distance e ≤ n

namespace UsesUp

variable {R} {marked : Call → Prop} {distance : Call → Nat} {rest : Result → Option Nat}

/-- All calls in the course of a call are made before it leaves off. -/
theorem rest_lt (h : R.UsesUp marked distance rest) {c d e : Call} (hd : d ∈ R.calls c) {n : Nat}
    (hn : rest (R.run d) = some n) (he : e ∈ d :: R.log d) (hmarked : marked e) : n < distance e := by
  induction d using R.induction generalizing c n with
  | h d ih =>
    rcases List.mem_cons.mp he with rfl | he
    · exact h.takes c e hd hmarked n hn
    · obtain ⟨d', hd', he⟩ := R.mem_log_iff.mp he
      obtain ⟨m, hm, hle⟩ := h.keeps d d' hd' n hn
      exact hle.trans_lt (ih d' hd' hd' hm (List.mem_cons.mpr he))

/-- Of two calls that one call makes, the course of the second is nearer to the end. -/
theorem distance_lt (h : R.UsesUp marked distance rest) (c : Call) :
    (R.calls c).Pairwise fun d d' => ∀ e ∈ d :: R.log d, ∀ e' ∈ d' :: R.log d',
      marked e → marked e' → distance e' < distance e := by
  refine List.Pairwise.imp_of_mem ?_ (h.goesOn c)
  rintro d d' hd - ⟨n, hn, hle⟩ e he e' he' hmarked hmarked'
  exact (hle e' he' hmarked').trans_lt (h.rest_lt hd hn he hmarked)

/-- In the order of time, a call comes after another in its course, or it is nearer to the end. -/
theorem pairwise (h : R.UsesUp marked distance rest) {r : Call → Call → Prop}
    (hdown : ∀ c, ∀ e ∈ R.log c, r c e)
    (hnearer : ∀ e e', (marked e → marked e' → distance e' < distance e) → r e e') (c : Call) :
    (c :: R.log c).Pairwise r := by
  refine R.pairwise_log hdown (fun c => (h.distance_lt c).imp ?_) c
  intro d d' hlt e he e' he'
  exact hnearer e e' (hlt e he e' he')

end UsesUp

end Recursion

/-! ### Readers -/

/-- How far from the end a reader that succeeds leaves off, counted in halves. -/
def leftOff {ε α β : Type} : Except ε (α × List β) → Option Nat
  | .ok (_, rest) => some (2 * rest.length)
  | .error _ => none

section

variable {ε α β : Type} {outcome other : Except ε (α × List β)}

theorem leftOff_eq_some_iff {n : Nat} :
    leftOff outcome = some n ↔ ∃ v rest, outcome = .ok (v, rest) ∧ 2 * rest.length = n := by
  rcases outcome with e | ⟨v, rest⟩ <;> simp [leftOff]

theorem leftOff_eq_of_map_snd (h : outcome.map Prod.snd = other.map Prod.snd) :
    leftOff outcome = leftOff other := by
  rcases outcome with e | ⟨v, rest⟩ <;> rcases other with e' | ⟨w, left⟩ <;>
    simp_all [Except.map, leftOff]

end

end TemplateDocs
