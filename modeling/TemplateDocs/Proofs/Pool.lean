import Mathlib

/-!
# Work shared among workers

A pool goes through a list of inputs with a number of workers. Which input a free worker takes and
which worker is done first is left open; a result is put at the place of its input. Whatever the
order, a pool that has come to its end holds the results in the order of the inputs.
-/
namespace TemplateDocs

/-- Inputs that nobody has taken, inputs that are worked on, and the results by place. -/
structure Pool (ρ : Type) where
  waiting : List Nat
  running : List Nat
  results : List (Option ρ)

namespace Pool

variable {α ρ : Type}

def initial (count : Nat) : Pool ρ := ⟨List.range count, [], List.replicate count none⟩

def Done (s : Pool ρ) : Prop := s.waiting = [] ∧ s.running = []

inductive Step (workers : Nat) (work : α → ρ) (inputs : List α) : Pool ρ → Pool ρ → Prop
  | take {s : Pool ρ} {i : Nat} (hfree : s.running.length < workers) (hi : i ∈ s.waiting) :
      Step workers work inputs s
        { s with waiting := s.waiting.erase i, running := i :: s.running }
  | finish {s : Pool ρ} {i : Nat} {a : α} (hi : i ∈ s.running) (ha : inputs[i]? = some a) :
      Step workers work inputs s
        { s with running := s.running.erase i, results := s.results.set i (some (work a)) }

abbrev Run (workers : Nat) (work : α → ρ) (inputs : List α) : Pool ρ → Pool ρ → Prop :=
  Relation.ReflTransGen (Step workers work inputs)

/-- Every input is waiting, worked on, or has its result in place. -/
structure Sound (work : α → ρ) (inputs : List α) (s : Pool ρ) : Prop where
  length : s.results.length = inputs.length
  accounted : ∀ i a, inputs[i]? = some a →
    i ∈ s.waiting ∨ i ∈ s.running ∨ s.results[i]? = some (some (work a))

variable {workers : Nat} {work : α → ρ} {inputs : List α} {s s' : Pool ρ}

theorem initial_sound : Sound work inputs (initial inputs.length) := by
  refine ⟨List.length_replicate, fun i a ha => .inl ?_⟩
  exact List.mem_range.mpr (List.getElem?_eq_some_iff.mp ha).1

theorem Step.sound (hs : Sound work inputs s) (h : Step workers work inputs s s') :
    Sound work inputs s' := by
  cases h with
  | @take i _ hi =>
    refine ⟨hs.length, fun j a ha => ?_⟩
    by_cases hj : j = i
    · exact .inr (.inl (hj ▸ List.mem_cons_self))
    rcases hs.accounted j a ha with hw | hr | hdone
    · exact .inl ((List.mem_erase_of_ne hj).mpr hw)
    · exact .inr (.inl (List.mem_cons_of_mem _ hr))
    · exact .inr (.inr hdone)
  | @finish i b hi hb =>
    refine ⟨by rw [List.length_set, hs.length], fun j a ha => ?_⟩
    by_cases hj : j = i
    · subst hj
      obtain rfl : a = b := Option.some.inj (ha.symm.trans hb)
      have hlt : j < s.results.length := hs.length ▸ (List.getElem?_eq_some_iff.mp ha).1
      exact .inr (.inr (List.getElem?_set_self hlt))
    rcases hs.accounted j a ha with hw | hr | hdone
    · exact .inl hw
    · exact .inr (.inl ((List.mem_erase_of_ne hj).mpr hr))
    · exact .inr (.inr ((List.getElem?_set_ne (Ne.symm hj)).trans hdone))

theorem Run.sound (hs : Sound work inputs s) (h : Run workers work inputs s s') :
    Sound work inputs s' := by
  induction h with
  | refl => exact hs
  | tail _ hstep ih => exact hstep.sound ih

/-- At the end the results stand in the order of the inputs. -/
theorem Run.results_eq (h : Run workers work inputs (initial inputs.length) s) (hdone : s.Done) :
    s.results = inputs.map fun a => some (work a) := by
  have hs := Run.sound initial_sound h
  apply List.ext_getElem?
  intro i
  rw [List.getElem?_map]
  cases ha : inputs[i]? with
  | none =>
    rw [List.getElem?_eq_none_iff, ← hs.length] at ha
    exact List.getElem?_eq_none_iff.mpr ha
  | some a =>
    rcases hs.accounted i a ha with hw | hr | hresult
    · simp [hdone.1] at hw
    · simp [hdone.2] at hr
    · exact hresult

/-- A pool with a worker can come to its end. -/
theorem exists_done (hworkers : 0 < workers) (waiting : List Nat)
    (hwaiting : ∀ i ∈ waiting, i < inputs.length) (results : List (Option ρ)) :
    ∃ s, Run workers work inputs ⟨waiting, [], results⟩ s ∧ s.Done := by
  induction waiting generalizing results with
  | nil => exact ⟨_, .refl, rfl, rfl⟩
  | cons i waiting ih =>
    have hlt := hwaiting i List.mem_cons_self
    have htake : Step workers work inputs ⟨i :: waiting, [], results⟩ ⟨waiting, [i], results⟩ := by
      simpa using Step.take (s := ⟨i :: waiting, [], results⟩) (i := i) hworkers (by simp)
    have hfinish : Step workers work inputs ⟨waiting, [i], results⟩
        ⟨waiting, [], results.set i (some (work inputs[i]))⟩ := by
      simpa using Step.finish (s := ⟨waiting, [i], results⟩) (by simp)
        (List.getElem?_eq_getElem hlt)
    obtain ⟨s, hrun, hdone⟩ := ih (fun j hj => hwaiting j (List.mem_cons_of_mem _ hj)) _
    exact ⟨s, .head htake (.head hfinish hrun), hdone⟩

end Pool
end TemplateDocs
