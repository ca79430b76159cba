import Mathlib

/-!
# Results and lists

Facts about results that may be errors, and about lists, that proofs about several readers rest on.
-/

namespace Except

variable {ε α β : Type}

theorem map_eq_ok_iff {x : Except ε α} {f : α → β} {b : β} :
    x.map f = .ok b ↔ ∃ a, x = .ok a ∧ f a = b := by
  cases x <;> simp [Except.map]

theorem bind_eq_bind (x : Except ε α) (f : α → Except ε β) : (x >>= f) = x.bind f := rfl

theorem bind_eq_ok_iff {x : Except ε α} {f : α → Except ε β} {b : β} :
    x.bind f = .ok b ↔ ∃ a, x = .ok a ∧ f a = .ok b := by
  cases x <;> simp [Except.bind]

theorem toOption_eq_some_iff {x : Except ε α} {a : α} : x.toOption = some a ↔ x = .ok a := by
  cases x <;> simp [Except.toOption]

end Except

/-- The last of two lists that is not empty ends in what both together end in. -/
theorem List.exists_concat_of_append_eq {α : Type} {front back ts : List α} {k : α} (hne : back ≠ [])
    (h : front ++ back = ts ++ [k]) : ∃ init, back = init ++ [k] ∧ front ++ init = ts := by
  rcases List.eq_nil_or_concat back with rfl | ⟨init, last, rfl⟩
  · exact absurd rfl hne
  · rw [List.concat_eq_append, ← List.append_assoc] at h
    obtain ⟨hinit, hlast⟩ := List.append_inj' h rfl
    exact ⟨init, by rw [List.concat_eq_append, hlast], hinit⟩
