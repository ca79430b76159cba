import TemplateDocs.Text.Basic

/-!
# Reading off the front

A reader takes something off the front of a list and hands on a strictly shorter rest. Carrying the
bound in the result lets readers call each other without a step count.
-/
namespace TemplateDocs

/-- A value read off the front of `input`, with what is left. -/
structure Taken {β : Type} (α : Type) (input : List β) where
  value : α
  rest : List β
  shorter : rest.length < input.length

namespace Taken

variable {α β γ : Type}

/-- What was read off a suffix was read off the whole list. -/
def widen {s t : List β} (h : s.length ≤ t.length) (r : Taken α s) : Taken α t :=
  ⟨r.value, r.rest, Nat.lt_of_lt_of_le r.shorter h⟩

def map {t : List β} (f : α → γ) (r : Taken α t) : Taken γ t := ⟨f r.value, r.rest, r.shorter⟩

/-- What follows one more item is no longer than the tail of the input. -/
theorem tail_length_le {x y : β} {t tail : List β} (r : Taken α (x :: t)) (h : r.rest = y :: tail) :
    tail.length ≤ t.length := by
  have := r.shorter
  rw [h, List.length_cons, List.length_cons] at this
  omega

/-- One more item read off the rest. -/
def step {x : β} {t : List β} (v : α) : Taken α (x :: t) := ⟨v, t, Nat.lt_succ_self _⟩

end Taken

/-- A value read off the front of `input`, perhaps without taking anything. -/
structure Passed {β : Type} (α : Type) (input : List β) where
  value : α
  rest : List β
  bound : rest.length ≤ input.length

namespace Passed

variable {α β γ : Type}

/-- Nothing is taken. -/
def stay {t : List β} (v : α) : Passed α t := ⟨v, t, Nat.le_refl _⟩

def widen {s t : List β} (h : s.length ≤ t.length) (r : Passed α s) : Passed α t :=
  ⟨r.value, r.rest, Nat.le_trans r.bound h⟩

def map {t : List β} (f : α → γ) (r : Passed α t) : Passed γ t := ⟨f r.value, r.rest, r.bound⟩

/-- What was read off a strictly shorter list took something off the whole. -/
def taken {s t : List β} (h : s.length < t.length) (r : Passed α s) : Taken α t :=
  ⟨r.value, r.rest, Nat.lt_of_le_of_lt r.bound h⟩

end Passed
end TemplateDocs
