import TemplateDocs.Lines
import TemplateDocs.Power

/-!
# Capture modes

How much of the code after an annotated comment belongs to it.
-/
namespace TemplateDocs

inductive Capture where
  /-- One code block, when nothing is said. -/
  | single
  | count (blocks : Nat)
  /-- Every block until the scope of the marker ends. -/
  | all
  /-- Like `all`, but only up to the next marker. -/
  | untilMarker
  deriving DecidableEq, Repr

namespace Capture

/-- The largest count that can be asked for. -/
def maxCount : Nat := twoTo 32 - 1

/-- Reads `all`, `section` or a positive count. -/
def parse? (t : Text) : Option Capture :=
  let word := Text.trim t
  if word = "all".toList then some .all
  else if word = "section".toList then some .untilMarker
  else
    match Text.natural? 10 word with
    | some n => if 0 < n ∧ n ≤ maxCount then some (.count n) else none
    | none => none

def text : Capture → Text
  | .single => "default".toList
  | .count n => Text.ofNat n
  | .all => "all".toList
  | .untilMarker => "section".toList

/-- How many code blocks are taken; without a bound there is no number. -/
def bound? : Capture → Option Nat
  | .single => some 1
  | .count n => some n
  | .all | .untilMarker => none

end Capture
end TemplateDocs
