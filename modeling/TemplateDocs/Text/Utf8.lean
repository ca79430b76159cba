import TemplateDocs.Power
import TemplateDocs.Text.Basic

/-!
# Text as bytes

Text is stored as UTF-8. Bytes that are no UTF-8 are either refused or shown by a replacement
character, one for each longest run that could have started a character.
-/
namespace TemplateDocs

abbrev Bytes := List UInt8

namespace Text

def encodeChar (c : Char) : Bytes :=
  let n := c.toNat
  let tail (shift : Nat) : UInt8 := UInt8.ofNat (0x80 + n / twoTo shift % 64)
  if n < 0x80 then [UInt8.ofNat n]
  else if n < 0x800 then [UInt8.ofNat (0xC0 + n / twoTo 6), tail 0]
  else if n < 0x10000 then [UInt8.ofNat (0xE0 + n / twoTo 12), tail 6, tail 0]
  else [UInt8.ofNat (0xF0 + n / twoTo 18), tail 12, tail 6, tail 0]

def toBytes (t : Text) : Bytes := t.flatMap encodeChar

/-- What a first byte asks for: the number of bytes that follow, the range of the next one, and the
bits that the first one gives. -/
structure Lead where
  following : Nat
  low : Nat
  high : Nat
  bits : Nat

def lead? (n : Nat) : Option Lead :=
  if 0xC2 ≤ n ∧ n ≤ 0xDF then some ⟨1, 0x80, 0xBF, n - 0xC0⟩
  else if n = 0xE0 then some ⟨2, 0xA0, 0xBF, 0⟩
  else if n = 0xED then some ⟨2, 0x80, 0x9F, 0xD⟩
  else if 0xE1 ≤ n ∧ n ≤ 0xEF then some ⟨2, 0x80, 0xBF, n - 0xE0⟩
  else if n = 0xF0 then some ⟨3, 0x90, 0xBF, 0⟩
  else if 0xF1 ≤ n ∧ n ≤ 0xF3 then some ⟨3, 0x80, 0xBF, n - 0xF0⟩
  else if n = 0xF4 then some ⟨3, 0x80, 0x8F, 4⟩
  else none

/-- Takes `count` following bytes, the first of them from the given range. -/
def following (low high : Nat) : Nat → Nat → Bytes → Option Char × Bytes
  | 0, acc, bytes => (some (Char.ofNat acc), bytes)
  | _ + 1, _, [] => (none, [])
  | count + 1, acc, b :: bytes =>
    if low ≤ b.toNat ∧ b.toNat ≤ high then
      following 0x80 0xBF count (acc * 64 + (b.toNat - 0x80)) bytes
    else (none, b :: bytes)

theorem following_length (low high count acc : Nat) (bytes : Bytes) :
    (following low high count acc bytes).2.length ≤ bytes.length := by
  induction bytes generalizing low high count acc with
  | nil => cases count <;> simp [following]
  | cons b bytes ih =>
    cases count with
    | zero => simp [following]
    | succ count =>
      unfold following
      split
      · exact Nat.le_succ_of_le (ih _ _ _ _)
      · exact Nat.le_refl _

/-- The character that starts with `b`, or none if there is no such character; and what is left. -/
def decodeOne (b : UInt8) (bytes : Bytes) : Option Char × Bytes :=
  if b.toNat < 0x80 then (some (Char.ofNat b.toNat), bytes)
  else
    match lead? b.toNat with
    | none => (none, bytes)
    | some l => following l.low l.high l.following l.bits bytes

theorem decodeOne_length (b : UInt8) (bytes : Bytes) :
    (decodeOne b bytes).2.length ≤ bytes.length := by
  unfold decodeOne
  split
  · exact Nat.le_refl _
  · split
    · exact Nat.le_refl _
    · exact following_length _ _ _ _ _

/-- The characters of bytes; each run that is none gives nothing. -/
def decodeRuns (bytes : Bytes) : List (Option Char) :=
  match bytes with
  | [] => []
  | b :: rest =>
    have := decodeOne_length b rest
    (decodeOne b rest).1 :: decodeRuns (decodeOne b rest).2
termination_by bytes.length

/-- The text of bytes that are all UTF-8. -/
def ofBytes? (bytes : Bytes) : Option Text := (decodeRuns bytes).mapM id

/-- The text of any bytes, with replacement characters. -/
def ofBytesLossy (bytes : Bytes) : Text := (decodeRuns bytes).map fun c => c.getD '�'

end Text
end TemplateDocs
