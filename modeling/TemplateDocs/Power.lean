/-!
# Powers

Bounds of machine words and scales of decimals.
-/
namespace TemplateDocs

/-- Two to a power. -/
def twoTo (n : Nat) : Nat := Nat.pow 2 n

/-- Ten to a power. -/
def tenTo (n : Nat) : Nat := Nat.pow 10 n

end TemplateDocs
