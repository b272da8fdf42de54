set_option autoImplicit false

namespace SlangTape

/-- A position in a sequence of `n` items, where a negative one counts from the end. -/
def signedIndex? (n : Nat) (i : Int) : Option Nat :=
  if 0 ≤ i ∧ i < n then some i.toNat
  else if i < 0 ∧ -(n : Int) ≤ i then some (i + n).toNat
  else none

theorem signedIndex?_natCast {n k : Nat} (h : k < n) : signedIndex? n k = some k := by
  simp [signedIndex?, h]

end SlangTape
