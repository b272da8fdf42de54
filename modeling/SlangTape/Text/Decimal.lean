import SlangTape.Text

set_option autoImplicit false

namespace SlangTape

def decimal (n : Nat) : Text := Nat.toDigits 10 n

structure Numeral where
  negative : Bool
  digits : Text

namespace Numeral

/-- An optional sign, then one or more of the digits `0` to `9` and nothing else. -/
def ofText? (t : Text) : Option Numeral :=
  let n : Numeral := match t with
    | '+' :: ds => ⟨false, ds⟩
    | '-' :: ds => ⟨true, ds⟩
    | ds => ⟨false, ds⟩
  if n.digits ≠ [] ∧ n.digits.all Char.isDigit then some n else none

def value (n : Numeral) : Int :=
  let v : Nat := Nat.ofDigitChars 10 n.digits 0
  if n.negative then -v else v

theorem value_decimal (n : Nat) : value ⟨false, decimal n⟩ = n := by
  simp [value, decimal, Nat.ofDigitChars_toDigits]

theorem all_isDigit_decimal (n : Nat) : (decimal n).all Char.isDigit = true := by
  rw [List.all_eq_true]
  exact fun c h => Nat.isDigit_of_mem_toDigits (by decide) (by decide) h

theorem ofText?_of_digits {ds : Text} (nonempty : ds ≠ []) (digits : ds.all Char.isDigit = true) :
    ofText? ds = some ⟨false, ds⟩ := by
  unfold ofText?
  split
  · simp at digits
  · simp at digits
  · simp [nonempty, digits]

theorem ofText?_decimal (n : Nat) : ofText? (decimal n) = some ⟨false, decimal n⟩ :=
  ofText?_of_digits Nat.toDigits_ne_nil (all_isDigit_decimal n)

end Numeral

end SlangTape
