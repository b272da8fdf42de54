import SlangTape.Text

set_option autoImplicit false

namespace SlangTape

def hex (width n : Nat) : Text := List.leftpad width '0' (Nat.toDigits 16 n)

def codePointName (c : Char) : String :=
  "U+" ++ String.ofList ((hex 4 c.toNat).map Char.toUpper)

end SlangTape
