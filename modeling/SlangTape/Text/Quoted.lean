import SlangTape.Text.Hex
import SlangTape.Text.Printable

set_option autoImplicit false

namespace SlangTape.Quoted

def quoteMark (t : Text) : Char := if t.contains '\'' && !t.contains '"' then '"' else '\''

def escape (mark c : Char) : Text :=
  if c = '\\' ∨ c = mark then ['\\', c]
  else if c = '\n' then ['\\', 'n']
  else if c = '\r' then ['\\', 'r']
  else if c = '\t' then ['\\', 't']
  else if isPrintable c then [c]
  else if c.toNat ≤ 0xFF then ['\\', 'x'] ++ hex 2 c.toNat
  else if c.toNat ≤ 0xFFFF then ['\\', 'u'] ++ hex 4 c.toNat
  else ['\\', 'U'] ++ hex 8 c.toNat

def encode (t : Text) : Text :=
  let mark := quoteMark t
  mark :: t.flatMap (escape mark) ++ [mark]

end SlangTape.Quoted
