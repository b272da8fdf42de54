import SlangTape.Text

set_option autoImplicit false

namespace SlangTape.Utf8

def replacement : Char := Char.ofNat 0xFFFD

/-- A character of which `missing` more bytes than the next are to come. The next lies between
`low` and `high`, which keeps out overlong forms, surrogates and what lies beyond the last plane.
-/
structure Partial where
  bits : Nat
  missing : Nat
  low : Nat := 0x80
  high : Nat := 0xBF
  deriving DecidableEq, Repr

def lead (b : Nat) : Text × Option Partial :=
  if b < 0x80 then ([Char.ofNat b], none)
  else if b < 0xC2 then ([replacement], none)
  else if b < 0xE0 then ([], some { bits := b - 0xC0, missing := 0 })
  else if b = 0xE0 then ([], some { bits := 0, missing := 1, low := 0xA0 })
  else if b = 0xED then ([], some { bits := 0xD, missing := 1, high := 0x9F })
  else if b < 0xF0 then ([], some { bits := b - 0xE0, missing := 1 })
  else if b = 0xF0 then ([], some { bits := 0, missing := 2, low := 0x90 })
  else if b < 0xF4 then ([], some { bits := b - 0xF0, missing := 2 })
  else if b = 0xF4 then ([], some { bits := 4, missing := 2, high := 0x8F })
  else ([replacement], none)

def feed : Option Partial → Nat → Text × Option Partial
  | none, b => lead b
  | some p, b =>
    if p.low ≤ b ∧ b ≤ p.high then
      let bits := p.bits * 64 + (b - 0x80)
      match p.missing with
      | 0 => ([Char.ofNat bits], none)
      | n + 1 => ([], some { bits, missing := n })
    else
      let (t, q) := lead b
      (replacement :: t, q)

def decodeFrom (q : Option Partial) : List UInt8 → Text
  | [] => if q.isSome then [replacement] else []
  | b :: bs =>
    let (t, q') := feed q b.toNat
    t ++ decodeFrom q' bs

def decode (bytes : List UInt8) : Text := decodeFrom none bytes

def dropMark : List UInt8 → List UInt8
  | 0xEF :: 0xBB :: 0xBF :: bytes => bytes
  | bytes => bytes

end SlangTape.Utf8
