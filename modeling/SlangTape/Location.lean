import SlangTape.Command

set_option autoImplicit false

namespace SlangTape

structure Position where
  line : Int
  column : Int
  deriving DecidableEq, Repr

namespace Position

def start : Position := ⟨1, 1⟩

def after (p : Position) (c : Char) : Position :=
  if c = '\n' then ⟨p.line + 1, 1⟩ else ⟨p.line, p.column + 1⟩

def shift (p : Position) (n : Nat) : Position := ⟨p.line, p.column + n⟩

theorem shift_shift (p : Position) (m n : Nat) : (p.shift m).shift n = p.shift (m + n) := by
  simp [shift]; omega

end Position

structure Location where
  file : String
  position : Position
  statement : Text
  deriving DecidableEq, Repr

def placeName (file : String) (p : Position) : String :=
  let line := p.line
  let column := p.column
  s!"{file}:{line}:{column}"

end SlangTape
