import SlangTape.Failure

set_option autoImplicit false

namespace SlangTape

/-- Which calls of a channel break and how, the calls being numbered from zero. -/
abbrev Breaks := Nat → Option Failure

namespace Breaks

def never : Breaks := fun _ => none

def only (k : Int) (f : Failure) : Breaks := fun n => if (n : Int) = k then some f else none

end Breaks

end SlangTape
