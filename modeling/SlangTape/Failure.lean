import SlangTape.ParseError

set_option autoImplicit false

namespace SlangTape

inductive Fault where
  | general (message : String)
  | tapeUnderflow
  | malformedInteger (text : Text)
  | unprintableCharacter (value : Int)
  deriving DecidableEq, Repr

namespace Fault

def message : Fault → String
  | general m => m
  | tapeUnderflow => "Cannot move left of the first cell"
  | malformedInteger t => "Expected a decimal integer on input but got '" ++ String.ofList t ++ "'"
  | unprintableCharacter v => s!"Cell value {v} is not a valid code point"

def label : Fault → String
  | general _ => "LaWeaRuntimeError"
  | tapeUnderflow => "TapeUnderflow"
  | malformedInteger _ => "MalformedIntegerInput"
  | unprintableCharacter _ => "UnprintableCharacter"

end Fault

structure RuntimeError where
  fault : Fault
  location : Option Location := none
  command : Option Text := none
  step : Option Nat := none
  deriving DecidableEq, Repr

mutual

inductive Failure where
  | runtime (error : RuntimeError)
  | parse (error : ParseError)
  /-- A program has no command, or no place, at the index asked for. -/
  | noSuchCommand
  /-- A program has an empty entry where the place of a command is asked for. -/
  | placeUnknown
  | noSuchJump (index : Int)
  | noSuchCell (index : Int)
  | cursorOutside (cursor size : Nat)
  | negativeSize
  | notOneCharacter (length : Nat)
  | tooManyDigits (count : Nat)
  | channel (cause : Breakage)
  | general (message : String)
  deriving DecidableEq, Repr

/-- What a call to the outside breaks with when it is nothing of the language. -/
inductive Breakage where
  | error (message : String)
  /-- An error that cannot say what it is: asking it fails in turn. -/
  | mute (asking : Failure)
  /-- No error but a demand to stop. -/
  | interrupt (message : String)
  deriving DecidableEq, Repr

end

instance : Coe String Breakage := ⟨.error⟩

def Breakage.message : Breakage → String
  | error m => m
  | mute _ => "<exception str() failed>"
  | interrupt m => m

namespace Failure

/-- The most digits, leading zeros among them, that a numeral may have. -/
def maxDigits : Nat := 4300

def message : Failure → String
  | runtime e => e.fault.message
  | parse e => e.message
  | noSuchCommand => "tuple index out of range"
  | placeUnknown => "'NoneType' object has no attribute 'statement'"
  | noSuchJump i => s!"{i}"
  | noSuchCell i => s!"{i}"
  | cursorOutside c n => s!"index {c} is out of bounds for axis 0 with size {n}"
  | negativeSize => "negative dimensions are not allowed"
  | notOneCharacter n => s!"ord() expected a character, but string of length {n} found"
  | tooManyDigits n =>
    s!"Exceeds the limit ({maxDigits} digits) for integer string conversion: " ++
      s!"value has {n} digits; use sys.set_int_max_str_digits() to increase the limit"
  | channel b => b.message
  | general m => m

def said : Failure → Except Failure String
  | channel (.mute f) => .error f
  | f => .ok f.message

end Failure

def Fault.toFailure (f : Fault) : Failure := .runtime { fault := f }

end SlangTape
