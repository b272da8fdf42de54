import SlangTape.Text

set_option autoImplicit false

namespace SlangTape

inductive Command where
  | decrement
  | decrementTwo
  | increment
  | incrementTwo
  | zero
  | moveLeft
  | moveRight
  | loopStart
  | loopEnd
  | skip
  | printChar
  | readChar
  | printInt
  | readInt
  | copyPaste
  | terminate
  deriving DecidableEq, Repr, Inhabited

namespace Command

def all : List Command :=
  [decrement, decrementTwo, increment, incrementTwo, zero, moveLeft, moveRight, loopStart,
    loopEnd, skip, printChar, readChar, printInt, readInt, copyPaste, terminate]

theorem mem_all (c : Command) : c ∈ all := by cases c <;> decide

def spelling : Command → Text
  | decrement => ['m', 'a', 'r', 'i', 'c', 'ó', 'n']
  | decrementTwo => ['m', 'a', 'r', 'a', 'c', 'o']
  | increment => ['w', 'e', 'ó', 'n']
  | incrementTwo => ['a', 'w', 'e', 'o', 'n', 'a', 'o']
  | zero => ['m', 'a', 'r', 'a', 'c', 'a']
  | moveLeft => ['c', 'h', 'u', 'c', 'h', 'a']
  | moveRight => ['p', 'u', 't', 'a']
  | loopStart => ['p', 'i', 'c', 'h', 'u', 'l', 'a']
  | loopEnd => ['t', 'u', 'l', 'a']
  | skip => ['p', 'i', 'c', 'o']
  | printChar => ['c', 't', 'm']
  | readChar => ['q', 'u', 'é', 'w', 'e', 'á']
  | printInt => ['c', 'h', 'ú', 'p', 'a', 'l', 'a']
  | readInt => ['b', 'r', 'í', 'g', 'i', 'd', 'o']
  | copyPaste => ['p', 'e', 'r', 'k', 'i', 'n']
  | terminate => ['m', 'i', 'e', 'r', 'd', 'a']

def name : Command → String
  | decrement => "DECREMENT"
  | decrementTwo => "DECREMENT_TWO"
  | increment => "INCREMENT"
  | incrementTwo => "INCREMENT_TWO"
  | zero => "ZERO"
  | moveLeft => "MOVE_LEFT"
  | moveRight => "MOVE_RIGHT"
  | loopStart => "LOOP_START"
  | loopEnd => "LOOP_END"
  | skip => "SKIP"
  | printChar => "PRINT_CHAR"
  | readChar => "READ_CHAR"
  | printInt => "PRINT_INT"
  | readInt => "READ_INT"
  | copyPaste => "COPY_PASTE"
  | terminate => "TERMINATE"

def ofName? (name : String) : Option Command := all.find? (·.name == name)

end Command

end SlangTape
