import SlangTape.Command

set_option autoImplicit false

namespace SlangTape

structure Row where
  spelling : Text
  command : Command
  deriving DecidableEq, Repr

/-- Admitted symbols are compared whole: a symbol of several characters, or of none, admits no
character of a program. -/
structure Language where
  table : List Row
  alphabet : List Text
  separators : List Text
  deriving DecidableEq, Repr

namespace Language

def standardSeparators : List Text := [[' '], ['\t'], ['\r'], ['\n']]

def isSeparator (l : Language) (c : Char) : Bool := l.separators.contains [c]

def isLetter (l : Language) (c : Char) : Bool := l.alphabet.contains [c]

def admits (l : Language) (symbol : Text) : Bool :=
  l.alphabet.contains symbol || l.separators.contains symbol

def leading? (l : Language) (t : Text) : Option Row :=
  l.table.find? fun row => row.spelling.isPrefixOf t

/-- The first row whose spelling occurs in `t` at position `i`, which may count from the end. -/
def matchAt? (l : Language) (t : Text) (i : Int) : Option Row :=
  (t.fromIndex i).bind l.leading?

end Language

end SlangTape
