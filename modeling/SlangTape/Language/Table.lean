import SlangTape.Language

set_option autoImplicit false

namespace SlangTape

inductive TableError where
  | emptySpelling (command : Command)
  | alreadyBound (spelling : Text) (command : Command)
  | holdsSeparator (spelling : Text)
  | startsAnother (row other : Row)
  deriving DecidableEq, Repr

def TableError.message : TableError → String
  | .emptySpelling c => "Command " ++ c.name ++ " has an empty spelling"
  | .alreadyBound t c =>
    "Spelling '" ++ String.ofList t ++ "' is already bound to " ++ c.name
  | .holdsSeparator t => "Spelling '" ++ String.ofList t ++ "' contains a separator"
  | .startsAnother r o =>
    "Spelling '" ++ String.ofList r.spelling ++ "' (" ++ r.command.name ++
      ") is a prefix of '" ++ String.ofList o.spelling ++ "' (" ++ o.command.name ++ ")"

namespace Table

def rowError? (before : List Row) (row : Row) : Option TableError :=
  if row.spelling = [] then some (.emptySpelling row.command)
  else
    match before.find? fun r => r.spelling == row.spelling with
    | some r => some (.alreadyBound row.spelling r.command)
    | none =>
      if row.spelling.any fun c => Language.standardSeparators.contains [c] then
        some (.holdsSeparator row.spelling)
      else none

def firstRowError? (before : List Row) : List Row → Option TableError
  | [] => none
  | row :: rows => (rowError? before row).or (firstRowError? (before ++ [row]) rows)

/-- The first row, and for it the first other row, such that the one spelling starts the other. -/
def firstClash? (table : List Row) : Option TableError :=
  table.findSome? fun row =>
    (table.find? fun o => o.spelling != row.spelling && row.spelling.isPrefixOf o.spelling).map
      fun o => .startsAnother row o

def error? (table : List Row) : Option TableError :=
  (firstRowError? [] table).or (firstClash? table)

end Table

namespace Language

def ofTable (table : List Row) : Except TableError Language :=
  match Table.error? table with
  | some e => .error e
  | none => .ok
    { table
      alphabet := (table.flatMap Row.spelling).eraseDups.map fun c => [c]
      separators := standardSeparators }

def standardTable : List Row := Command.all.map fun c => ⟨c.spelling, c⟩

def standard : Language where
  table := standardTable
  alphabet := (standardTable.flatMap Row.spelling).eraseDups.map fun c => [c]
  separators := standardSeparators

theorem ofTable_standardTable : ofTable standardTable = .ok standard := by
  have h : Table.error? standardTable = none := by decide +kernel
  simp [ofTable, standard, h]

end Language

end SlangTape
