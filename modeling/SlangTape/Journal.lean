import SlangTape.Failure
import SlangTape.Program

set_option autoImplicit false

namespace SlangTape

structure Entry where
  step : Nat
  index : Int
  location : Location
  deriving DecidableEq, Repr

/-- The place of the command at `i`, where a negative `i` counts from the end of the places. -/
def Program.location (p : Program) (i : Int) : Except Failure Location :=
  match (signedIndex? p.locations.size i).bind (p.locations[·]?) with
  | some (some l) => .ok l
  | some none => .error .placeUnknown
  | none => .error .noSuchCommand

structure Journal where
  program : Option Program := none
  count : Nat := 0
  last : Option Int := none

namespace Journal

def opened (p : Program) : Journal where
  program := some p

def record (j : Journal) (index : Int) : Journal :=
  { j with count := j.count + 1, last := some index }

/-- The latest entry: none before the first step or the first program. The program may lack the
place of its command. -/
def entry (j : Journal) : Except Failure (Option Entry) :=
  match j.program, j.last with
  | some p, some i => (p.location i).map fun l => some ⟨j.count - 1, i, l⟩
  | _, _ => .ok none

end Journal

end SlangTape
