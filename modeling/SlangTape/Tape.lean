import SlangTape.Config
import SlangTape.Failure

set_option autoImplicit false

namespace SlangTape

structure Tape where
  width : Width
  cells : Array Nat
  cursor : Nat
  deriving DecidableEq, Repr

namespace Tape

def initialSize : Nat := 1024

def blank (width : Width) (size : Nat) : Tape := ⟨width, Array.replicate size 0, 0⟩

def make (width : Width) (size : Int) : Except Failure Tape :=
  if size < 0 then .error .negativeSize else .ok (blank width size.toNat)

def size (t : Tape) : Nat := t.cells.size

/-- The value of a cell, zero beyond the stored ones. -/
def cell (t : Tape) (i : Nat) : Nat := t.cells[i]?.getD 0

def look (t : Tape) (i : Int) : Except Failure Nat :=
  if i < 0 then .error (.noSuchCell i) else .ok (t.cell i.toNat)

@[inline]
def read (t : Tape) : Except Failure Nat :=
  if t.cursor < t.size then .ok (t.cell t.cursor) else .error (.cursorOutside t.cursor t.size)

def store (t : Tape) (v : Int) : Tape :=
  { t with cells := t.cells.setIfInBounds t.cursor (t.width.wrap v) }

@[inline]
def write (t : Tape) (v : Int) : Except Failure Tape :=
  if t.cursor < t.size then .ok (t.store v) else .error (.cursorOutside t.cursor t.size)

@[inline]
def add (t : Tape) (v : Int) : Except Failure Tape :=
  if t.cursor < t.size then .ok (t.store (t.cell t.cursor + v))
  else .error (.cursorOutside t.cursor t.size)

def moveLeft (t : Tape) : Except Failure Tape :=
  if t.cursor = 0 then .error Fault.tapeUnderflow.toFailure
  else .ok { t with cursor := t.cursor - 1 }

def moveRight (t : Tape) : Tape :=
  { t with
    cursor := t.cursor + 1
    cells := if t.cells.size ≤ t.cursor + 1 then t.cells ++ Array.replicate t.cells.size 0
      else t.cells }

def marked (t : Tape) : Array (Nat × Nat) :=
  t.size.fold (fun i _ found => if t.cell i = 0 then found else found.push (i, t.cell i)) #[]

theorem cell_store (t : Tape) (v : Int) (i : Nat) :
    (t.store v).cell i = if i = t.cursor ∧ i < t.size then t.width.wrap v else t.cell i := by
  simp only [cell, store, size, Array.getElem?_setIfInBounds]
  by_cases h : t.cursor = i
  · subst h
    by_cases hi : t.cursor < t.cells.size <;> simp [hi]
  · simp [h, Ne.symm h]

theorem cell_moveRight (t : Tape) (i : Nat) : t.moveRight.cell i = t.cell i := by
  simp only [cell, moveRight]
  split
  · rw [Array.getElem?_append]
    split
    · rfl
    · next h =>
      have none : t.cells[i]? = none := Array.getElem?_eq_none (Nat.le_of_not_lt h)
      by_cases hi : i - t.cells.size < t.cells.size <;> simp [none, hi]
  · rfl

end Tape

/-- What was copied and has not been pasted yet. -/
abbrev Clipboard := Option Nat

/-- Copies the cell under the cursor to an empty clipboard, and empties a full one into it. -/
@[inline]
def Clipboard.use (clip : Clipboard) (t : Tape) : Except Failure (Clipboard × Tape) :=
  match clip with
  | none => t.read.map fun v => (some v, t)
  | some v => (t.write v).map fun t' => (none, t')

end SlangTape
