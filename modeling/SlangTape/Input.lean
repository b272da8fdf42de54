import SlangTape.Channel
import SlangTape.Text.Blank
import SlangTape.Text.Decimal

set_option autoImplicit false

/-!
# Input

The outside is asked for input one answer at a time and answers with a text or breaks. The empty
text means that the input is at its end, for that call only. There is no last answer. A call that
breaks uses up its answer. Whatever comes of a call, it is counted.
-/
namespace SlangTape

abbrev Answer := Except Failure Text

structure Input where
  answers : List Text
  /-- What the call with a given number is answered once the answers at hand are used up. -/
  later : Nat → Text := fun _ => []
  breaks : Breaks := .never
  calls : Nat := 0

def Breaks.answer (b : Breaks) (n : Nat) (t : Text) : Answer :=
  match b n with
  | some f => .error f
  | none => .ok t

namespace Input

def ofText (t : Text) : Input where
  answers := t.map fun c => [c]

def ask (i : Input) : Answer × Input :=
  (i.breaks.answer i.calls (i.answers.headD (i.later i.calls)),
    { i with answers := i.answers.tail, calls := i.calls + 1 })

/-- The empty text is no character but the end of input. -/
def nonempty? (t : Text) : Option Text := if t = [] then none else some t

def readChar (i : Input) : Except Failure (Option Text) × Input :=
  let (a, i') := i.ask
  (a.map nonempty?, i')

def skipBlanks (i : Input) : Option (Answer × Input) :=
  match i.ask with
  | (.error f, i') => some (.error f, i')
  | (.ok t, i') => if t.isBlank then i' |>.skipBlanks else some (.ok t, i')
partial_fixpoint

/-- The answers up to the next that is blank or the end, joined. The one that ends them is used
up. -/
def takeWord (i : Input) : Option (Answer × Input) :=
  match i.ask with
  | (.error f, i') => some (.error f, i')
  | (.ok t, i') =>
    if t = [] ∨ t.isBlank then some (.ok [], i')
    else do
      let (w, i'') ← i' |>.takeWord
      some (w.map (t ++ ·), i'')
partial_fixpoint

/-- The next word of the input, none if the end comes first. There is no result at all if the
answers never come to either. -/
def readToken? (i : Input) : Option (Except Failure (Option Text) × Input) := do
  match ← i.skipBlanks with
  | (.error f, i') => some (.error f, i')
  | (.ok t, i') =>
    if t = [] then some (.ok none, i')
    else
      let (w, i'') ← i'.takeWord
      some (w.map fun u => some (t ++ u), i'')

def integer (w : Text) : Except Failure Int :=
  match Numeral.ofText? w with
  | none => .error (Fault.malformedInteger w).toFailure
  | some n =>
    if Failure.maxDigits < n.digits.length then .error (.tooManyDigits n.digits.length)
    else .ok n.value

def readInt? (i : Input) : Option (Except Failure (Option Int) × Input) :=
  i.readToken?.map fun
    | (.error f, i') => (.error f, i')
    | (.ok none, i') => (.ok none, i')
    | (.ok (some w), i') => ((integer w).map some, i')

/-- The next word of an input on which there is one or the end. -/
def readToken (i : Input) : Except Failure (Option Text) × Input := i.readToken?.getD (.ok none, i)

def readInt (i : Input) : Except Failure (Option Int) × Input := i.readInt?.getD (.ok none, i)

end Input

end SlangTape
