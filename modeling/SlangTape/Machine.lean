import SlangTape.Input
import SlangTape.Journal
import SlangTape.Output
import SlangTape.Tape

set_option autoImplicit false

/-!
# The machine

A step fetches the command at the instruction index, enters it in the journal, and only then lets
it take effect. A command that fails has no effect: tape, clipboard and printed texts stay as they
were, and only the journal and the two channels have moved.
-/
namespace SlangTape

structure State where
  index : Int := 0
  tape : Tape
  clipboard : Clipboard := none
  input : Input
  sink : Sink
  events : Array Event := #[]
  journal : Journal

inductive Ending where
  | finished
  | terminated
  | failed (failure : Failure)
  /-- A read goes on for ever, so that no other step is ever taken. -/
  | waiting
  deriving DecidableEq, Repr

inductive Step where
  | next (s : State)
  | halt (ending : Ending) (s : State)

/-- What an observer sees of a step before it takes effect. -/
structure Observation where
  index : Int
  cursor : Nat
  cell : Nat
  deriving DecidableEq, Repr

namespace Program

/-- The command at an instruction index: none past the end, and a negative index counts from the
end. -/
def fetch (p : Program) (i : Int) : Except Failure (Option Command) :=
  if p.size ≤ i then .ok none
  else
    match (signedIndex? p.size i).bind (p.commands[·]?) with
    | some c => .ok (some c)
    | none => .error .noSuchCommand

end Program

namespace State

def start (cfg : Config) (p : Program) (input : Input) (sink : Sink) : State where
  tape := .blank cfg.width Tape.initialSize
  input := input
  sink := sink
  journal := .opened p

@[inline]
def advance (s : State) : Step := .next { s with index := s.index + 1 }

def fail (s : State) (f : Failure) : Step := .halt (.failed f) s

@[inline]
def onTape (s : State) : Except Failure Tape → Step
  | .ok t => { s with tape := t }.advance
  | .error f => s.fail f

def jump (p : Program) (s : State) : Step :=
  match p.jumps[s.index]? with
  | some i => .next { s with index := i }
  | none => s.fail (.noSuchJump s.index)

def jumpIf (p : Program) (test : Nat → Bool) (s : State) : Step :=
  match s.tape.read with
  | .error f => s.fail f
  | .ok v => if test v then s.jump p else s.advance

def emit (s : State) (text : Text) : Step :=
  match s.sink.take with
  | (none, k) =>
    { s with sink := k, events := s.events.push ⟨s.journal.count - 1, text⟩ }.advance
  | (some f, k) => { s with sink := k }.fail f

/-- The character with a given code point. The surrogates and what lies beyond the last plane are
none. -/
def character? (v : Nat) : Option Char :=
  if v < 0xD800 ∨ (0xDFFF < v ∧ v < 0x110000) then some (Char.ofNat v) else none

def printChar (s : State) : Step :=
  match s.tape.read with
  | .error f => s.fail f
  | .ok v =>
    match character? v with
    | some c => s.emit [c]
    | none => s.fail (Fault.unprintableCharacter v).toFailure

def printInt (s : State) : Step :=
  match s.tape.read with
  | .error f => s.fail f
  | .ok v => s.emit (decimal v)

def codePoint : Text → Except Failure Int
  | [c] => .ok c.toNat
  | t => .error (.notOneCharacter t.length)

@[inline]
def accept (cfg : Config) (s : State) : Except Failure (Option Int) → Step
  | .error f => s.fail f
  | .ok none => s.onTape (s.tape.write cfg.endValue)
  | .ok (some v) => s.onTape (s.tape.write v)

def readChar (cfg : Config) (s : State) : Step :=
  match s.input.readChar with
  | (.error f, i) => { s with input := i }.fail f
  | (.ok none, i) => { s with input := i }.accept cfg (.ok none)
  | (.ok (some t), i) => { s with input := i }.accept cfg ((codePoint t).map some)

def readInt (cfg : Config) (s : State) : Step :=
  match s.input.readInt? with
  | some (r, i) => { s with input := i }.accept cfg r
  | none => .halt .waiting s

def copyPaste (s : State) : Step :=
  match s.clipboard.use s.tape with
  | .ok (clip, t) => { s with clipboard := clip, tape := t }.advance
  | .error f => s.fail f

/-- The effect of a command that has been entered in the journal. -/
def perform (cfg : Config) (p : Program) (s : State) : Command → Step
  | .increment => s.onTape (s.tape.add 1)
  | .decrement => s.onTape (s.tape.add (-1))
  | .incrementTwo => s.onTape (s.tape.add 2)
  | .decrementTwo => s.onTape (s.tape.add (-2))
  | .zero => s.onTape (s.tape.write 0)
  | .moveRight => s.onTape (.ok s.tape.moveRight)
  | .moveLeft => s.onTape s.tape.moveLeft
  | .loopStart => s.jumpIf p (· == 0)
  | .loopEnd => s.jumpIf p (· != 0)
  | .skip => s.jump p
  | .printChar => s.printChar
  | .printInt => s.printInt
  | .readChar => s.readChar cfg
  | .readInt => s.readInt cfg
  | .copyPaste => s.copyPaste
  | .terminate => .halt .terminated s

def recorded (s : State) : State := { s with journal := s.journal.record s.index }

def step (cfg : Config) (p : Program) (s : State) : Step :=
  match p.fetch s.index with
  | .error f => s.fail f
  | .ok none => .halt .finished s
  | .ok (some c) => s.recorded.perform cfg p c

/-- Runs until the program ends or has taken `n` more steps and would take another; in the latter
case there is no ending. -/
def runFor (cfg : Config) (p : Program) : Nat → State → Option Ending × State
  | 0, s =>
    match p.fetch s.index with
    | .error f => (some (.failed f), s)
    | .ok none => (some .finished, s)
    | .ok (some _) => (none, s)
  | n + 1, s =>
    match s.step cfg p with
    | .halt e s' => (some e, s')
    | .next s' => runFor cfg p n s'

def traceFor (cfg : Config) (p : Program) : Nat → State → Array Observation → Array Observation
  | 0, _, seen => seen
  | n + 1, s, seen =>
    match p.fetch s.index with
    | .ok (some c) =>
      let seen' := seen.push ⟨s.index, s.tape.cursor, s.tape.cell s.tape.cursor⟩
      match s.recorded.perform cfg p c with
      | .next s' => traceFor cfg p n s' seen'
      | .halt _ _ => seen'
    | _ => seen

end State

end SlangTape
