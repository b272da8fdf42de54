import SlangTape.Machine
import SlangTape.Traceback

set_option autoImplicit false

/-!
# Sessions

A session keeps a source text and, from one run to the next, what the latest run left behind. Each
run starts on a fresh machine; only the channels go on from where they were. A text that is
refused leaves everything as it was.
-/
namespace SlangTape

structure Session where
  source : Text
  file : String
  config : Config
  language : Language
  input : Input
  sink : Sink := {}
  program : Option Program := none
  tape : Tape := .blank config.width Tape.initialSize
  clipboard : Clipboard := none
  journal : Journal := {}

inductive Outcome where
  | ok
  | stepLimit
  | failed (failure : Failure)
  deriving DecidableEq, Repr

namespace Outcome

def ofEnding : Option Ending → Outcome
  | none => stepLimit
  | some .waiting => stepLimit
  | some .finished => ok
  | some .terminated => ok
  | some (.failed f) => failed f

def mapFailure (g : Failure → Failure) : Outcome → Outcome
  | failed f => failed (g f)
  | o => o

end Outcome

namespace Journal

/-- Adds the latest step to a runtime error. A place or command that the error brings along is
kept, and other failures stay as they are. -/
def stamp (j : Journal) : Failure → Failure
  | .runtime e =>
    match j.entry with
    | .error f => f
    | .ok none => .runtime e
    | .ok (some entry) => .runtime
      { e with
        location := e.location.or (some entry.location)
        command := e.command.or (some entry.location.statement)
        step := some entry.step }
  | f => f

/-- Makes a runtime error of every other error. A demand to stop is none and goes through, and so does
what comes of asking an error that cannot say what it is. -/
def wrap (j : Journal) : Failure → Failure
  | .runtime e => .runtime e
  | .channel (.interrupt m) => .channel (.interrupt m)
  | f =>
    match j.entry, f.said with
    | .error f', _ => f'
    | .ok _, .error f' => f'
    | .ok entry, .ok message => .runtime
      { fault := .general ("Internal interpreter error: " ++ message)
        location := entry.map Entry.location
        command := some ['i', 'n', 't', 'e', 'r', 'n', 'a', 'l']
        step := entry.map Entry.step }

end Journal

namespace Session

def parse (s : Session) : Except ParseError Program := Program.parse s.language s.file s.source

def machine (s : Session) (p : Program) : State := .start s.config p s.input s.sink

def leave (s : Session) (p : Program) (m : State) : Session :=
  { s with
    input := m.input
    sink := m.sink
    program := some p
    tape := m.tape
    clipboard := m.clipboard
    journal := m.journal }

def outcome (ending : Option Ending) (m : State) : Outcome :=
  (Outcome.ofEnding ending).mapFailure m.journal.stamp

/-- Runs a program for at most `limit` steps. Beside the outcome it gives the texts printed. -/
def execute (s : Session) (limit : Nat) (p : Program) : Outcome × Array Event × Session :=
  let (ending, m) := (s.machine p).runFor s.config p limit
  (outcome ending m, m.events, s.leave p m)

/-- Runs the session's own source, with every failure of the run made a runtime error. -/
def run (s : Session) (limit : Nat) : Outcome × Array Event × Session :=
  match s.parse with
  | .error e => (.failed (.parse e), #[], s)
  | .ok p =>
    let (o, events, s') := s.execute limit p
    (o.mapFailure s'.journal.wrap, events, s')

/-- What an observer would see of the steps of `execute`. -/
def trace (s : Session) (limit : Nat) (p : Program) : Array Observation :=
  (s.machine p).traceFor s.config p limit #[]

inductive Action where
  | parse
  | run (limit : Nat)
  | execute (limit : Nat) (program : Program)
  | replaceSource (source : Text)
  | look (index : Int)
  | report (error : RuntimeError)

inductive Reply where
  | parsed (result : Except ParseError Program)
  | ran (outcome : Outcome) (events : Array Event)
  | replaced
  | looked (result : Except Failure Nat)
  | reported (result : Except Failure String)

def act (s : Session) : Action → Reply × Session
  | .parse => (.parsed s.parse, s)
  | .run limit =>
    let (o, events, s') := s.run limit
    (.ran o events, s')
  | .execute limit p =>
    let (o, events, s') := s.execute limit p
    (.ran o events, s')
  | .replaceSource t => (.replaced, { s with source := t })
  | .look i => (.looked (s.tape.look i), s)
  | .report e => (.reported (s.journal.traceback e), s)

end Session

end SlangTape
