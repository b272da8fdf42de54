import SlangTape.CommandLine

set_option autoImplicit false

/-!
# The executable

The outer layer reads the program's file and standard input and writes what the pure functions
say. Input is fetched a line at a time and only on demand: a step that asked for more than was at
hand is taken again once more has come, which is sound because a step changes nothing outside its
state.
-/
namespace SlangTape.Executable

def details : IO.Error → String
  | .alreadyExists _ _ d => d
  | .otherError _ d => d
  | .resourceBusy _ d => d
  | .resourceVanished _ d => d
  | .unsupportedOperation _ d => d
  | .hardwareFault _ d => d
  | .unsatisfiedConstraints _ d => d
  | .illegalOperation _ d => d
  | .protocolError _ d => d
  | .timeExpired _ d => d
  | .interrupted _ _ d => d
  | .noFileOrDirectory _ _ d => d
  | .invalidArgument _ _ d => d
  | .permissionDenied _ _ d => d
  | .resourceExhausted _ _ d => d
  | .inappropriateType _ _ d => d
  | .noSuchThing _ _ d => d
  | .unexpectedEof => "unexpected end of file"
  | .userError d => d

/-- System messages arrive in two styles, of which the capitalised one is written. -/
def reason (e : IO.Error) : String :=
  if details e = "name too long" then Unreadable.nameTooLong.reason else (details e).capitalize

def load (path : String) : IO (Except SourceError Source) := do
  if path.toList.contains (Char.ofNat 0) then return .error .nulInPath
  try
    return .ok (.ofBytes path (← IO.FS.readBinFile path).toList)
  catch e => return .error (.unreadable path (reason e))

/-- Whether a step from `m` to `m'` asked for more answers than `m` had at hand. -/
def starved (m m' : State) : Bool := m.input.calls + m.input.answers.length < m'.input.calls

def supply (m : State) (line : String) : State :=
  let more := (Input.ofText line.toList).answers
  { m with input := { m.input with answers := m.input.answers ++ more } }

def flush (m : State) : IO State := do
  if m.events.isEmpty then return m
  let stdout ← IO.getStdout
  stdout.putStr (String.ofList (Event.texts m.events))
  stdout.flush
  return { m with events := #[] }

/-- Runs to the end. `closed` says that standard input has no more lines. -/
partial def drive (cfg : Config) (p : Program) (closed : Bool) (m : State) :
    IO (Ending × State) := do
  let (ending, m') := match m.step cfg p with
    | .next m' => (none, m')
    | .halt e m' => (some e, m')
  if !closed && starved m m' then
    let line ← (← IO.getStdin).getLine
    drive cfg p line.isEmpty (supply m line)
  else
    let m' ← flush m'
    match ending with
    | none => drive cfg p closed m'
    | some e => return (e, m')

def run (source : Source) : IO UInt32 := do
  let s := CommandLine.session source { answers := [] }
  let (outcome, s') ← match s.parse with
    | .error e => pure (.failed (.parse e), s)
    | .ok p => do
      let (ending, m) ← drive s.config p false (s.machine p)
      pure ((Session.outcome (some ending) m).mapFailure m.journal.wrap, s.leave p m)
  let (exit, stderr) := CommandLine.verdict s' outcome
  (← IO.getStderr).putStr stderr
  return UInt32.ofNat (exit.getD 0)

def perform (args : List String) : IO UInt32 := do
  match Request.ofArguments args with
  | .help =>
    IO.print CommandLine.help
    return 0
  | .refuse e =>
    IO.eprint (CommandLine.refusal e)
    return 2
  | .run path =>
    match ← load (String.ofList path) with
    | .ok source => run source
    | .error e =>
      IO.eprintln e.message
      return 1

end SlangTape.Executable

def main (args : List String) : IO UInt32 := SlangTape.Executable.perform args
