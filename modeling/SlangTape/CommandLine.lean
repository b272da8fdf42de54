import SlangTape.CommandLine.Arguments
import SlangTape.Language.Table
import SlangTape.Session
import SlangTape.Source

set_option autoImplicit false

namespace SlangTape

namespace CommandLine

def usage : String := "usage: lawea [-h] program\n"

def help : String :=
  usage ++ "\nLa Weá interpreter\n\npositional arguments:\n" ++
    "  program     Path to a La Weá source file (.lw)\n\noptions:\n" ++
    "  -h, --help  show this help message and exit\n"

def refusal (e : UsageError) : String := usage ++ "lawea: error: " ++ e.message ++ "\n"

/-- What an invocation has done. There is no exit code as long as the program is still running. -/
structure Transcript where
  exit : Option Nat
  stdout : Text := []
  stderr : String := ""
  unread : Text
  deriving DecidableEq, Repr

def session (source : Source) (input : Input) : Session where
  source := source.text
  file := source.file
  config := {}
  language := .standard
  input := input

def verdict (s : Session) : Outcome → Option Nat × String
  | .ok => (some 0, "")
  | .stepLimit => (none, "")
  | .failed (.parse e) => (some 1, "ParseError: " ++ e.message ++ "\n")
  | .failed (.runtime e) =>
    match s.journal.traceback e with
    | .ok report => (some 1, report ++ "\n")
    | .error f => (some 1, f.message ++ "\n")
  | .failed f => (some 1, f.message ++ "\n")

def runSource (source : Source) (stdin : Text) (limit : Nat) : Transcript :=
  let (outcome, events, s) := (session source (.ofText stdin)).run limit
  let (exit, stderr) := verdict s outcome
  { exit
    stdout := Event.texts events
    stderr
    unread := stdin.drop s.input.calls }

def perform (files : Files) (args : List String) (stdin : Text) (limit : Nat) :
    Except SourceError Transcript :=
  match Request.ofArguments args with
  | .help => .ok { exit := some 0, stdout := help.toList, unread := stdin }
  | .refuse e => .ok { exit := some 2, stderr := refusal e, unread := stdin }
  | .run path =>
    match Source.load files (String.ofList path) with
    | .ok source => .ok (runSource source stdin limit)
    | .error .nulInPath => .error .nulInPath
    | .error e => .ok { exit := some 1, stderr := e.message ++ "\n", unread := stdin }

end CommandLine

end SlangTape
