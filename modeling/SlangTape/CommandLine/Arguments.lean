import SlangTape.Text.Digit
import SlangTape.Text.Quoted

set_option autoImplicit false

namespace SlangTape

inductive UsageError where
  | programMissing
  | unrecognized (arguments : List Text)
  | textAfterHelp (text : Text)
  deriving DecidableEq, Repr

namespace UsageError

def message : UsageError → String
  | programMissing => "the following arguments are required: program"
  | unrecognized args => "unrecognized arguments: " ++ " ".intercalate (args.map String.ofList)
  | textAfterHelp t =>
    "argument -h/--help: ignored explicit argument " ++ String.ofList (Quoted.encode t)

end UsageError

inductive Request where
  | help
  | run (path : Text)
  | refuse (error : UsageError)
  deriving DecidableEq, Repr

namespace Arguments

inductive Kind where
  | word
  | unknownOption
  | help
  | helpWith (text : Text)
  deriving DecidableEq, Repr

/-- A minus sign is followed by digits, or by digits with a point before the last of them; a line
end may close the argument. -/
def isNumber (t : Text) : Bool :=
  let u : Text := if t.getLast? = some '\n' then t.dropLast else t
  match u.cutAt '.' with
  | none => !u.isEmpty && u.all isDecimalDigit
  | some (ds, es) => ds.all isDecimalDigit && !es.isEmpty && es.all isDecimalDigit

def other (t : Text) : Kind :=
  if isNumber t || t.contains ' ' then .word else .unknownOption

/-- What follows a single minus sign and the `h` for help: more of the same letter, or a text that
has no use. -/
def cluster : Text → Kind
  | [] => .help
  | 'h' :: t => cluster t
  | t => .helpWith t

/-- Every beginning of the long option's name stands for it. -/
def long (t : Text) : Kind :=
  let cut := t.cutAt '='
  let name := (cut.map Prod.fst).getD t
  if name.isPrefixOf ['h', 'e', 'l', 'p'] then
    match cut with
    | none => .help
    | some (_, text) => .helpWith text
  else other ('-' :: t)

def kind : Text → Kind
  | ['-'] => .word
  | '-' :: '-' :: t => long t
  | ['-', 'h', '='] => .helpWith []
  | '-' :: 'h' :: '=' :: t => cluster t
  | '-' :: 'h' :: t => cluster t
  | '-' :: t => other t
  | _ => .word

/-- What has been found so far: the program's name, whether it came just before, and the arguments
that have no use. -/
structure Found where
  program : Option Text := none
  justBefore : Bool := false
  spare : List Text := []

namespace Found

def addWord (f : Found) (w : Text) : Found :=
  match f.program with
  | none => { f with program := some w, justBefore := true }
  | some _ => { f with justBefore := false, spare := f.spare ++ [w] }

def addSpare (f : Found) (ws : List Text) : Found :=
  { f with justBefore := false, spare := f.spare ++ ws }

/-- Takes the mark `--` and all arguments after it. Beside the program's name it is dropped. -/
def closeWith (f : Found) (mark : Text) (rest : List Text) : Found :=
  match f.program, rest with
  | none, w :: ws => (f.addWord w).addSpare ws
  | _, _ => f.addSpare (if f.justBefore then rest else mark :: rest)

def request (f : Found) : Request :=
  match f.program with
  | none => .refuse .programMissing
  | some path => if f.spare = [] then .run path else .refuse (.unrecognized f.spare)

end Found

def readFrom (f : Found) : List Text → Request
  | [] => f.request
  | a :: rest =>
    if a = ['-', '-'] then (f.closeWith a rest).request
    else
      match kind a with
      | .help => .help
      | .helpWith t => .refuse (.textAfterHelp t)
      | .unknownOption => readFrom (f.addSpare [a]) rest
      | .word => readFrom (f.addWord a) rest

end Arguments

def Request.ofArguments (args : List String) : Request :=
  Arguments.readFrom {} (args.map String.toList)

end SlangTape
