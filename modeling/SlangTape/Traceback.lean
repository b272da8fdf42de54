import SlangTape.Journal

set_option autoImplicit false

namespace SlangTape

namespace Traceback

def placeLines : Option Location → List String
  | none => ["  <unknown location> in <program>"]
  | some l =>
    let file := l.file
    let line := l.position.line
    let column := l.position.column
    s!"  File \"{file}\", line {line}, column {column}, in <program>" ::
      if l.statement = [] then [] else ["    " ++ String.ofList l.statement]

def stepLines : Option Entry → List String
  | none => []
  | some e =>
    let step := e.step
    let index := e.index
    [s!"    Step: {step}  Instruction: {index}"]

def commandName : Option Text → String
  | none => "runtime"
  | some t => if t = [] then "runtime" else String.ofList t

def lines (entry : Option Entry) (e : RuntimeError) : List String :=
  "Traceback (most recent call last):" ::
    placeLines (e.location.or (entry.map Entry.location)) ++ stepLines entry ++
    [e.fault.label ++ ": " ++ e.fault.message ++ " (command: " ++ commandName e.command ++ ")"]

end Traceback

def Journal.traceback (j : Journal) (e : RuntimeError) : Except Failure String :=
  j.entry.map fun entry => "\n".intercalate (Traceback.lines entry e)

end SlangTape
