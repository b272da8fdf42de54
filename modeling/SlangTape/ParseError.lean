import SlangTape.Location
import SlangTape.Text.Hex

set_option autoImplicit false

namespace SlangTape

inductive ParseError where
  | invalidCharacter (char : Char) (file : String) (position : Position)
  | unknownCommand (text : Text) (file : String) (position : Position)
  | unmatchedLoop (kind : Command) (index : Nat) (location : Location)
  deriving DecidableEq, Repr

namespace ParseError

def position : ParseError → Position
  | invalidCharacter _ _ p => p
  | unknownCommand _ _ p => p
  | unmatchedLoop _ _ l => l.position

def lack : Command → String
  | .skip => "no following '" ++ String.ofList Command.loopEnd.spelling ++ "'"
  | .loopStart => "no matching '" ++ String.ofList Command.loopEnd.spelling ++ "'"
  | _ => "no matching '" ++ String.ofList Command.loopStart.spelling ++ "'"

def message : ParseError → String
  | invalidCharacter c file p =>
    "Invalid character '" ++ String.singleton c ++ "' (" ++ codePointName c ++ ") at " ++
      placeName file p
  | unknownCommand text file p =>
    "Unknown command '" ++ String.ofList text ++ "' at " ++ placeName file p
  | unmatchedLoop kind index l =>
    "'" ++ String.ofList kind.spelling ++ s!"' (command #{index}) has " ++ lack kind ++ " at " ++
      placeName l.file l.position

end ParseError

end SlangTape
