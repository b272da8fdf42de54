import SlangTape.Source.Folder
import SlangTape.Source.Utf8

set_option autoImplicit false

namespace SlangTape

structure Source where
  file : String
  text : Text

inductive SourceError where
  | nulInPath
  | unreadable (file : String) (reason : String)
  deriving DecidableEq, Repr

def SourceError.message : SourceError → String
  | nulInPath => "embedded null byte"
  | unreadable file reason => s!"Failed to read {file}: {reason}"

namespace Source

/-- The text of a file: its bytes as UTF-8, without one leading byte order mark. -/
def ofBytes (file : String) (bytes : List UInt8) : Source :=
  ⟨file, Utf8.decode (Utf8.dropMark bytes)⟩

def load (files : Files) (path : String) : Except SourceError Source :=
  if path.toList.contains (Char.ofNat 0) then .error .nulInPath
  else
    match files path with
    | .error reason => .error (.unreadable path reason)
    | .ok bytes => .ok (ofBytes path bytes)

end Source

end SlangTape
