import SlangTape.Text

set_option autoImplicit false

/-!
# Files

What a path leads to is for the system to say. A folder in memory is one such system: it is given by
the paths of what it holds, each a list of names. A path text is walked name by name; the walk may
leave the folder, but nothing is found outside it.
-/
namespace SlangTape

/-- What reading the file at a path gives: its bytes, or the reason why it cannot be read. -/
abbrev Files := String → Except String (List UInt8)

structure Folder where
  files : List (List Text × List UInt8)
  folders : List (List Text) := []

inductive Unreadable where
  | noSuchFile
  | isDirectory
  | notDirectory
  | nameTooLong
  deriving DecidableEq, Repr

def Unreadable.reason : Unreadable → String
  | noSuchFile => "No such file or directory"
  | isDirectory => "Is a directory"
  | notDirectory => "Not a directory"
  | nameTooLong => "File name too long"

namespace Folder

def names : Text → List Text
  | [] => [[]]
  | c :: t =>
    if c = '/' then [] :: names t
    else
      match names t with
      | [] => [[c]]
      | n :: ns => (c :: n) :: ns

/-- Where a name leads from a path. An empty name and a dot stay, two dots go up. -/
def follow (path : List Text) (name : Text) : List Text :=
  if name = [] ∨ name = ['.'] then path
  else if name = ['.', '.'] then path.dropLast
  else path ++ [name]

def wayAlong (path : List Text) : List Text → List (List Text)
  | [] => [path]
  | n :: ns => path :: wayAlong (follow path n) ns

def ofPaths (files : List (Text × List UInt8)) (folders : List Text) : Folder where
  files := files.map fun (path, bytes) => ((names path).foldl follow [], bytes)
  folders := folders.flatMap fun path => wayAlong [] (names path)

def byteCount (t : Text) : Nat := t.foldl (fun n c => n + c.utf8Size) 0

def maxName : Nat := 255

def maxPath : Nat := 4096

inductive Place where
  | inside (path : List Text)
  | outside
  deriving DecidableEq, Repr

def file? (f : Folder) (path : List Text) : Option (List UInt8) :=
  (f.files.find? fun e => e.1 == path).map Prod.snd

/-- A path is a folder if it is listed as one or something lies below it. -/
def isFolder (f : Folder) (path : List Text) : Bool :=
  path.isEmpty || f.folders.any path.isPrefixOf ||
    f.files.any fun e => path.isPrefixOf e.1 && path.length < e.1.length

def enter (f : Folder) (place : Place) (name : Text) : Except Unreadable Place :=
  match place with
  | .outside =>
    if name = [] ∨ name = ['.'] ∨ name = ['.', '.'] then .ok .outside
    else if maxName < byteCount name then .error .nameTooLong
    else .error .noSuchFile
  | .inside path =>
    if (f.file? path).isSome then .error .notDirectory
    else if name = ['.', '.'] ∧ path = [] then .ok .outside
    else if maxName < byteCount name then .error .nameTooLong
    else if (f.file? (follow path name)).isSome || f.isFolder (follow path name) then
      .ok (.inside (follow path name))
    else .error .noSuchFile

def walk (f : Folder) (place : Place) : List Text → Except Unreadable Place
  | [] => .ok place
  | n :: ns =>
    match f.enter place n with
    | .error e => .error e
    | .ok place' => f.walk place' ns

def read (f : Folder) (path : Text) : Except Unreadable (List UInt8) :=
  if path = [] then .error .noSuchFile
  else if maxPath ≤ byteCount path then .error .nameTooLong
  else
    match f.walk (if path.head? = some '/' then .outside else .inside []) (names path) with
    | .error e => .error e
    | .ok .outside => .error .isDirectory
    | .ok (.inside place) =>
      match f.file? place with
      | some bytes => .ok bytes
      | none => .error .isDirectory

instance : Coe Folder Files := ⟨fun f path => (f.read path.toList).mapError Unreadable.reason⟩

end Folder

end SlangTape
