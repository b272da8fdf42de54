set_option autoImplicit false

namespace SlangTape

abbrev Text := List Char

namespace Text

/-- What is left of `t` from position `i` on. A negative position counts from the end and goes no
further back than the start; past the end nothing is left, not even the empty text. -/
def fromIndex (t : Text) (i : Int) : Option Text :=
  if (t.length : Int) < i then none
  else if i < 0 then some (t.drop (t.length + i).toNat)
  else some (t.drop i.toNat)

def cutAt (c : Char) : Text → Option (Text × Text)
  | [] => none
  | d :: t => if d = c then some ([], t) else (cutAt c t).map fun r => (d :: r.1, r.2)

end Text

end SlangTape
