import FragmentShapes.Text.Quoted

/-!
# Unknown names

Some choices are given by name. A name that no choice has is reported with the kind of choice.
-/

namespace FragmentShapes

/-- A name that is none of a kind. -/
structure UnknownName where
  kind : String
  name : String
  deriving DecidableEq, Repr

def UnknownName.message (u : UnknownName) : String :=
  Text.quoted u.name ++ " is not a valid " ++ u.kind

end FragmentShapes
