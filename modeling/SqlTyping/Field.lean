/-!
# Named members
-/

namespace SqlTyping

/-- A value with a name: a member of an object, an attribute of a composite type. -/
structure Field (α : Type) where
  name : String
  value : α
deriving DecidableEq, Inhabited

end SqlTyping
