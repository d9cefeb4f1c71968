import SqlTyping.SqlType.Basic

/-!
# Declared and actual types

`a.accepts b` says whether a value of type `b` can be passed where `a` is declared. It is used to
choose among overloads, so nullability plays no part.
-/

namespace SqlTyping

mutual

/-- Does some member of `t`, at any depth of unions, pass the test? -/
def SqlType.someMember (test : TypeKind SqlType → Bool) : SqlType → Bool
  | ⟨kind, _, _⟩ => TypeKind.someMember test kind

def TypeKind.someMember (test : TypeKind SqlType → Bool) : TypeKind SqlType → Bool
  | .union members => TypeKind.someMemberOf test members
  | other => test other

def TypeKind.someMemberOf (test : TypeKind SqlType → Bool) : List SqlType → Bool
  | [] => false
  | m :: rest => m.someMember test || TypeKind.someMemberOf test rest

end

/-- Forms that need no look at their parts: composites go by name, strings and literals fit each
other, and everything else goes by its form. -/
def TypeKind.fits : (declared actual : TypeKind SqlType) → Bool
  | .literal _, .string | .string, .literal _ => true
  | .composite a _, .composite b _ => a == b
  | declared, actual => declared.sameForm actual

mutual

/-- `any` and `null` fit everything but `unknown`, `unknown` fits nothing, arrays go by their items,
and a union fits if one of its members does. -/
def SqlType.accepts (declared actual : SqlType) : Bool :=
  match declared with
  | ⟨kind, _, _⟩ => TypeKind.accepts kind actual

def TypeKind.accepts (declared : TypeKind SqlType) (actual : SqlType) : Bool :=
  match declared with
  | .unknown => false
  | .any | .null => !actual.isUnknown
  | .union members =>
    match actual.kind with
    | .unknown => false
    | .any | .null => true
    | _ => TypeKind.acceptsSome members actual
  | .array items => actual.someMember fun
    | .unknown => false
    | .any | .null => true
    | .array actualItems => items.accepts actualItems
    | _ => false
  | declared => actual.someMember fun
    | .unknown => false
    | .any | .null => true
    | kind => declared.fits kind

def TypeKind.acceptsSome (members : List SqlType) (actual : SqlType) : Bool :=
  match members with
  | [] => false
  | m :: rest => m.accepts actual || TypeKind.acceptsSome rest actual

end

end SqlTyping
