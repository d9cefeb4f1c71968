import SqlTyping.SqlType.Basic

/-!
# Unions and common types

`SqlType.union` joins types into one that any of their values has. `SqlType.coalesce` is the type of
the first value that is not null.
-/

namespace SqlTyping.SqlType

/-- The members of a union, or the type itself. -/
def members (t : SqlType) : List SqlType :=
  match t.kind with
  | .union members => members
  | _ => [t]

/-- Adds a member, or lets the member of the same kind be nullable where the new one is. -/
def insertMember (m : SqlType) : List SqlType → List SqlType
  | [] => [m]
  | x :: rest =>
    if x.kind == m.kind then { x with nullable := x.nullable || m.nullable } :: rest
    else x :: insertMember m rest

/-- The members of all items without nulls, one for each kind, in the order of first appearance. -/
def distinctMembers (items : List SqlType) : List SqlType :=
  ((items.flatMap members).filter (!·.isNull)).foldl (fun flat m => insertMember m flat) []

/-- Drops unknown members where another one is known. -/
def dropUnknown (flat : List SqlType) : List SqlType :=
  if flat.any (!·.isUnknown) then flat.filter (!·.isUnknown) else flat

/-- The union of the items. Unions inside are opened, members of one kind are merged, a null member
only makes the union nullable, and so does an unknown one next to a known one. The union of a single
member is that member. -/
def union (items : List SqlType) : SqlType :=
  let flat := distinctMembers items
  let kept := dropUnknown flat
  let nullable := items.any (·.nullable) || (items.flatMap members).any (·.isNull)
    || (flat.any (!·.isUnknown) && flat.any fun m => m.isUnknown && m.nullable)
  match kept with
  | [] => null
  | [only] => { only with nullable }
  | several => { kind := .union several, nullable }

/-- The common type of the arguments of `COALESCE`: the type of the first one that is not `NULL` if
all those have the same form, else their union. It is nullable only if every argument is. -/
def coalesce (items : List SqlType) : SqlType :=
  let nullable := items.all (·.nullable)
  match items.filter (!·.isNull) with
  | [] => null
  | first :: rest =>
    if rest.all (·.sameForm first) then { first with nullable }
    else (union (first :: rest)).withNullable nullable

end SqlTyping.SqlType
