import SqlTyping.Span

/-!
# Parameters

A parameter of a statement with all the places where it occurs. Parameters are kept in lists with
one entry for each name, in the order of first occurrence. The type of a parameter is a `TypeExpr`
before the catalog is known and a `SqlType` after.
-/

namespace SqlTyping

structure Param (τ : Type) where
  name : String
  /-- The type of the value; for a spread parameter, of one element. -/
  type : τ
  /-- All occurrences, in the order of the text. -/
  spans : List Span
  /-- Must the value not be null? -/
  required : Bool
  /-- Does the parameter stand for a list of values? -/
  spread : Bool
  /-- The fields that are taken of each element. -/
  pick : List String
deriving DecidableEq, Inhabited

namespace Param

/-- Where the parameter occurs first. -/
def position (p : Param τ) : Nat := (p.spans.head?.map Span.start).getD 0

/-- Two entries for one parameter as one. The types are joined by `union`. -/
def merge (union : List τ → τ) (p q : Param τ) : Param τ where
  name := p.name
  type := union [p.type, q.type]
  spans := ((p.spans ++ q.spans).mergeSort fun a b => a.start ≤ b.start).eraseReps
  required := p.required || q.required
  spread := p.spread || q.spread
  pick := if p.pick.isEmpty then q.pick else p.pick

/-- Merges the parameter into the entry of its name, or adds an entry for it. -/
def put (union : List τ → τ) (p : Param τ) : List (Param τ) → List (Param τ)
  | [] => [p]
  | q :: rest => if q.name == p.name then q.merge union p :: rest else q :: put union p rest

/-- The list with one more occurrence of a parameter. -/
def insert (union : List τ → τ) (params : List (Param τ)) (p : Param τ) : List (Param τ) :=
  (put union p params).mergeSort fun a b => a.position ≤ b.position

/-- The list with more occurrences of parameters. -/
def insertAll (union : List τ → τ) (params more : List (Param τ)) : List (Param τ) :=
  more.foldl (insert union) params

end Param

end SqlTyping
