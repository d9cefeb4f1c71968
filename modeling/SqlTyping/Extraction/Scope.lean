import SqlTyping.Interface.Basic
import SqlTyping.Syntax.Node

/-!
# Scopes

The state while the interface of a statement is extracted. Each query has a scope of its own, from
which the queries named in `WITH` clauses around it are visible.
-/

namespace SqlTyping

/-- A query named in a `WITH` clause, and whether something refers to it. -/
structure NamedQuery where
  source : Source
  used : Bool

structure Scope where
  interface : Interface
  /-- The named queries of the scopes around this one. -/
  outer : List Source
  /-- The named queries of this scope. -/
  named : List NamedQuery
  /-- The queries of `outer` that something in this scope refers to. -/
  usedOuter : List String
  /-- The types that the first result columns should have. -/
  expected : List TypeExpr

namespace Scope

def fresh (outer : List Source) (expected : List TypeExpr) : Scope := {
  interface := .empty, outer, named := [], usedOuter := [], expected }

/-- The interface at the end of a scope. A named query that nothing refers to still has parameters,
so it is kept as a source that is no result. -/
def finish (s : Scope) : Interface :=
  (s.named.filter (!·.used)).foldl (fun q n => q.addSource (n.source.withResult false)) s.interface

/-- The named queries that a nested scope sees; of two with one name, the inner one. -/
def visible (s : Scope) : List Source :=
  s.outer.foldl
    (fun seen source => if seen.any (·.isNamed source.name) then seen else seen ++ [source])
    (s.named.map NamedQuery.source)

/-- Marks the first query with the name as used. -/
def useFirst (name : String) : List NamedQuery → List NamedQuery
  | [] => []
  | n :: rest =>
    if n.source.isNamed name then { n with used := true } :: rest else n :: useFirst name rest

/-- Marks a named query of this scope or of one around it as used. -/
def markUsed (s : Scope) (name : String) : Scope :=
  if s.named.any (·.source.isNamed name) then { s with named := useFirst name s.named }
  else if s.usedOuter.contains name then s
  else { s with usedOuter := s.usedOuter ++ [name] }

/-- The named query that a name stands for. -/
def findNamed? (s : Scope) (name : String) : Option Source :=
  match s.named.find? (·.source.isNamed name) with
  | some n => some n.source
  | none => s.outer.find? fun source => source.isNamedQuery && source.isNamed name

/-- A name that no identifier has. -/
def syntheticName (s : Scope) : String :=
  "#subquery" ++ toString (s.interface.sources.length + 1)

end Scope

/-- Actions in a scope. -/
abbrev Extract := StateM Scope

namespace Extract

def modifyInterface (f : Interface → Interface) : Extract Unit :=
  modify fun s => { s with interface := f s.interface }

def addSource (source : Source) : Extract Unit := modifyInterface (·.addSource source)

def addResult (name : String) (type : TypeExpr) (span : Span) : Extract Unit :=
  modifyInterface (·.addResult { name, type, span })

def addNamed (source : Source) : Extract Unit :=
  modify fun s => { s with named := s.named ++ [⟨source, false⟩] }

/-- The type that is expected of the next result column. -/
def nextExpected : Extract (Option TypeExpr) := do
  let s ← get
  return s.expected[s.interface.results.length]?

/-- Looks up a named query and marks it as used. -/
def useNamed (name : String) : Extract (Option Source) := do
  match (← get).findNamed? name with
  | some source =>
    modify (·.markUsed name)
    return some source
  | none => return none

/-- The interface that `body` extracts in a scope of its own, from which `outer` is visible. -/
def inScope (outer : List Source) (expected : List TypeExpr) (body : Extract Unit) :
    Extract Interface := do
  let inner := (body.run (.fresh outer expected)).2
  modify fun s => inner.usedOuter.foldl Scope.markUsed s
  return inner.finish

/-- The interface that `body` extracts in a scope inside the current one. -/
def nested (expected : List TypeExpr) (body : Extract Unit) : Extract Interface := do
  inScope (← get).visible expected body

/-- Adds a query that only filters rows or feeds values. -/
def addSubquery (q : Interface) : Extract String := do
  let name := (← get).syntheticName
  addSource (.query name q false)
  return name

/-- Adds a query that is used as a value, and gives the type of its first column. -/
def addValueSubquery (q : Interface) (span : Span) : Extract TypeExpr := do
  let name ← addSubquery q
  match q.results with
  | first :: _ =>
    if first.name == "*" then return .known .unknown
    else return .column none (some name) first.name span
  | [] => return .known .unknown

def names (idents : List Ident) : List String := idents.map Ident.value

def addParam (ref : ParamRef) (type : TypeExpr) (pick : List String) : Extract Unit :=
  modifyInterface (·.addParam {
    name := ref.name, type, spans := [ref.span], required := ref.required, spread := ref.spread
    pick })

/-- Notes an occurrence of a parameter, with the type that is expected there. -/
def useParam (ref : ParamRef) (expected : Option TypeExpr) : Extract TypeExpr := do
  let type := expected.getD (.known .unknown)
  addParam ref type (names ref.pick)
  return type

/-- The columns of the sources from `start` up to `stop` may all be null. -/
def markNullable (start stop : Nat) : Extract Unit :=
  modifyInterface fun q =>
    let sources := ((q.sources.drop start).take (stop - start)).filter Source.isResult
    sources.foldl (fun q source => q.setNullable source.name) q

def sourceCount : Extract Nat := do return (← get).interface.sources.length

end Extract

/-- The parameter that an expression is, apart from parentheses. -/
def Expr.param? (e : Expr) : Option ParamRef :=
  match e.unnested with
  | .param ref => some ref
  | _ => none

/-- An expression among others that should have the same type. -/
inductive Operand where
  | param (ref : ParamRef)
  | typed (type : TypeExpr)

namespace Operand

def type? : Operand → Option TypeExpr
  | .param _ => none
  | .typed type => some type

/-- A parameter waits for its type; any other expression is typed by `infer`. -/
def of (param? : Option ParamRef) (infer : Extract TypeExpr) : Extract Operand :=
  match param? with
  | some ref => return .param ref
  | none => return .typed (← infer)

/-- Gives the parameters among the operands the type that is expected, or else that of the first
operand that is no parameter. -/
def settle (operands : List Operand) (expected : Option TypeExpr) : Extract (List TypeExpr) :=
  let shared := (expected <|> operands.findSome? type?).getD (.known .unknown)
  operands.mapM fun
    | .param ref => Extract.useParam ref (some shared)
    | .typed type => return type

end Operand

end SqlTyping
