import SqlTyping.Catalog.Requests
import SqlTyping.Extraction.Basic
import SqlTyping.Syntax.Parse

/-!
# What must be loaded

The names of the catalog that an interface or a record refers to.
-/

namespace SqlTyping

mutual

/-- Adds the functions and types that a type waits for. -/
def TypeExpr.addNeeds (t : TypeExpr) (r : Requests) : Requests :=
  match t with
  | .known _ | .column .. | .star .. => r
  | .record schema name _ | .named schema name _ _ => r.addType ⟨schema, name⟩
  | .function schema name args _ | .functionArgument schema name args _ _ =>
    TypeExpr.addNeedsList args (r.addFunction ⟨schema, name⟩)
  | .operator _ left right _ _ _ => right.addNeeds (left.addNeeds r)
  | .cast source value => value.addNeeds (source.addNeeds r)
  | .array value _ | .arrayItem value | .fieldAccess value _ _ | .optional value
  | .asArray value _ => value.addNeeds r
  | .union items | .coalesce items => TypeExpr.addNeedsList items r
  | .object fields _ => TypeExpr.addNeedsFields fields r

def TypeExpr.addNeedsList (ts : List TypeExpr) (r : Requests) : Requests :=
  match ts with
  | [] => r
  | t :: rest => TypeExpr.addNeedsList rest (t.addNeeds r)

def TypeExpr.addNeedsFields (fields : List (Field TypeExpr)) (r : Requests) : Requests :=
  match fields with
  | [] => r
  | f :: rest => TypeExpr.addNeedsFields rest (TypeExpr.addNeedsField f r)

def TypeExpr.addNeedsField (field : Field TypeExpr) (r : Requests) : Requests :=
  match field with
  | ⟨_, t⟩ => t.addNeeds r

end

mutual

/-- Adds the tables, functions and types that an interface refers to, its nested queries included.
-/
def Interface.addNeeds (q : Interface) (r : Requests) : Requests :=
  match q with
  | ⟨sources, params, results, _⟩ =>
    let r := Source.addNeedsList sources r
    let r := params.foldl (fun r p => p.type.addNeeds r) r
    results.foldl (fun r column => column.type.addNeeds r) r

def Source.addNeeds (source : Source) (r : Requests) : Requests :=
  match source with
  | .table schema name _ _ _ => r.addTable ⟨schema, name⟩
  | .query _ q _ => q.addNeeds r
  | .values _ _ types _ => types.foldl (fun r t => t.addNeeds r) r

def Source.addNeedsList (sources : List Source) (r : Requests) : Requests :=
  match sources with
  | [] => r
  | source :: rest => Source.addNeedsList rest (source.addNeeds r)

end

/-- What an interface refers to. -/
def Interface.needs (q : Interface) : Requests := q.addNeeds {}

/-- What a record refers to: types, and for a view what its query refers to. -/
def CatalogRecord.needs : CatalogRecord → Requests
  | .table _ columns => columns.foldl (fun r c => r.addTypeName c.pgType) {}
  | .view _ source columns =>
    let types := columns.foldl (fun r c => r.addTypeName c.pgType) {}
    match parse source with
    | .ok statement => types ++ (statement.interface []).needs
    | .error _ => types
  | .composite _ attributes => attributes.foldl (fun r a => r.addTypeName a.pgType) {}
  | .function _ args returns _ => (args.foldl Requests.addTypeName {}).addTypeName returns
  | .enum .. => {}

end SqlTyping
