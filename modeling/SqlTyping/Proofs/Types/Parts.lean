import SqlTyping.Catalog.Needs
import SqlTyping.Resolution.Type

/-!
# Parts of waiting types

A waiting type is a tree of waiting types. What holds of a type if it holds of its direct parts holds
of all types (`TypeExpr.induction_parts`), and the walks over types go from part to part.
-/

namespace SqlTyping.TypeExpr

open List

variable {t u : TypeExpr}

/-- The waiting types that a waiting type holds directly. -/
def parts : TypeExpr → List TypeExpr
  | .function _ _ args _ | .functionArgument _ _ args _ _ => args
  | .union items | .coalesce items => items
  | .operator _ left right _ _ _ => [left, right]
  | .cast source value => [source, value]
  | .array t _ | .arrayItem t | .fieldAccess t _ _ | .optional t | .asArray t _ => [t]
  | .object fields _ => fields.map Field.value
  | .known _ | .column .. | .record .. | .named .. | .star .. => []

theorem sizeOf_parts (h : u ∈ t.parts) : sizeOf u < sizeOf t := by
  cases t <;> simp only [parts, not_mem_nil, mem_cons, or_false] at h
  case function | functionArgument | union | coalesce =>
    have := sizeOf_lt_of_mem h
    simp
    omega
  case operator | cast => rcases h with rfl | rfl <;> simp <;> omega
  case array | arrayItem | fieldAccess | optional | asArray =>
    subst h
    simp <;> omega
  case object =>
    obtain ⟨⟨name, t⟩, hf, rfl⟩ := mem_map.1 h
    have := sizeOf_lt_of_mem hf
    simp at this ⊢
    omega

theorem induction_parts {P : TypeExpr → Prop} (step : ∀ t, (∀ u ∈ t.parts, P u) → P t)
    (t : TypeExpr) : P t :=
  step t fun u hu =>
    have := sizeOf_parts hu
    induction_parts step u
termination_by sizeOf t

/-- Adds what the type itself waits for. -/
def addOwn (r : Requests) : TypeExpr → Requests
  | .record schema name _ | .named schema name _ _ => r.addType ⟨schema, name⟩
  | .function schema name _ _ | .functionArgument schema name _ _ _ =>
    r.addFunction ⟨schema, name⟩
  | _ => r

theorem addNeeds_eq_foldl (t : TypeExpr) (r : Requests) :
    t.addNeeds r = t.parts.foldl (fun r u => u.addNeeds r) (t.addOwn r) := by
  have hlist (ts : List TypeExpr) (r : Requests) :
      addNeedsList ts r = ts.foldl (fun r u => u.addNeeds r) r := by
    induction ts generalizing r with
    | nil => rfl
    | cons t rest ih => exact ih _
  have hfields (fields : List (Field TypeExpr)) (r : Requests) :
      addNeedsFields fields r = (fields.map Field.value).foldl (fun r u => u.addNeeds r) r := by
    induction fields generalizing r with
    | nil => rfl
    | cons f rest ih => cases f; exact ih _
  cases t with
  | function | functionArgument | union | coalesce => exact hlist _ _
  | object => exact hfields _ _
  | _ => rfl

end SqlTyping.TypeExpr
