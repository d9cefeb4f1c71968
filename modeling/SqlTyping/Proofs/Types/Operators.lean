import SqlTyping.Proofs.Resolution.Inserted
import SqlTyping.Proofs.Types.Folding

/-!
# Null operands

What an operator with overloads makes of two operands may be null just if one of them may. The type
of logical operators, of comparisons and of `AT TIME ZONE` is fixed, and not nullable, whatever
their operands are (`inferExpr_binary_nullable`).
-/

namespace SqlTyping

open Extract

/-- Does the result have the same type for all operands? -/
def Operator.hasFixedType (op : Operator) : Bool :=
  ["AND", "OR", "AT TIME ZONE"].contains op.symbol || Overload.isComparison op.symbol

theorem Overload.nullable_resolve {available : List Overload} {left right : SqlType}
    (h : (resolve available left right .result).isUnknown = false) :
    (resolve available left right .result).nullable = (left.nullable || right.nullable) := by
  unfold resolve at h ⊢
  split
  · next hnone =>
    rw [hnone] at h
    cases h
  · rfl

/-- Where an operand is a parameter, its type is the one that it has on its own. -/
theorem Operand.run_of (e : Expr) (s : Scope) :
    ((Operand.of e.param? (inferExpr e none)).run s).1.type?.getD .unknown =
      ((inferExpr e none).run s).1 := by
  cases h : e.param? with
  | none => rfl
  | some ref =>
    rw [inferExpr_of_param? h]
    rfl

theorem run_operatorType (symbol : String) (left right : Operand) (span : Span) (s : Scope) :
    ((operatorType symbol left right span).run s).1 =
      .ofOperator symbol (Overload.ofSymbol symbol) (left.type?.getD .unknown)
        (right.type?.getD .unknown) .result span := by
  cases left <;> cases right <;> rfl

/-- An operator whose type is not fixed has the type of the overload that its operands call for, or
none. -/
theorem run_inferExpr_binary {op : Operator} (hop : op.hasFixedType = false) (left right : Expr)
    (span : Span) (expected : Option TypeExpr) (s : Scope) :
    ((inferExpr (.binary left op right span) expected).run s).1 = .unknown ∨
    ((inferExpr (.binary left op right span) expected).run s).1 =
      .ofOperator op.symbol (Overload.ofSymbol op.symbol) ((inferExpr left none).run s).1
        ((inferExpr right none).run
          ((Operand.of left.param? (inferExpr left none)).run s).2).1 .result span := by
  simp only [Operator.hasFixedType, Bool.or_eq_false_iff] at hop
  rw [inferExpr]
  split
  · next hsymbol => simp [hsymbol] at hop
  · next hsymbol => simp [hsymbol] at hop
  · next hsymbol => simp [hsymbol] at hop
  · rw [if_neg (by simp [hop.2])]
    split
    · exact .inl rfl
    · refine .inr ((run_operatorType _ _ _ _ _).trans ?_)
      rw [← Operand.run_of left, ← Operand.run_of right]
      rfl

/-- The result of an operator is never nullable if its type is fixed. Otherwise its type is unknown,
or it is nullable just if that of an operand is. -/
theorem inferExpr_binary_nullable (left right : Expr) (op : Operator) (span : Span)
    (expected : Option TypeExpr) (s : Scope) (ctx : TypeContext) :
    (op.hasFixedType = true → ∃ t : SqlType,
      ((inferExpr (.binary left op right span) expected).run s).1 = .known t ∧
        t.isUnknown = false ∧ t.nullable = false) ∧
    (op.hasFixedType = false → ∀ u : SqlType,
      ((inferExpr (.binary left op right span) expected).run s).1.resolve ctx = .ok u →
        u.isUnknown = false → ∃ a b : SqlType,
        ((inferExpr left none).run s).1.resolve ctx = .ok a ∧
        ((inferExpr right none).run
          ((Operand.of left.param? (inferExpr left none)).run s).2).1.resolve ctx = .ok b ∧
        u.nullable = (a.nullable || b.nullable)) := by
  refine ⟨fun hop => ?_, fun hop u hu hknown => ?_⟩
  · rw [inferExpr]
    split
    · exact ⟨_, rfl, rfl, rfl⟩
    · exact ⟨_, rfl, rfl, rfl⟩
    · exact ⟨_, rfl, rfl, rfl⟩
    · next hand hor hzone =>
      simp only [Operator.hasFixedType, Bool.or_eq_true, List.contains_iff_mem, List.mem_cons,
        List.not_mem_nil, or_false] at hop
      rcases hop with (h | h | h) | hcomparison
      · exact absurd h hand
      · exact absurd h hor
      · exact absurd h hzone
      · rw [if_pos hcomparison]
        exact ⟨_, rfl, rfl, rfl⟩
  · rcases run_inferExpr_binary hop left right span expected s with htype | htype
    · rw [htype] at hu
      cases hu
      cases hknown
    · rw [htype, TypeExpr.resolve_ofOperator, TypeExpr.resolve] at hu
      obtain ⟨a, ha, hu⟩ := bind_eq_ok hu
      obtain ⟨b, hb, hu⟩ := bind_eq_ok hu
      cases hu
      exact ⟨a, b, ha, hb, Overload.nullable_resolve hknown⟩

end SqlTyping
