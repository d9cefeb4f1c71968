import SqlTyping.Proofs.Layout.Spans

/-!
# Precedence of operators

In an expression that has been read, the right operand of a binary operator is tighter than the
operator, and the left one is no looser. The first holds of every run. The second holds as long as
nesting does not go too deep: after that, an operand that was given up at its first reading may be
read again with another end.
-/

namespace SqlTyping

/-- Every binary operator of an expression that has been read takes operands of tighter levels, and
of its own level on the left only. -/
theorem expr_grouped {tolerant : Bool} {text : String} {e : Expr} {c : Cursor}
    (h : (Grammar.ofText text).expr.run tolerant text = (some e, c)) :
    ∀ node ∈ e.layout.nodes none, ∀ left op right, node.part = .binary left op right →
      ∀ level, op.level? = some level →
        right.FitsRight level ∧ (c.tooDeep = none → left.FitsLeft level) := by
  let S : Survey := ⟨text, tolerant⟩
  obtain ⟨m, hm, hfits, -⟩ := (Grammar.laid_ofText S).expr.run h
  intro node hnode left op right hpart level hlevel
  have hgrouped := (hfits.forall_nodes m.le (by nofun) node hnode).2
  rw [hpart] at hgrouped
  obtain ⟨hright, hleft⟩ := hgrouped level hlevel
  refine ⟨hright, fun hclear => hleft ?_⟩
  rw [← hm.deep]
  exact Cursor.deep_eq_zero.2 hclear

/-- `NOT`, and operators of four levels. -/
def mixedLevels : String := "NOT a OR b - c * d - e = 1"

theorem expr_grouped_mixedLevels : ∃ e c,
    (Grammar.ofText mixedLevels).expr.run false mixedLevels = (some e, c) ∧ c.tooDeep = none ∧
    (e.layout.nodes none).length = 23 ∧
    ∀ node ∈ e.layout.nodes none, ∀ left op right, node.part = .binary left op right →
      ∀ level, op.level? = some level → right.FitsRight level ∧ left.FitsLeft level := by
  have hread : (match (Grammar.ofText mixedLevels).expr.run false mixedLevels with
      | (some e, c) => (e.layout.nodes none).length == 23 && c.tooDeep.isNone
      | (none, _) => false) = true := by
    decide +kernel
  cases hrun : (Grammar.ofText mixedLevels).expr.run false mixedLevels with
  | mk result c =>
    rw [hrun] at hread
    cases result with
    | none => cases hread
    | some e =>
      obtain ⟨hlength, hclear⟩ := Bool.and_eq_true_iff.1 hread
      replace hclear : c.tooDeep = none := Option.isNone_iff_eq_none.1 hclear
      refine ⟨e, c, rfl, hclear, eq_of_beq hlength, ?_⟩
      intro node hnode left op right hpart level hlevel
      obtain ⟨hright, hleft⟩ := expr_grouped hrun node hnode left op right hpart level hlevel
      exact ⟨hright, hleft hclear⟩

/-- The time zone nests too deep. After that no call can be read, so that at its second reading the
right operand of `^` ends after the name of the function. -/
def deepTimeZone : String :=
  "a+b^f(x)AT TIME ZONE" ++ String.join (List.replicate maxDepth "- ") ++ "1"

/-- A sum to the left of `^`. -/
def powerOfSum : Expr → Bool
  | .binary (.binary _ op _ _) op' _ _ => op.symbol == "+" && op'.symbol == "^"
  | _ => false

theorem expr_ungrouped_deepTimeZone : ∃ e c,
    (Grammar.ofText deepTimeZone).expr.run false deepTimeZone = (some e, c) ∧
    ∃ node ∈ e.layout.nodes none, ∃ left op right, node.part = .binary left op right ∧
      ∃ level, op.level? = some level ∧ ¬ left.FitsLeft level := by
  have hread : ((Grammar.ofText deepTimeZone).expr.run false deepTimeZone).1.any powerOfSum =
      true := by
    decide +kernel
  cases hrun : (Grammar.ofText deepTimeZone).expr.run false deepTimeZone with
  | mk result c =>
    rw [hrun] at hread
    cases result with
    | none => cases hread
    | some e =>
      replace hread : powerOfSum e = true := hread
      unfold powerOfSum at hread
      split at hread
      · next left plus right inner power exponent span =>
        obtain ⟨hplus, hpower⟩ := Bool.and_eq_true_iff.1 hread
        have hlow : plus.level? = some 7 := by
          rw [Operator.level?, eq_of_beq hplus]
          rfl
        have hhigh : power.level? = some 9 := by
          rw [Operator.level?, eq_of_beq hpower]
          rfl
        refine ⟨_, c, rfl, _, .head _, _, power, exponent, rfl, 9, hhigh, fun hfits => ?_⟩
        have hle := hfits 7 hlow
        omega
      · cases hread

end SqlTyping
