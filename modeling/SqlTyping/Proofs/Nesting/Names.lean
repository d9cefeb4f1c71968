import SqlTyping.Proofs.Nesting.Rules
import SqlTyping.Proofs.Syntax.Bounds

/-!
# Names, types and keywords hold no parameters

The rules that read no expression. A bracket in them is closed before anything else is opened. The
instances say of each rule which combinator it starts with.
-/

namespace SqlTyping.Grammar

open Rule Survey

variable {S : Survey} {room : Nat → Nat}

set_option synthInstance.maxSize 2000

instance : S.Passes room endsRows := .bind

instance : S.Passes room changeKind := .bind

variable [S.IsPlain]

instance : S.Passes room ident := .bind

instance : S.Passes room label := .bind

instance {name : Rule Ident} [S.Passes room name] : S.Passes room (dotted name) := .bind

instance : S.Passes room objectName := by
  refine @Passes.bind _ _ _ _ _ _ _ fun start => @Passes.bind _ _ _ _ _ _ _ fun first =>
    @Passes.bind _ _ _ _ _ _ _ fun parts => ?_
  split <;> infer_instance

instance : S.Passes room asName := .bind

/-! ## Types -/

instance (name : String) : S.Passes room (secondWord name) := by
  unfold secondWord
  split <;> infer_instance

instance (name : String) : S.Passes room (timeZone name) := .cond

/-! ## Aliases and clauses -/

instance : S.Passes room descending := .optionCases

instance : S.Passes room nullsFirst := .bind

instance : S.Passes room qualifiedStar := .bind

instance : S.Passes room truthTest := .bind

instance : S.Passes room symmetric := .optionCases

instance : S.Passes room likeKind := .optionCases

instance : S.Passes room baseWindow := .bind

instance : S.Passes room frameExclusion := .bind

instance : S.Passes room functionName := .optionCases

instance : S.Passes room argumentName := .bind

instance : S.Passes room isDistinct := .optionCases

instance : S.Passes room trimName := .optionCases

instance : S.Passes room extractPart := .optionCases

instance : S.Passes room collation := .bind

instance (e : Expr) : S.Passes room (fieldOf e) := .cond

instance (word : String) [IsWord word] : S.Passes room (outerJoin word) := .bind

instance : S.Passes room innerJoin := .bind

instance : S.Passes room joinKind := .bind

instance : S.Passes room ordinality := inferInstanceAs (S.Passes room (keywords _))

instance : S.Passes room keepsDuplicates := .optionCases

instance : S.Passes room fetchEnd := .optionCases

instance : S.Passes room lockStrength := .bind

instance : S.Passes room lockedTables := .bind

instance : S.Passes room lockWait := .bind

instance : S.Passes room locking := .bind

instance (next : String) : S.Passes room (targetAlias next) := .bind

instance (next : String) : S.Passes room (changedTable next) := .bind

instance : S.Passes room insertAlias := .bind

instance : S.Passes room assignedColumn := .bind

instance : S.Passes room materialized := .bind

/-! ## Operands without parts -/

instance : S.Passes room literalValue := .firstOf_cons

instance : S.Passes room literal := .bind

instance : S.Passes room defaultValue := .bind

instance : S.Passes room finishedPart := .bind

instance : S.Passes room columnPart := .bind

instance : S.Passes room column := by
  refine @Passes.bind _ _ _ _ _ _ _ fun start => @Passes.bind _ _ _ _ _ _ _ fun first =>
    @Passes.bind _ _ _ _ _ _ _ fun found => ?_
  split
  · infer_instance
  · infer_instance
  · exact .optionCases

/-! ## Rules with a bracket of their own -/

section Roomy

variable [Roomy room]

instance : S.Passes room identList := inferInstanceAs (S.Passes room (parens _))

theorem covers_paramRef : S.Covers room paramRef .param := by
  refine covers_param.first fun token => ?_
  have hend : ∀ pick, S.Runs room 0
      (.param ⟨token.value.name, token.value.required, token.value.spread, [], token.span⟩) (do
        return {
          name := token.value.name, required := token.value.required, spread := token.value.spread
          pick, span := ← spanFrom token.span.start }) (S.Shows .param) :=
    fun _ => .spanFrom fun _ => .pure (le_refl (0, _))
  split
  · exact .pass hend
  · exact .pass hend

instance : S.Passes room modifiers := inferInstanceAs (S.Passes room (parens _))

instance : S.Passes room dimension :=
  ⟨.opening (.inr rfl) fun _ => .passIn fun _ => .close (.inr rfl) fun _ => le_rfl⟩

instance : S.Passes room arrayKeyword := .bind

instance : S.Passes room dataType := .bind

instance : S.Passes room typedString := .bind

instance : S.Passes room current := .bind

instance : S.Passes room tableAlias := .bind

instance (start : Nat) : S.Passes room (table start) := .bind

instance : S.Passes room assignedColumns := .optionCases

end Roomy

end SqlTyping.Grammar
