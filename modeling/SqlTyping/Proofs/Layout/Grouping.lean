import Mathlib.Tactic.IntervalCases
import SqlTyping.Proofs.Layout.Basic
import SqlTyping.Proofs.Syntax.Lexeme
import SqlTyping.Syntax.Grammar.Operator

/-!
# How operators group

Every operator form has a level, its place among the levels of the grammar. What stands to the right
of a binary operator has a tighter level. What stands to its left has no looser one, as far as its
own right end is open, that is, if it is a binary operator or a `NOT`.
-/

namespace SqlTyping

open Grammar List

variable {i : Nat} {symbol word label : String} {quantified : Bool} {allowed : String → Bool}

/-- The place in `levels` of a binary operator. -/
def levelOf (symbol : String) : Nat :=
  if symbol = "OR" then 0
  else if symbol = "AND" then 1
  else if isComparison symbol then 4
  else if isAdditive symbol then 7
  else if isMultiplicative symbol then 8
  else if isExponent symbol then 9
  else 6

/-- The level of a binary operator. `AT TIME ZONE` has none: it is read with its operand. -/
def Operator.level? (op : Operator) : Option Nat :=
  if op.symbol = "AT TIME ZONE" then none else some (levelOf op.symbol)

namespace Expr

/-- The level of the outermost operator, if that is not in parentheses and no sign. -/
def level? : Expr → Option Nat
  | .unary op _ _ => if op.symbol = "NOT" then some 2 else none
  | .is .. | .isDistinctFrom .. => some 3
  | .inList .. | .inSubquery .. | .inParam .. | .between .. | .like .. => some 5
  | .binary _ op _ _ | .quantified _ op _ _ _ | .quantifiedSubquery _ op _ _ _ => op.level?
  | _ => none

/-- May the expression stand to the right of an operator of the level? -/
def FitsRight (level : Nat) (e : Expr) : Prop := ∀ own, e.level? = some own → level < own

/-- May the expression stand to the left of an operator of the level? -/
def FitsLeft (level : Nat) : Expr → Prop
  | .binary _ op _ _ => ∀ own, op.level? = some own → level ≤ own
  | .unary op _ _ => op.symbol = "NOT" → level < comparisonLevel
  | _ => True

/-- What is no binary operator and no `NOT` is complete on its right. -/
theorem FitsLeft.of_level?_eq_none {e : Expr} (h : e.level? = none) (level : Nat) :
    e.FitsLeft level := by
  cases e with
  | binary left op right span =>
    intro own hown
    rw [show op.level? = none from h] at hown
    cases hown
  | unary op operand span =>
    intro hnot
    rw [Expr.level?, if_pos hnot] at h
    cases h
  | _ => trivial

end Expr

/-- Operators that have been read without nesting too deep group as their levels say. Otherwise only
the right operand is sure to. -/
def Part.Grouped (deep : Nat) : Part → Prop
  | .binary left op right => ∀ level, op.level? = some level →
    right.FitsRight level ∧ (deep = 0 → left.FitsLeft level)
  | .plain | .columnName _ => True

theorem Part.Grouped.mono {deep deep' : Nat} {part : Part} (h : part.Grouped deep)
    (hle : deep ≤ deep') : part.Grouped deep' := by
  cases part with
  | plain | columnName => trivial
  | binary left op right =>
    intro level hlevel
    refine ⟨(h level hlevel).1, fun hzero => (h level hlevel).2 ?_⟩
    omega

/-! ## The levels of the grammar -/

theorem Grammar.mem_drop_levels {min : Nat} {level : Level} :
    (level, i) ∈ levels.zipIdx.drop min ↔ levels[i]? = some level ∧ min ≤ i := by
  rw [mem_iff_getElem?]
  constructor
  · rintro ⟨k, hk⟩
    rw [getElem?_drop, getElem?_zipIdx, Option.map_eq_some_iff] at hk
    obtain ⟨level', hlevel, heq⟩ := hk
    obtain ⟨rfl, rfl⟩ := Prod.mk.inj heq
    exact ⟨by simpa using hlevel, by omega⟩
  · rintro ⟨hlevel, hmin⟩
    refine ⟨i - min, ?_⟩
    rw [getElem?_drop, getElem?_zipIdx, Nat.add_sub_cancel' hmin, hlevel]
    simp

/-- Where the operators that stand after an operand are. -/
theorem Grammar.index_of_level {level : Level} (h : levels[i]? = some level) :
    (level = .test → i = 3) ∧ (level = .membership → i = 5) := by
  have hi : i < levels.length := (List.getElem?_eq_some_iff.1 h).1
  change i < 10 at hi
  interval_cases i <;> cases h <;> simp

theorem Lexeme.exists_isOperatorChar {cs : List Char} {x : Lexeme String}
    (h : Lexeme.operator cs = some x) :
    ∃ c rest, x.value.toList = c :: rest ∧ isOperatorChar c = true := by
  obtain ⟨htext, hne, hvalue, -⟩ := of_operator h
  obtain ⟨c, rest, hcons⟩ := exists_cons_of_ne_nil hne
  have hchars := (isPrefix_operatorRun_iff.1 (htext ▸ trimmed_isPrefix _)).2.1
  rw [hcons, all_cons, Bool.and_eq_true] at hchars
  rw [hvalue, symbol, hcons]
  split
  · exact ⟨'<', ['>'], rfl, rfl⟩
  · exact ⟨c, rest, String.toList_ofList, hchars.1⟩

theorem ne_of_exists_isOperatorChar
    (hop : ∃ c rest, symbol.toList = c :: rest ∧ Lexeme.isOperatorChar c = true)
    (hword : word.toList.head?.any (!Lexeme.isOperatorChar ·) = true) : symbol ≠ word := by
  rintro rfl
  obtain ⟨c, rest, hcons, hc⟩ := hop
  rw [hcons] at hword
  simp [hc] at hword

theorem levelOf_of_symbols (hlevel : levels[i]? = some (.symbols label quantified allowed))
    (hallowed : allowed symbol = true)
    (hop : ∃ c rest, symbol.toList = c :: rest ∧ Lexeme.isOperatorChar c = true) :
    levelOf symbol = i := by
  rw [levelOf, if_neg (ne_of_exists_isOperatorChar hop rfl),
    if_neg (ne_of_exists_isOperatorChar hop rfl)]
  have hi : i < levels.length := (List.getElem?_eq_some_iff.1 hlevel).1
  change i < 10 at hi
  interval_cases i
  all_goals simp only [levels, getElem?_cons_succ, getElem?_cons_zero,
    Option.some.injEq, Level.symbols.injEq, reduceCtorEq] at hlevel
  all_goals obtain ⟨-, -, rfl⟩ := hlevel
  · exact if_pos hallowed
  · simp only [Bool.and_eq_true, Bool.not_eq_true'] at hallowed
    obtain ⟨⟨⟨hc, ha⟩, hm⟩, he⟩ := hallowed
    simp [hc, ha, hm, he]
  · simp only [isAdditive, contains_cons, contains_nil, Bool.or_false, Bool.or_eq_true,
      beq_iff_eq] at hallowed
    rcases hallowed with rfl | rfl <;> rfl
  · simp only [isMultiplicative, contains_cons, contains_nil, Bool.or_false,
      Bool.or_eq_true, beq_iff_eq] at hallowed
    rcases hallowed with rfl | rfl | rfl <;> rfl
  · obtain rfl : symbol = "^" := eq_of_beq hallowed
    rfl

/-- Every symbol is allowed at its own level. -/
theorem exists_symbols_of_levelOf
    (hop : ∃ c rest, symbol.toList = c :: rest ∧ Lexeme.isOperatorChar c = true) :
    ∃ label quantified allowed, levels[levelOf symbol]? = some (.symbols label quantified allowed) ∧
      allowed symbol = true := by
  rw [levelOf, if_neg (ne_of_exists_isOperatorChar hop rfl),
    if_neg (ne_of_exists_isOperatorChar hop rfl)]
  by_cases hc : isComparison symbol = true
  · rw [if_pos hc]
    exact ⟨_, _, _, rfl, hc⟩
  rw [if_neg hc]
  by_cases ha : isAdditive symbol = true
  · rw [if_pos ha]
    exact ⟨_, _, _, rfl, ha⟩
  rw [if_neg ha]
  by_cases hm : isMultiplicative symbol = true
  · rw [if_pos hm]
    exact ⟨_, _, _, rfl, hm⟩
  rw [if_neg hm]
  by_cases he : isExponent symbol = true
  · rw [if_pos he]
    exact ⟨_, _, _, rfl, he⟩
  rw [if_neg he]
  exact ⟨_, _, _, rfl, by simp [hc, ha, hm, he]⟩

theorem levelOf_ne_negationLevel (symbol : String) : levelOf symbol ≠ negationLevel := by
  unfold levelOf negationLevel
  split_ifs <;> decide

theorem eq_of_connective (hlevel : levels[i]? = some (.connective word)) :
    word = "OR" ∧ i = 0 ∨ word = "AND" ∧ i = 1 := by
  have hi : i < levels.length := (List.getElem?_eq_some_iff.1 hlevel).1
  change i < 10 at hi
  interval_cases i
  all_goals simp only [levels, getElem?_cons_succ, getElem?_cons_zero,
    Option.some.injEq, Level.connective.injEq, reduceCtorEq] at hlevel
  · exact .inl ⟨hlevel.symm, rfl⟩
  · exact .inr ⟨hlevel.symm, rfl⟩

theorem Operator.level?_of_symbols (hlevel : levels[i]? = some (.symbols label quantified allowed))
    (hallowed : allowed symbol = true)
    (hop : ∃ c rest, symbol.toList = c :: rest ∧ Lexeme.isOperatorChar c = true) (span : Span) :
    (⟨symbol, span⟩ : Operator).level? = some i := by
  rw [Operator.level?, if_neg (ne_of_exists_isOperatorChar hop rfl),
    levelOf_of_symbols hlevel hallowed hop]

theorem Operator.level?_of_connective (hlevel : levels[i]? = some (.connective word)) (span : Span) :
    (⟨word, span⟩ : Operator).level? = some i := by
  rcases eq_of_connective hlevel with ⟨rfl, rfl⟩ | ⟨rfl, rfl⟩
  · rfl
  · rfl

end SqlTyping
