import SqlTyping.Proofs.Layout.Spans

/-!
# Parsing does not depend on spelling

A respelled text is a statement if and only if the text is one, and the two trees differ in places
and in the text of window frames at most. The texts may differ in length, and with them the room
that their grammars have; a grammar with more room reads neither of them in another way.
-/

namespace SqlTyping

open Grammar

variable {text other : String} {tolerant : Bool} {st : Statement}

theorem Rule.Agrees.run {α : Type} [Likeness α] {rule rule' : Rule α}
    (hrule : rule.Agrees (text.length + 1) rule') (h : Rewritten text.toList other.toList)
    (hclear : (rule.run tolerant text).2.tooDeep = none) :
    SameRun (rule.run tolerant text) (rule'.run tolerant other) := by
  have hlt : (Cursor.ofText text).mark.rest.length < text.length + 1 := by
    show text.toList.length < text.length + 1
    rw [String.length_toList]
    exact Nat.lt_succ_self _
  exact hrule.same hlt hclear ⟨rfl, Nat.le_refl _, h, rfl⟩

/-- Grammars with room for a text read the same statement from it, and from the text respelled. -/
theorem run_rewritten (h : Rewritten text.toList other.toList) {j k : Nat} (hj : text.length < j)
    (hk : text.length < k) {c : Cursor}
    (hrun : (within j).wholeStatement.run tolerant text = (some st, c)) (hclear : c.tooDeep = none) :
    ∃ st' c', (within k).wholeStatement.run tolerant other = (some st', c') ∧
      c'.tooDeep = none ∧ st.unplaced = st'.unplaced := by
  have hagrees := agrees_within hj hk
  have hwhole : (within j).wholeStatement.Agrees (text.length + 1) (within k).wholeStatement := .bind
  have hsame := hwhole.run h ((congrArg (·.2.tooDeep) hrun).trans hclear)
  rw [hrun] at hsame
  generalize (within k).wholeStatement.run tolerant other = run at hsame
  cases hsame with
  | some hlike _ hclear' => exact ⟨_, _, rfl, hclear', hlike⟩

theorem parse_rewritten (h : Rewritten text.toList other.toList)
    (hst : parseWith tolerant text = .ok st) :
    ∃ st', parseWith tolerant other = .ok st' ∧ st.unplaced = st'.unplaced := by
  obtain ⟨c, hrun, hclear⟩ := run_of_parseWith hst
  obtain ⟨st₁, c₁, hrun, hclear, heq⟩ := run_rewritten (k := max text.length other.length + 1) h
    (Nat.lt_succ_self _) (by omega) hrun hclear
  obtain ⟨st', c', hrun, hclear, heq'⟩ := run_rewritten (k := other.length + 1) (.same _)
    (by omega) (Nat.lt_succ_self _) hrun hclear
  refine ⟨st', ?_, heq.trans heq'⟩
  rw [parseWith, show (ofText other).wholeStatement.run tolerant other = _ from hrun]
  dsimp only
  rw [hclear]

/-- A respelled text is read as the text itself, up to places and the text of window frames. -/
theorem parse_respelled {text other : String} (hplain : '\\' ∉ text.toList)
    (h : Respelled text.toList other.toList) (tolerant : Bool) :
    (parseWith tolerant text).toOption.map Statement.unplaced =
      (parseWith tolerant other).toOption.map Statement.unplaced := by
  cases hx : parseWith tolerant text with
  | ok st =>
    obtain ⟨st', hy, heq⟩ := parse_rewritten (.there h hplain) hx
    rw [hy]
    exact congrArg some heq
  | error _ =>
    cases hy : parseWith tolerant other with
    | error _ => rfl
    | ok st' =>
      obtain ⟨st, hst, -⟩ := parse_rewritten (.back h hplain) hy
      rw [hx] at hst
      cases hst

/-- Two words, a comment that ends a line, a parameter, and a comment at the end. -/
def loudQuery : String := "SELECT  Id--key\n,$P/* all */"

def quietQuery : String := "select id ,$P "

theorem respelled_loudQuery : Respelled loudQuery.toList quietQuery.toList := by
  refine @Respelled.lexeme _ " id ,$P ".toList "select".toList
    ⟨.word, "SELECT".toList, "  Id--key\n,$P/* all */".toList⟩ rfl rfl ?_
  refine @Respelled.lexeme _ " ,$P ".toList "id".toList
    ⟨.word, "Id".toList, "--key\n,$P/* all */".toList⟩ rfl rfl ?_
  refine @Respelled.lexeme _ "$P ".toList ",".toList
    ⟨.mark, ",".toList, "$P/* all */".toList⟩ rfl rfl ?_
  refine @Respelled.lexeme _ " ".toList "$P".toList ⟨.param, "$P".toList, "/* all */".toList⟩
    rfl rfl ?_
  exact .done rfl

theorem parse_respelled_loudQuery : '\\' ∉ loudQuery.toList ∧
    Respelled loudQuery.toList quietQuery.toList ∧
    (parseWith false loudQuery).toOption.isSome = true ∧
    (parseWith false loudQuery).toOption.map Statement.unplaced =
      (parseWith false quietQuery).toOption.map Statement.unplaced := by
  have hplain : '\\' ∉ loudQuery.toList := by decide
  have hread : (parseWith false loudQuery).toOption.isSome = true := by decide +kernel
  exact ⟨hplain, respelled_loudQuery, hread, parse_respelled hplain respelled_loudQuery false⟩

end SqlTyping
