import SqlTyping.Proofs.Layout.Spans
import SqlTyping.Proofs.Nesting.Statements

/-!
# Brackets and parameters of a parsed text

A text that can be read closes all its brackets, and how many of them are open at a time is bounded
by the levels of nesting and by what its sketch adds to them (`parse_walks`). Every parameter in it
is one of the tree, or stands in text that the tree does not keep (`parse_accounts`): in a window
frame, or in the predicate of a conflict target.
-/

namespace SqlTyping

open List

variable {text : String} {tolerant : Bool} {st : Statement}

namespace Sketch

def params : Sketch → List ParamRef
  | both first second => first.params ++ second.params
  | param ref => [ref]
  | inner inside => inside.params
  | empty | frame _ | dropped _ => []

/-- The texts of window frames. -/
def frames : Sketch → List String
  | both first second => first.frames ++ second.frames
  | inner inside => inside.frames
  | frame words => [words]
  | empty | param _ | dropped _ => []

/-- Where text has been dropped. -/
def gaps : Sketch → List Span
  | both first second => first.gaps ++ second.gaps
  | inner inside => inside.gaps
  | dropped span => [span]
  | empty | param _ | frame _ => []

theorem Accounts.cases {offset : Nat} {s : Sketch} (h : s.Accounts text offset) :
    (∃ ref ∈ s.params, ref.span.start = offset) ∨ (∃ words ∈ s.frames, Quotes text words offset) ∨
      ∃ span ∈ s.gaps, span.start ≤ offset ∧ offset < span.stop := by
  induction s with
  | empty => exact h.elim
  | both first second ihfirst ihsecond =>
    simp only [params, frames, gaps, mem_append]
    rcases h with h | h
    · rcases ihfirst h with ⟨ref, href, hstart⟩ | ⟨words, hwords, hquotes⟩ | ⟨span, hspan, hin⟩
      · exact .inl ⟨ref, .inl href, hstart⟩
      · exact .inr (.inl ⟨words, .inl hwords, hquotes⟩)
      · exact .inr (.inr ⟨span, .inl hspan, hin⟩)
    · rcases ihsecond h with ⟨ref, href, hstart⟩ | ⟨words, hwords, hquotes⟩ | ⟨span, hspan, hin⟩
      · exact .inl ⟨ref, .inr href, hstart⟩
      · exact .inr (.inl ⟨words, .inr hwords, hquotes⟩)
      · exact .inr (.inr ⟨span, .inr hspan, hin⟩)
  | param ref => exact .inl ⟨ref, mem_singleton_self _, h⟩
  | inner inside ih => exact ih h
  | frame words => exact .inr (.inl ⟨words, mem_singleton_self _, h⟩)
  | dropped span => exact .inr (.inr ⟨span, mem_singleton_self _, h⟩)

end Sketch

namespace Grammar

open Rule Survey Sketch
open Fold (sketch)

variable {S : Survey} [S.IsPlain]

/-! ## Transactions -/

set_option synthInstance.maxSize 1000

instance : S.Passes here isolationLevel := .bind

instance : S.Passes here transactionMode := .bind

instance : S.Passes here transactionModes := .bind

instance : S.Passes here workWord := .found

instance (first second : String) [IsWord first] [IsWord second] :
    S.Passes here (either first second) := .bind

instance : S.Passes here startTransaction := .bind

instance : S.Passes here toSavepoint := .bind

instance : S.Passes here transactionKind :=
  .each fun _ => .branch (.each fun _ => .branch (.each fun _ => .branch .bind))

instance : S.Passes here transaction := .bind

/-! ## Statements -/

namespace Covered

variable {g : Grammar}

theorem statement (h : g.Covered S) : S.Covers here g.statement Statement.sketch := by
  have hhead : S.Covers here g.changeHead fun head => sketch.with? () head.1 :=
    h.maybeWith.first fun _ => .pass fun _ => .pure le_rfl
  have hchange {α : Type} {withClause : Option With} {rule : Rule α} {of : α → Sketch}
      {make : α → Statement} (hrule : S.Runs here 0 (sketch.with? () withClause) rule (S.Shows of))
      (hmake : ∀ x, (make x).sketch = of x) :
      S.Runs here 0 (sketch.with? () withClause) (rule >>= fun x => pure (make x))
        (S.Shows Statement.sketch) := by
    intro d a m i hd ha hcross
    refine (hrule d a m i hd ha hcross).bind fun x m' hread => .pure ?_
    obtain ⟨t, ht, hle⟩ := hread
    refine ⟨t, ht, ?_⟩
    show S.reach t ≤ S.reach (make x).sketch
    rw [hmake]
    exact hle
  refine .passCases (fun _ => .pure le_rfl) (.pass fun start => ?_)
  refine hhead.firstCases (fun head => ?_) (h.query.out.first fun _ => .pure le_rfl)
  obtain ⟨withClause, kind⟩ := head
  cases kind with
  | insert => exact hchange (h.insert start withClause) fun _ => rfl
  | update => exact hchange (h.update start withClause) fun _ => rfl
  | delete => exact hchange (h.delete start withClause) fun _ => rfl

/-- Nothing but space and comments is left after a statement. -/
theorem wholeStatement (h : g.Covered S) {m : S.Spot} : S.Ensures g.wholeStatement 0 m fun st m' =>
      S.Crosses 0 m.index 0 m'.index (S.reach st.sketch) ∧ (S.mark m'.index).tokens = [] := by
  have hend {m : S.Spot} : S.Ensures atEnd 0 m fun ended m' =>
      m' = m ∧ ended = (S.mark m.index).skipTrivia.rest.isEmpty := by
    intro c result c' hc hrun
    cases hrun
    refine ⟨Nat.le_of_eq hc.deep.symm, fun ended hended => ⟨m, hc, rfl, ?_⟩⟩
    rw [← hc.mark]
    exact (Option.some.inj hended).symm
  refine (h.statement 0 0 m m.index (Nat.zero_le _) (Nat.zero_le _) (.refl _ _)).bind
    fun st m₁ hstatement => ?_
  obtain ⟨t, ht, hle⟩ := hstatement
  refine (Passes.ensures (Nat.zero_le _) (Nat.zero_le _)).bind fun _ m₂ hmark => ?_
  refine hend.bind fun ended m₃ hended => ?_
  obtain ⟨rfl, rfl⟩ := hended
  refine .cond (fun hempty => .pure ⟨?_, ?_⟩) fun _ => .fail _
  · exact (ht.trans hmark).mono (by simpa using hle)
  · exact Mark.tokens_of_end (List.isEmpty_iff.1 hempty)

end Covered

end Grammar

/-- All tokens of a text that can be read are covered by the sketch of its statement. -/
theorem crosses_parseWith
    (hplain : Lexeme.Plain text.toList) (h : parseWith tolerant text = .ok st) :
    Token.Walks (maxDepth + 1 + st.sketch.slack text) 0 (Mark.start text).tokens 0 ∧
      ∀ offset, ⟨.param, offset⟩ ∈ (Mark.start text).tokens → st.sketch.Accounts text offset := by
  obtain ⟨c, hrun, -⟩ := run_of_parseWith h
  let S : Survey := ⟨text, tolerant⟩
  have : S.IsPlain := ⟨hplain⟩
  let m₀ : S.Spot := ⟨0, Nat.zero_le _, 0⟩
  have hstart : (Cursor.ofText text).At m₀ := ⟨rfl, rfl⟩
  obtain ⟨m, -, ⟨tokens, hstretch, hwalks, hparams⟩, hend⟩ :=
    ((Grammar.covered_within (text.length + 1)).wholeStatement (m := m₀) hstart hrun).2 st rfl
  have htokens : (Mark.start text).tokens = tokens := by
    have heq := hstretch.tokens_eq
    rwa [hend, append_nil] at heq
  rw [htokens]
  exact ⟨hwalks, hparams⟩

/-- A text that can be read closes every bracket that it opens, and never has more of them open than
there are levels of nesting and slack in its sketch: brackets of arrays inside arrays, of joins and
of changes in `WITH` are no levels. -/
theorem parse_walks {tolerant : Bool} {text : String} {st : Statement}
    (hplain : Lexeme.Plain text.toList) (h : parseWith tolerant text = .ok st) :
    Token.Walks (maxDepth + 1 + st.sketch.slack text) 0 (Mark.start text).tokens 0 :=
  (crosses_parseWith hplain h).1

/-- An array in an array and a join in parentheses. -/
def unevenBrackets : String := "SELECT ARRAY[[$a], ['[(']] FROM (b CROSS JOIN c)"

theorem parse_walks_unevenBrackets : ∃ st, parseWith false unevenBrackets = .ok st ∧
    st.sketch.slack unevenBrackets = 1 ∧ Token.openings (Mark.start unevenBrackets).tokens = 4 ∧
    Token.Walks (maxDepth + 1 + st.sketch.slack unevenBrackets) 0
      (Mark.start unevenBrackets).tokens 0 := by
  have hread : (parseWith false unevenBrackets).toOption.any fun st => decide
      (st.sketch.slack unevenBrackets = 1 ∧
        Token.openings (Mark.start unevenBrackets).tokens = 4) := by
    decide +kernel
  have hplain : Lexeme.Plain unevenBrackets.toList := Lexeme.plain_of_unescaped fun hpart =>
    absurd (hpart.subset mem_cons_self) (by decide +kernel)
  obtain ⟨st, hp, hread⟩ := exists_of_toOption_any hread
  obtain ⟨hslack, hopenings⟩ := of_decide_eq_true hread
  exact ⟨st, hp, hslack, hopenings, parse_walks hplain hp⟩

/-- Every parameter of a text that can be read is a parameter of the tree, or stands in a window
frame or between the columns of a conflict target and what follows the target. -/
theorem parse_accounts {tolerant : Bool} {text : String} {st : Statement}
    (hplain : Lexeme.Plain text.toList) (h : parseWith tolerant text = .ok st) {offset : Nat}
    (ht : ⟨.param, offset⟩ ∈ (Mark.start text).tokens) :
    (∃ ref ∈ st.sketch.params, ref.span.start = offset) ∨
      (∃ words ∈ st.sketch.frames, Sketch.Quotes text words offset) ∨
      ∃ span ∈ st.sketch.gaps, span.start ≤ offset ∧ offset < span.stop :=
  ((crosses_parseWith hplain h).2 offset ht).cases

/-- A parameter that is kept, one in a window frame and one in a conflict target. -/
def forgottenParams : String :=
  "INSERT INTO t SELECT sum($v) OVER (ROWS $n PRECEDING) ON CONFLICT (a) WHERE $x DO NOTHING"

theorem parse_accounts_forgottenParams : ∃ st, parseWith false forgottenParams = .ok st ∧
    st.sketch.params.map ParamRef.name = ["v"] ∧
    ∀ offset ∈ [25, 40, 76], ⟨.param, offset⟩ ∈ (Mark.start forgottenParams).tokens ∧
      ((∃ ref ∈ st.sketch.params, ref.span.start = offset) ∨
        (∃ words ∈ st.sketch.frames, Sketch.Quotes forgottenParams words offset) ∨
        ∃ span ∈ st.sketch.gaps, span.start ≤ offset ∧ offset < span.stop) := by
  have hread : (parseWith false forgottenParams).toOption.any fun st => decide
      (st.sketch.params.map ParamRef.name = ["v"]) := by
    decide +kernel
  have htokens : ∀ offset ∈ [25, 40, 76],
      ⟨.param, offset⟩ ∈ (Mark.start forgottenParams).tokens := by
    decide +kernel
  have hplain : Lexeme.Plain forgottenParams.toList := Lexeme.plain_of_unescaped fun hpart =>
    absurd (hpart.subset mem_cons_self) (by decide +kernel)
  obtain ⟨st, hp, hread⟩ := exists_of_toOption_any hread
  refine ⟨st, hp, of_decide_eq_true hread, fun offset hoffset => ?_⟩
  exact ⟨htokens offset hoffset, parse_accounts hplain hp (htokens offset hoffset)⟩

end SqlTyping
