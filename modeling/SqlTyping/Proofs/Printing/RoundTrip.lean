import SqlTyping.Proofs.Printing.Operands
import SqlTyping.Syntax.Grammar.Statement

/-!
# Formulas are read back

The text of a well-formed formula is read as an expression that is this formula up to spans. The
operators of a level are read in a loop, so the induction on the formula goes with what the loop does
next: an operand is followed by a boundary, which only the loop of a looser level goes past.
-/

namespace SqlTyping

open Lexeme Rule Grammar List

variable {ctx : Context} {bound : Nat} {tokens : List String} {g : Grammar}
  {inner before k : List String} {right t : Formula} {min : Nat} {op : String}

/-! ## Operators after an operand -/

theorem Boundary.refuses_suffix (h : Boundary bound tokens) {i : Nat} {level : Level}
    (hlevel : levels[i]? = some level)
    (hother : ∀ op rest, tokens = op :: rest → isBinaryOperator op = true → levelOf op ≠ i) :
    (g.suffix i level).Refuses ctx tokens := by
  cases level with
  | connective word =>
    refine Refuses.bind (h.refuses_keyword_of_ne ?_ ?_ ?_)
    · rcases eq_of_connective hlevel with ⟨rfl, rfl⟩ | ⟨rfl, rfl⟩ <;> decide
    · rcases eq_of_connective hlevel with ⟨rfl, rfl⟩ | ⟨rfl, rfl⟩ <;> decide
    · rintro op rest htokens hop
      have hne : levelOf op ≠ i := hother op rest htokens (by rcases hop with rfl | rfl <;> decide)
      rcases eq_of_connective hlevel with ⟨rfl, rfl⟩ | ⟨rfl, rfl⟩ <;> rcases hop with rfl | rfl
      · exact absurd rfl hne
      · decide
      · decide
      · exact absurd rfl hne
  | negation => exact Refuses.reject
  | test =>
    exact (h.refuses_keyword "ISNULL" rfl).found <|
      (h.refuses_keyword "NOTNULL" rfl).found (h.refuses_keyword "IS" rfl).bind
  | membership =>
    have hnot : (Rule.keyword "NOT").Refuses ctx tokens := h.refuses_keyword "NOT" rfl
    have hin : g.inSuffix.Refuses ctx tokens := hnot.found (h.refuses_keyword "IN" rfl).bind
    have hbetween : g.betweenSuffix.Refuses ctx tokens :=
      hnot.found (h.refuses_keyword "BETWEEN" rfl).bind
    have hkind : likeKind.Refuses ctx tokens := by
      refine Refuses.maybe (Refuses.oneOf ?_)
        (Refuses.bind (Refuses.keywords (h.refuses_keyword "SIMILAR" rfl)))
      simp only [forall_mem_cons, not_mem_nil, false_implies, implies_true, and_true]
      exact ⟨h.refuses_keyword "LIKE" rfl, h.refuses_keyword "ILIKE" rfl⟩
    have hlike : g.likeSuffix.Refuses ctx tokens := hnot.found hkind.bind
    exact hin.orElse (hbetween.orElse (hlike.orElse Refuses.reject))
  | symbols label isQuantified allowed =>
    refine Refuses.bind ?_
    cases h with
    | done => exact .operatorWhere_of_head rfl
    | close tokens => exact .operatorWhere_of_head rfl
    | operator tokens hop hbound =>
      rcases isBinaryOperator_cases hop with rfl | rfl | hsymbol
      · exact .operatorWhere_of_head rfl
      · exact .operatorWhere_of_head rfl
      · refine .operatorWhere hsymbol ?_
        rw [← Bool.not_eq_true]
        intro hallowed
        obtain ⟨c, rest, hcons, hc, -⟩ := exists_of_isSymbol hsymbol
        exact hother _ _ rfl hop (levelOf_of_symbols hlevel hallowed ⟨c, rest, hcons, hc⟩)

/-- A loop of a level ends at a boundary of that level. -/
theorem Boundary.refuses_anySuffix (h : Boundary min tokens) :
    (g.anySuffix min).Refuses ctx tokens := by
  refine Refuses.firstOf fun rule hrule => ?_
  obtain ⟨⟨level, i⟩, hmem, rfl⟩ := mem_map.1 hrule
  obtain ⟨hlevel, hmin⟩ := mem_drop_levels.1 (mem_reverse.1 hmem)
  refine h.refuses_suffix hlevel ?_
  rintro op rest rfl hop
  cases h with
  | close tokens => exact absurd hop (by decide)
  | operator tokens hop hlt => omega

/-- What an operator and its right operand make of the operand before them. -/
def Grammar.Suffix.Puts (op : String) (right : Formula) (suffix : Suffix) : Prop :=
  ∃ e span, e.formula? = some right ∧ suffix = fun left => .binary left ⟨op, span⟩ e

theorem accepts_suffix {level : Level} (hop : isBinaryOperator op = true)
    (hlevel : levels[levelOf op]? = some level) (hinner : Opening inner)
    (hright : (g.level (levelOf op + 1)).Accepts ctx inner tokens (·.formula? = some right)) :
    (g.suffix (levelOf op) level).Accepts ctx (op :: inner) tokens (Suffix.Puts op right) := by
  have hoperand : ∀ span : Span, (g.rightOperand (levelOf op) ⟨op, span⟩).Accepts ctx inner tokens
      (Suffix.Puts op right) :=
    fun span => hright.bind fun e he => .pure ⟨e, span, he, rfl⟩
  rcases isBinaryOperator_cases hop with rfl | rfl | hsymbol
  · cases hlevel
    exact (Accepts.keyword rfl).bind fun span _ => hoperand span
  · cases hlevel
    exact (Accepts.keyword rfl).bind fun span _ => hoperand span
  · obtain ⟨c, rest, hcons, hc, -⟩ := exists_of_isSymbol hsymbol
    obtain ⟨label, isQuantified, allowed, hown, hallowed⟩ :=
      exists_symbols_of_levelOf ⟨c, rest, hcons, hc⟩
    rw [hown] at hlevel
    cases hlevel
    refine (Accepts.operatorWhere hsymbol hallowed).bind ?_
    rintro ⟨value, span⟩ hvalue
    obtain rfl : value = op := hvalue
    cases isQuantified with
    | false => exact hoperand span
    | true =>
      exact Refuses.maybe (Refuses.bind (hinner.refuses_oneOf (by decide +kernel))) (hoperand span)

theorem accepts_anySuffix (hop : isBinaryOperator op = true) (hmin : min ≤ levelOf op)
    (hinner : Opening inner)
    (hright : (g.level (levelOf op + 1)).Accepts ctx inner tokens (·.formula? = some right)) :
    (g.anySuffix min).Accepts ctx (op :: inner) tokens (Suffix.Puts op right) := by
  have hown : ∃ level, levels[levelOf op]? = some level := by
    rcases isBinaryOperator_cases hop with rfl | rfl | hsymbol
    · exact ⟨_, rfl⟩
    · exact ⟨_, rfl⟩
    · obtain ⟨c, rest, hcons, hc, -⟩ := exists_of_isSymbol hsymbol
      obtain ⟨label, isQuantified, allowed, hown, -⟩ :=
        exists_symbols_of_levelOf ⟨c, rest, hcons, hc⟩
      exact ⟨_, hown⟩
  obtain ⟨level, hlevel⟩ := hown
  refine Accepts.firstOf (mem_map.2 ⟨(level, levelOf op), ?_, rfl⟩)
    (accepts_suffix hop hlevel hinner hright) fun rule hrule => ?_
  · exact mem_reverse.2 (mem_drop_levels.2 ⟨hlevel, hmin⟩)
  · obtain ⟨⟨other, i⟩, hmem, rfl⟩ := mem_map.1 hrule
    obtain ⟨hother, -⟩ := mem_drop_levels.1 (mem_reverse.1 hmem)
    by_cases hi : i = levelOf op
    · subst hi
      exact .inr (accepts_suffix hop hother hinner hright)
    · have hhere : Boundary (levelOf op + 1) (op :: inner) := .operator inner hop (Nat.lt_succ_self _)
      refine .inl (hhere.refuses_suffix hother ?_)
      rintro _ _ ⟨⟩ _ rfl
      exact hi rfl

/-- One round of the loop over operators. -/
def Grammar.operatorStep (g : Grammar) (min start : Nat) (left : Expr) : Rule (Option Expr) := do
  match ← maybe (g.anySuffix min) with
  | some suffix => return some (suffix left (← spanFrom start))
  | none => return none

theorem Grammar.operators_eq (g : Grammar) (unary : Rule Expr) (min : Nat) :
    g.operators unary min = (do
      let start ← begin
      let first ← g.operand unary min
      grow (g.operatorStep min start) first) :=
  rfl

theorem Boundary.accepts_operatorStep (h : Boundary min tokens) (start : Nat) (e : Expr) :
    (g.operatorStep min start e).Accepts ctx tokens tokens (· = none) :=
  h.refuses_anySuffix.maybe (.pure rfl)

/-! ## Operands -/

theorem accepts_operand {Q : Expr → Prop} {unary : Rule Expr} (min : Nat)
    (hnot : (Rule.keyword "NOT").Refuses ctx before) (h : unary.Accepts ctx before tokens Q) :
    (g.operand unary min).Accepts ctx before tokens Q := by
  unfold Grammar.operand
  split
  · exact Ends.begin fun _ => hnot.maybe h
  · exact h

theorem accepts_parenthesized (hinner : Opening inner)
    (h : g.expr.Accepts ctx inner (")" :: tokens) (·.formula? = some t)) :
    g.primary.Accepts ctx ("(" :: inner) tokens (·.formula? = some (.nested t)) := by
  have hquery : g.closedQuery.Accepts ctx inner inner (· = none) := by
    refine hinner.accepts_startsQuery.bind ?_
    rintro _ rfl
    exact .pure rfl
  have hclose : Boundary 0 (")" :: tokens) := .close tokens
  have hcomma : (punct ",").Refuses ctx (")" :: tokens) := hclose.refuses_punct "," rfl
  have hparen : g.parenthesized.Accepts ctx ("(" :: inner) tokens
      (·.formula? = some (.nested t)) := by
    refine Ends.begin fun start => (Accepts.punct fun _ => rfl).bind fun _ _ => hquery.bind ?_
    rintro _ rfl
    refine (h.separated hcomma).bind ?_
    rintro _ ⟨e, rfl, he⟩
    refine (Accepts.punct fun _ => rfl).bind fun _ _ => Ends.spanFrom fun _ => .pure ?_
    show e.formula?.map Formula.nested = _
    rw [he]
    rfl
  exact Accepts.maybe hparen.orElse fun _ he => .pure he

/-! ## Formulas -/

namespace Formula

theorem opening (t : Formula) (hwf : t.WellFormed) (k : List String) : Opening (t.tokens ++ k) := by
  induction t generalizing k with
  | name value => exact .name k hwf
  | number digits => exact .number k hwf
  | nested inner ih =>
    rw [tokens, cons_append, append_assoc]
    exact .paren (ih hwf _)
  | negation operand ih => exact .negation _
  | binary left op right ihl ihr =>
    rw [tokens, append_assoc]
    exact ihl hwf.1 _

theorem length_tokens_pos (t : Formula) : 0 < t.tokens.length := by
  cases t <;> simp [tokens]

theorem isSolid_of_mem_tokens (t : Formula) (hwf : t.WellFormed) :
    ∀ token ∈ t.tokens, isSolid token = true := by
  induction t with
  | name value => exact forall_mem_singleton.2 (isSolid_of_isPlainName hwf)
  | number digits => exact forall_mem_singleton.2 (isSolid_of_isNumeral hwf)
  | nested inner ih =>
    rw [tokens, forall_mem_cons, forall_mem_append, forall_mem_singleton]
    exact ⟨rfl, ih hwf, rfl⟩
  | negation operand ih =>
    rw [tokens, forall_mem_cons]
    exact ⟨rfl, ih hwf.1⟩
  | binary left op right ihl ihr =>
    obtain ⟨hleft, hright, hop, -⟩ := hwf
    rw [tokens, forall_mem_append, forall_mem_cons]
    exact ⟨ihl hleft, isSolid_of_isBinaryOperator hop, ihr hright⟩

/-- Where a loop for operators starts, the formula is read first, whatever boundary follows; then the
loop goes on with it. -/
def ReadsBack (t : Formula) : Prop :=
  ∀ ⦃n min : Nat⦄ ⦃ctx : Context⦄ ⦃k : List String⦄ ⦃E : Outcome Expr⦄,
    t.tokens.length ≤ n + 1 → min ≤ t.level → ctx.depth + t.depth ≤ maxDepth →
    Boundary (t.level + 1) k →
    (∀ e start (fuel : List Char), e.formula? = some t → k.length ≤ fuel.length →
      (growWithin ((within n).operatorStep min start) fuel e).Ends ctx k E) →
    ((within n).operators (within n).signed min).Ends ctx (t.tokens ++ k) E

theorem ends_operators {unary : Rule Expr} {E : Outcome Expr}
    (h : (g.operand unary min).Accepts ctx before k (·.formula? = some t))
    (hnext : ∀ e start (fuel : List Char), e.formula? = some t → k.length ≤ fuel.length →
      (growWithin (g.operatorStep min start) fuel e).Ends ctx k E) :
    (g.operators unary min).Ends ctx before E := by
  rw [operators_eq]
  exact Ends.begin fun start => h.bind fun e he => Ends.grow fun fuel hfuel =>
    hnext e start fuel he hfuel

/-- Up to a boundary of the level the whole loop reads just the formula. -/
theorem ReadsBack.level (h : t.ReadsBack) {n : Nat} (hroom : t.tokens.length ≤ n)
    (hmin : min ≤ t.level) (hdepth : ctx.depth + t.depth ≤ maxDepth)
    (hend : Boundary (t.level + 1) k) (hstop : Boundary min k) :
    ((within n).level min).Accepts ctx (t.tokens ++ k) k (·.formula? = some t) := by
  cases n with
  | zero => exact absurd t.length_tokens_pos (by omega)
  | succ n =>
    refine h hroom hmin hdepth hend fun e start fuel he _ => ?_
    refine (Accepts.growWithin_stop (hstop.accepts_operatorStep start e) fuel).mono ?_
    rintro _ rfl
    exact he

theorem readsBack_name {value : String} (hname : isPlainName value = true) :
    (Formula.name value).ReadsBack := by
  intro n min ctx k E _ _ _ hend hnext
  refine ends_operators (accepts_operand min ?_ (accepts_signed ?_ ?_ hend)) hnext
  · refine (Opening.name k hname).refuses_keyword (by decide) ?_
    rintro _ ⟨⟩
    exact absurd hname (by decide)
  · obtain ⟨c, hhead, hc⟩ := head?_unwords_name hname k
    rw [show (Formula.name value).tokens ++ k = value :: k from rfl, hhead]
    exact isOperatorChar_of_isWordChar (isWordChar_of_isWordStart hc)
  · exact accepts_primary_name hname hend

theorem readsBack_number {digits : String} (hdigits : isNumeral digits = true) :
    (Formula.number digits).ReadsBack := by
  intro n min ctx k E _ _ _ hend hnext
  refine ends_operators (accepts_operand min ?_ (accepts_signed ?_ ?_ hend)) hnext
  · refine (Opening.number k hdigits).refuses_keyword (by decide) ?_
    rintro _ ⟨⟩
    exact absurd hdigits (by decide)
  · obtain ⟨c, hhead, hc⟩ := head?_unwords_numeral hdigits k
    rw [show (Formula.number digits).tokens ++ k = digits :: k from rfl, hhead]
    exact isOperatorChar_of_isWordChar (isWordChar_of_isDigit hc)
  · exact accepts_primary_number hdigits

theorem readsBack_nested {inner : Formula} (hwf : inner.WellFormed) (h : inner.ReadsBack) :
    (Formula.nested inner).ReadsBack := by
  intro n min ctx k E hroom _ hdepth hend hnext
  simp only [tokens, length_cons, length_append, length_nil, depth] at hroom hdepth
  have htokens : (Formula.nested inner).tokens ++ k = "(" :: (inner.tokens ++ ")" :: k) := by
    rw [tokens, cons_append, append_assoc]
    rfl
  have hopening : Opening (inner.tokens ++ ")" :: k) := inner.opening hwf _
  have hinner : (within n).expr.Accepts ctx (inner.tokens ++ ")" :: k) (")" :: k)
      (·.formula? = some inner) := by
    refine Ends.nested (by omega) (h.level (by omega) (Nat.zero_le _) ?_ (.close k) (.close k))
    show ctx.depth + 1 + inner.depth ≤ maxDepth
    omega
  rw [htokens]
  refine ends_operators (accepts_operand min ?_ (accepts_signed rfl ?_ hend)) hnext
  · refine hopening.paren.refuses_keyword (by decide) fun rest heq => ?_
    exact absurd (List.cons.inj heq).1 (by decide)
  · exact accepts_parenthesized hopening hinner

theorem readsBack_negation {operand : Formula} (hlevel : negationLevel ≤ operand.level)
    (h : operand.ReadsBack) : (Formula.negation operand).ReadsBack := by
  intro n min ctx k E hroom hmin hdepth hend hnext
  simp only [tokens, length_cons, depth] at hroom hdepth
  have hstop : Boundary negationLevel k := hend.of_negation
  have hoperand : (Rule.nested ((within n).level negationLevel)).Accepts ctx (operand.tokens ++ k) k
      (·.formula? = some operand) := by
    refine Ends.nested (by omega) (h.level (by omega) hlevel ?_ (hstop.mono (by omega)) hstop)
    show ctx.depth + 1 + operand.depth ≤ maxDepth
    omega
  refine ends_operators ?_ hnext
  unfold Grammar.operand
  rw [if_pos (show min ≤ negationLevel from hmin)]
  refine Ends.begin fun start => (Accepts.keyword rfl).maybe fun span _ =>
    hoperand.bind fun e he => Ends.spanFrom fun _ => .pure ?_
  show (if ("NOT" : String) = "NOT" then e.formula?.map Formula.negation else none) = _
  rw [if_pos rfl, he]
  rfl

theorem readsBack_binary {left : Formula} (hwf : (Formula.binary left op right).WellFormed)
    (hleft : left.ReadsBack) (hright : right.ReadsBack) :
    (Formula.binary left op right).ReadsBack := by
  intro n min ctx k E hroom hmin hdepth hend hnext
  obtain ⟨-, hwfr, hop, hloose, htight⟩ := hwf
  simp only [tokens, length_append, length_cons, depth] at hroom hdepth
  have hpos := left.length_tokens_pos
  have htokens : (Formula.binary left op right).tokens ++ k =
      left.tokens ++ op :: (right.tokens ++ k) := by
    rw [tokens, append_assoc]
    rfl
  have hoperand : ((within n).level (levelOf op + 1)).Accepts ctx (right.tokens ++ k) k
      (·.formula? = some right) :=
    hright.level (by omega) htight (by omega) (hend.mono (Nat.succ_le_succ (Nat.le_of_lt htight)))
      hend
  rw [htokens]
  refine hleft (by omega) (Nat.le_trans hmin hloose) (by omega)
    (.operator _ hop (Nat.lt_succ_of_le hloose)) fun e start fuel he hfuel => ?_
  simp only [length_cons, length_append] at hfuel
  refine Accepts.growWithin_next ?_ (by omega) fun b hb fuel hfuel => hnext b start fuel hb hfuel
  refine (accepts_anySuffix hop hmin (right.opening hwfr k) hoperand).maybe ?_
  rintro _ ⟨r, span, hr, rfl⟩
  refine Ends.spanFrom fun whole => .pure ⟨_, rfl, ?_⟩
  simp only [Expr.formula?, he, hr]

theorem readsBack (t : Formula) (hwf : t.WellFormed) : t.ReadsBack := by
  induction t with
  | name value => exact readsBack_name hwf
  | number digits => exact readsBack_number hwf
  | nested inner ih => exact readsBack_nested hwf (ih hwf)
  | negation operand ih => exact readsBack_negation hwf.2 (ih hwf.1)
  | binary left op right ihl ihr => exact readsBack_binary hwf (ihl hwf.1) (ihr hwf.2.1)

/-- The text of a well-formed formula is read to its end, as that formula. -/
theorem expr_run_text (t : Formula) (hwf : t.WellFormed) (hdepth : t.depth < maxDepth)
    (tolerant : Bool) : ∃ e c, (Grammar.ofText t.text).expr.run tolerant t.text = (some e, c) ∧
      c.mark.rest = [] ∧ c.tooDeep = none ∧ e.formula? = some t := by
  have htext : t.text.toList = unwords t.tokens := toList_intercalate_space t.tokens
  have hsolid := t.isSolid_of_mem_tokens hwf
  have hroom : t.tokens.length ≤ t.text.length + 1 := by
    have hlength := length_le_length_unwords hsolid
    rw [← htext, String.length_toList] at hlength
    omega
  have hstart : (Cursor.ofText t.text).Before t.tokens := ⟨.inl htext, hsolid, rfl⟩
  have hlevel : ((Grammar.ofText t.text).level 0).Accepts ⟨tolerant, 1⟩ (t.tokens ++ []) []
      (·.formula? = some t) := by
    refine (t.readsBack hwf).level hroom (Nat.zero_le _) ?_ .done .done
    show 1 + t.depth ≤ maxDepth
    omega
  rw [append_nil] at hlevel
  have hexpr : (Grammar.ofText t.text).expr.Accepts ⟨tolerant, 0⟩ t.tokens []
      (·.formula? = some t) :=
    Ends.nested (show 0 < maxDepth by decide) hlevel
  obtain ⟨e, c, hrun, hend, he⟩ := hexpr.run hstart
  exact ⟨e, c, hrun, hend.rest_eq.elim id id, hend.clear, he⟩

/-- `NOT a = 1 OR ( b - 2 * c - d <> 3 ) AND e || f ^ 2 < x_1`. -/
def mixedFormula : Formula :=
  .binary (.negation (.binary (.name "a") "=" (.number "1"))) "OR" (.binary (.nested (.binary
        (.binary (.binary (.name "b") "-" (.binary (.number "2") "*" (.name "c"))) "-" (.name "d"))
        "<>" (.number "3")))
      "AND"
      (.binary (.binary (.name "e") "||" (.binary (.name "f") "^" (.number "2"))) "<"
        (.name "x_1")))

theorem expr_run_text_deep : (Formula.nested^[39] mixedFormula).WellFormed ∧
    (Formula.nested^[39] mixedFormula).depth = 40 ∧ ∃ e c,
      (Grammar.ofText (Formula.nested^[39] mixedFormula).text).expr.run false
        (Formula.nested^[39] mixedFormula).text = (some e, c) ∧
      c.mark.rest = [] ∧ c.tooDeep = none ∧ e.formula? = some (Formula.nested^[39] mixedFormula) :=
  ⟨by decide +kernel, by decide +kernel,
    expr_run_text (Formula.nested^[39] mixedFormula) (by decide +kernel) (by decide +kernel) false⟩

end Formula

end SqlTyping
