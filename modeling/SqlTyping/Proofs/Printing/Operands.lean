import SqlTyping.Proofs.Printing.Boundaries
import SqlTyping.Syntax.Grammar.Operand

/-!
# Names and numbers as operands

At a boundary nothing is read that belongs to the operand before it. So a name is no type, no
function and no keyword that goes on, and it is read as a column.
-/

namespace SqlTyping

open Lexeme Rule Grammar List

variable {before : List String} {Q : Expr → Prop} {α : Type} {ctx : Context} {bound : Nat}
  {tokens : List String} {g : Grammar}

theorem Rule.Refuses.maybeD {rule : Rule α} (h : rule.Refuses ctx tokens) (fallback : α) :
    (Rule.maybeD fallback rule).Accepts ctx tokens tokens :=
  h.maybe (.pure trivial)

/-! ## Boundaries -/

namespace Boundary

theorem refuses_dotted (h : Boundary bound tokens) (name : Rule Ident) :
    (dotted name).Refuses ctx tokens :=
  (h.refuses_punct "." rfl).bind

theorem accepts_secondWord (h : Boundary bound tokens) (name : String) :
    (secondWord name).Accepts ctx tokens tokens := by
  unfold secondWord
  split
  · exact (h.refuses_keyword "PRECISION" rfl).found (.pure trivial)
  case h_2 | h_3 | h_4 => exact (h.refuses_keyword "VARYING" rfl).found (.pure trivial)
  · exact .pure trivial

theorem accepts_timeZone (h : Boundary bound tokens) (name : String) :
    (timeZone name).Accepts ctx tokens tokens := by
  unfold timeZone
  split
  · exact (Refuses.keywords (h.refuses_keyword "WITH" rfl)).found <|
      (Refuses.keywords (h.refuses_keyword "WITHOUT" rfl)).found (.pure trivial)
  · exact .pure trivial

theorem accepts_postfixStep (h : Boundary bound tokens) (start : Nat) (e : Expr) :
    (g.postfixStep start e).Accepts ctx tokens tokens (· = none) := by
  have hfield : (fieldOf e).Refuses ctx tokens := by
    unfold fieldOf
    split
    · exact h.refuses_dotted _
    · exact Refuses.reject
  have hsubscript : g.subscript.Refuses ctx tokens := (h.refuses_punct "[" rfl).bind
  have hcollation : collation.Refuses ctx tokens := (h.refuses_keyword "COLLATE" rfl).bind
  have hzone : (keywords ["AT", "TIME", "ZONE"]).Refuses ctx tokens :=
    .keywords (h.refuses_keyword "AT" rfl)
  exact (h.refuses_punct "::" rfl).found <| hsubscript.maybe <| hfield.maybe <| hcollation.found <|
    hzone.maybe (.pure rfl)

end Boundary

/-! ## Operands without a sign -/

theorem accepts_suffixed
    (h : g.primary.Accepts ctx before tokens Q) (hend : Boundary bound tokens) :
    g.suffixed.Accepts ctx before tokens Q := by
  refine Ends.begin fun start => h.bind fun e he => Ends.grow fun fuel _ => ?_
  refine (Accepts.growWithin_stop (hend.accepts_postfixStep start e) fuel).mono ?_
  rintro _ rfl
  exact he

theorem accepts_signed (hhead : (unwords before).head?.any isOperatorChar = false)
    (h : g.primary.Accepts ctx before tokens Q) (hend : Boundary bound tokens) :
    g.signed.Accepts ctx before tokens Q :=
  Ends.begin fun _ => (Refuses.operatorWhere_of_head hhead).maybe (accepts_suffixed h hend)

theorem accepts_primary {rules : List (Rule Expr)}
    (hfirst : (unwords before).head? ≠ some '(') (hparam : (unwords before).head? ≠ some '$')
    (hrules : g.primary = (do
      let found ← maybe (firstOf (g.parenthesized :: (do return .param (← paramRef)) :: rules))
      match found with
      | some e => return e
      | none => fail "expression"))
    (h : (firstOf rules).Accepts ctx before tokens Q) : g.primary.Accepts ctx before tokens Q := by
  have hparen : g.parenthesized.Refuses ctx before :=
    Ends.begin fun _ => Refuses.bind (.punct (punctuation_eq_none rfl hfirst))
  have href : paramRef.Refuses ctx before := Refuses.bind (.terminal (param_eq_none hparam))
  rw [hrules]
  exact Accepts.maybe (hparen.orElse (href.bind.orElse h)) fun _ he => .pure he

/-! ## Numbers -/

theorem accepts_primary_number {digits : String} (h : isNumeral digits = true) :
    g.primary.Accepts ctx (digits :: tokens) tokens (·.formula? = some (.number digits)) := by
  obtain ⟨c, hhead, hdigit⟩ := head?_unwords_numeral h tokens
  have hnumber : Rule.number.Accepts ctx (digits :: tokens) tokens (·.value = digits) :=
    .terminal (number_numeral h tokens)
  have hvalue : literalValue.Accepts ctx (digits :: tokens) tokens (· = .number digits) :=
    Accepts.orElse (hnumber.bind fun _ hd => .pure (by rw [hd]))
  have hliteral : literal.Accepts ctx (digits :: tokens) tokens
      (·.formula? = some (.number digits)) := by
    refine Ends.begin fun start => hvalue.maybe ?_
    rintro _ rfl
    exact Ends.spanFrom fun _ => .pure rfl
  refine accepts_primary ?_ ?_ rfl hliteral.orElse
  · rw [hhead]
    rintro ⟨⟩
    exact absurd hdigit (by decide)
  · rw [hhead]
    rintro ⟨⟩
    exact absurd hdigit (by decide)

/-! ## Names -/

section Name

variable {name : String} (hname : isPlainName name = true)
include hname

theorem accepts_ident :
    ident.Accepts ctx (name :: tokens) tokens fun id => id.value = name ∧ id.quoted = false := by
  refine (Accepts.terminal (identifier_name hname tokens)).bind fun token hvalue => .pure ?_
  rw [identOf, hvalue]
  exact ⟨rfl, rfl⟩

theorem accepts_column (hend : Boundary bound tokens) :
    column.Accepts ctx (name :: tokens) tokens (·.formula? = some (.name name)) := by
  refine Ends.begin fun start => (accepts_ident hname).bind ?_
  rintro ⟨value, quoted, span⟩ ⟨hvalue, hquoted⟩
  subst hvalue hquoted
  exact Refuses.maybe (hend.refuses_punct "." rfl).bind (Ends.spanFrom fun _ => .pure rfl)

theorem accepts_dataType (hend : Boundary bound tokens) :
    dataType.Accepts ctx (name :: tokens) tokens := by
  have hmodifiers : modifiers.Refuses ctx tokens := (hend.refuses_punct "(" rfl).bind
  have hdimension : dimension.Refuses ctx tokens := (hend.refuses_punct "[" rfl).bind
  have harray : arrayKeyword.Accepts ctx tokens tokens :=
    (hend.refuses_keyword "ARRAY" rfl).found (.pure trivial)
  exact Ends.begin fun _ => (accepts_ident hname).bind fun _ _ =>
    (hend.refuses_dotted ident).maybe <| (hend.accepts_secondWord _).bind fun _ _ =>
      (hmodifiers.maybeD []).bind fun _ _ => (hend.accepts_timeZone _).bind fun _ _ =>
        hdimension.star.bind fun _ _ => harray.bind fun _ _ =>
          Ends.spanFrom fun _ => .pure trivial

theorem accepts_functionName (hend : Boundary bound tokens) :
    functionName.Accepts ctx (name :: tokens) tokens := by
  have hobject : objectName.Accepts ctx (name :: tokens) tokens := by
    refine Ends.begin fun _ => (accepts_ident hname).bind fun _ _ =>
      (hend.refuses_dotted label).star.bind ?_
    rintro _ rfl
    exact Ends.spanFrom fun _ => .pure trivial
  exact hobject.maybe fun _ _ => .pure trivial

theorem refuses_literal : literal.Refuses ctx (name :: tokens) := by
  have hnumber : Rule.number.Refuses ctx (name :: tokens) := by
    refine .terminal (number_eq_none ?_)
    obtain ⟨c, hhead, hstart⟩ := head?_unwords_name hname tokens
    rw [hhead, Option.any_some, Bool.or_eq_false_iff]
    constructor
    · rw [← Bool.not_eq_true]
      intro hdigit
      rw [isWordStart_of_isDigit hdigit] at hstart
      cases hstart
    · rw [beq_eq_false_iff_ne]
      rintro rfl
      exact absurd hstart (by decide)
  have hstring : Rule.string.Refuses ctx (name :: tokens) := by
    obtain ⟨c, rest, hcons, hstart, hrest, -⟩ := isPlainName_iff.1 hname
    refine .terminal (string_eq_none ?_ (.inr ?_))
    · rw [unwords, hcons]
      rintro ⟨⟩
      exact absurd hstart (by decide)
    · rw [unwords, hcons, cons_append, tail_cons]
      cases rest with
      | nil =>
        rw [nil_append]
        intro hquote
        have hspaced := head?_spaced (· == '\'') rfl tokens
        rw [hquote] at hspaced
        cases hspaced
      | cons d rest =>
        rw [all_cons, Bool.and_eq_true] at hrest
        rintro ⟨⟩
        exact absurd hrest.1 (by decide)
  have htruth : (oneOf [("TRUE", .boolean true), ("FALSE", .boolean false),
      ("NULL", Literal.null)]).Refuses ctx (name :: tokens) :=
    (Opening.name tokens hname).refuses_oneOf (by decide +kernel)
  have hvalue : literalValue.Refuses ctx (name :: tokens) :=
    hnumber.bind.orElse (hstring.bind.orElse (htruth.bind.orElse Refuses.reject))
  exact Ends.begin fun _ => hvalue.maybe (Refuses.fail "literal")

/-- A keyword that is no reserved word is a name where what must follow it is missing. -/
theorem refuses_keyword_then {word : String} (hword : word.toList.all isWordChar = true)
    {next : Span → Rule α} (hnext : ∀ span, (next span).Refuses ctx tokens) :
    (Rule.keyword word >>= next).Refuses ctx (name :: tokens) := by
  have hcases : (Rule.keyword word).Refuses ctx (name :: tokens) ∨
      (Rule.keyword word).Accepts ctx (name :: tokens) tokens :=
    keyword_cases hword (all_isWordChar_of_isPlainName hname)
  rcases hcases with hrefuses | haccepts
  · exact hrefuses.bind
  · exact haccepts.bind fun span _ => hnext span

theorem refuses_keywordCall (hend : Boundary bound tokens) :
    g.keywordCall.Refuses ctx (name :: tokens) := by
  have hcases : (anyOf ["SUBSTRING", "POSITION", "TRIM", "OVERLAY"]).Refuses ctx (name :: tokens) ∨
      (anyOf ["SUBSTRING", "POSITION", "TRIM", "OVERLAY"]).Accepts ctx (name :: tokens) tokens :=
    oneOf_cases (by decide) (all_isWordChar_of_isPlainName hname)
  refine Ends.begin fun _ => ?_
  rcases hcases with hrefuses | haccepts
  · exact hrefuses.bind
  · exact haccepts.bind fun _ _ => Refuses.bind (hend.refuses_punct "(" rfl).bind

theorem refuses_current : current.Refuses ctx (name :: tokens) :=
  Ends.begin fun _ => Refuses.bind ((Opening.name tokens hname).refuses_oneOf (by decide +kernel))

theorem accepts_primary_name (hend : Boundary bound tokens) :
    g.primary.Accepts ctx (name :: tokens) tokens (·.formula? = some (.name name)) := by
  obtain ⟨c, hhead, hstart⟩ := head?_unwords_name hname tokens
  have hparen : (punct "(").Refuses ctx tokens := hend.refuses_punct "(" rfl
  have hreserved : ∀ word ∈ reservedWords, word ≠ "NOT" →
      (Rule.keyword word).Refuses ctx (name :: tokens) :=
    fun word hword hnot => (Opening.name tokens hname).refuses_keyword hword fun _ _ => hnot
  have hcase : g.case.Refuses ctx (name :: tokens) :=
    Ends.begin fun _ => (hreserved "CASE" (by decide) (by decide)).bind
  have hcast : g.castCall.Refuses ctx (name :: tokens) :=
    Ends.begin fun _ => (hreserved "CAST" (by decide) (by decide)).bind
  have hexists : g.existsRow.Refuses ctx (name :: tokens) :=
    Ends.begin fun _ => (hreserved "EXISTS" (by decide) (by decide)).bind
  have harray : g.array.Refuses ctx (name :: tokens) :=
    Ends.begin fun _ => (hreserved "ARRAY" (by decide) (by decide)).bind
  have hdefault : defaultValue.Refuses ctx (name :: tokens) :=
    (hreserved "DEFAULT" (by decide) (by decide)).bind
  have hrow : g.row.Refuses ctx (name :: tokens) :=
    Ends.begin fun _ => refuses_keyword_then hname rfl fun _ => Refuses.bind hparen.bind
  have hextract : g.extract.Refuses ctx (name :: tokens) :=
    Ends.begin fun _ => refuses_keyword_then hname rfl fun _ => hparen.bind
  have htyped : typedString.Refuses ctx (name :: tokens) :=
    Ends.begin fun _ => (accepts_dataType hname hend).bind fun _ _ => hend.refuses_string.bind
  have hcall : g.functionCall.Refuses ctx (name :: tokens) :=
    Ends.begin fun _ => (accepts_functionName hname hend).bind fun _ _ => hparen.bind
  refine accepts_primary ?_ ?_ rfl ?_
  · rw [hhead]
    rintro ⟨⟩
    exact absurd hstart (by decide)
  · rw [hhead]
    rintro ⟨⟩
    exact absurd hstart (by decide)
  · exact (refuses_literal hname).orElse <| hcase.orElse <| hcast.orElse <| hexists.orElse <|
      harray.orElse <| hrow.orElse <| hextract.orElse <| (refuses_current hname).orElse <|
      hdefault.orElse <| (refuses_keywordCall hname hend).orElse <| htyped.orElse <|
      hcall.bind.orElse (accepts_column hname hend).orElse

end Name

end SqlTyping
