import SqlTyping.Proofs.Syntax.Rule
import SqlTyping.Syntax.Grammar.Name

/-!
# Where parameters are read

A parameter is read at the start of its span, and nothing but the text there decides what is read.
So two parameters of one text that start at the same place are the same.
-/

namespace SqlTyping

variable {text : String} {tolerant : Bool} (token : Spanned Lexeme.Param)

/-- The parameter that is read at an offset of the text. -/
def paramAt (text : String) (tolerant : Bool) (offset : Nat) : Option ParamRef :=
  (Text.dropBytes? offset text.toList).bind fun rest =>
    (Grammar.paramRef { tolerant } { mark := ⟨rest, offset⟩ }).1

/-- Is this the parameter that is read where its span starts? -/
def ParamRef.StandsIn (text : String) (tolerant : Bool) (ref : ParamRef) : Prop :=
  paramAt text tolerant ref.span.start = some ref

theorem ParamRef.StandsIn.unique {a b : ParamRef} (ha : a.StandsIn text tolerant)
    (hb : b.StandsIn text tolerant) (h : a.span.start = b.span.start) : a = b := by
  rw [StandsIn, h] at ha
  exact Option.some.inj (ha.symm.trans hb)

namespace Grammar

open Rule

theorem local_identList : identList.Local :=
  (((Local.terminal _ _).bind fun _ => .pure _).separated ",").parens

/-- What is read of a parameter after its first token. -/
def afterParam : Rule ParamRef := do
  let pick ← if token.value.spread then maybeD [] identList else pure []
  return {
    name := token.value.name, required := token.value.required, spread := token.value.spread, pick
    span := ← spanFrom token.span.start }

theorem paramRef_eq : paramRef = Rule.param >>= afterParam := rfl

theorem span_afterParam {token : Spanned Lexeme.Param} {ctx : Context} {c : Cursor} {ref : ParamRef}
    (h : (afterParam token ctx c).1 = some ref) :
    ref.span.start = token.span.start ∧ ref.span.start ≤ ref.span.stop := by
  obtain ⟨c', hrun⟩ : ∃ c', afterParam token ctx c = (some ref, c') := ⟨_, Prod.ext h rfl⟩
  unfold afterParam at hrun
  split at hrun
  all_goals
    obtain ⟨pick, c₁, -, hrun⟩ := bind_eq_some hrun
    obtain ⟨span, c₂, hspan, hrun⟩ := bind_eq_some hrun
    cases hspan
    cases hrun
    exact ⟨rfl, Nat.le_max_right _ _⟩

theorem local_afterParam : (afterParam token).Local := by
  have hfields : (maybeD [] identList).Local := local_identList.maybe.bind fun _ => .pure _
  unfold afterParam
  refine .cond ?_ ?_
  · exact hfields.bind fun _ => (Local.spanFrom _).bind fun _ => .pure _
  · exact (Local.pure _).bind fun _ => (Local.spanFrom _).bind fun _ => .pure _

theorem local_paramRef : paramRef.Local := (Local.terminal _ _).bind local_afterParam

theorem skipTrivia_of_param {m : Mark} {x : Lexeme Lexeme.Param}
    (h : Lexeme.param m.rest = some x) :
    m.skipTrivia = m := by
  obtain ⟨rest, offset⟩ := m
  have hdollar : ∃ rest', rest = '$' :: rest' := by
    unfold Lexeme.param at h
    dsimp only at h
    split at h
    · exact ⟨_, rfl⟩
    · exact ⟨_, rfl⟩
    · cases h
  obtain ⟨rest', rfl⟩ := hdollar
  rfl

/-- A parameter is read at the next token, and that is where its span starts. -/
theorem paramRef_skipTrivia {ctx : Context} {c : Cursor} {ref : ParamRef}
    (h : (paramRef ctx c).1 = some ref) :
    (paramRef ctx { c with mark := c.mark.skipTrivia }).1 = some ref ∧
      ref.span.start = c.mark.skipTrivia.offset := by
  have hrun : ∀ d : Cursor, d.mark.skipTrivia = c.mark.skipTrivia → (paramRef ctx d).1 =
      (Lexeme.param c.mark.skipTrivia.rest).bind fun x =>
        (afterParam ⟨x.value, ⟨c.mark.skipTrivia.offset, c.mark.skipTrivia.offset + x.size⟩⟩ ctx
          { d with mark := ⟨x.rest, c.mark.skipTrivia.offset + x.size⟩ }).1 := by
    intro d hd
    rw [← hd, paramRef_eq]
    show (Rule.bind Rule.param afterParam ctx d).1 = _
    rw [Rule.bind, Rule.param, terminal]
    cases Lexeme.param d.mark.skipTrivia.rest <;> rfl
  rw [hrun c rfl] at h
  obtain ⟨x, hx, hread⟩ := Option.bind_eq_some_iff.1 h
  refine ⟨?_, ?_⟩
  · rw [hrun _ (skipTrivia_of_param hx)]
    exact h
  · exact (span_afterParam hread).1

theorem standsIn_paramRef {ctx : Context} {c : Cursor} {ref : ParamRef} (hm : c.mark.In text)
    (h : (paramRef ctx c).1 = some ref) : ref.StandsIn text ctx.tolerant := by
  obtain ⟨hread, hstart⟩ := paramRef_skipTrivia h
  have hlocal := (local_paramRef ctx { tolerant := ctx.tolerant }
    { c with mark := c.mark.skipTrivia } { mark := c.mark.skipTrivia } rfl rfl).1
  rw [ParamRef.StandsIn, paramAt, hstart, hm.skipTrivia]
  exact hlocal.symm.trans hread

end Grammar

theorem ParamRef.StandsIn.ordered {ref : ParamRef} (h : ref.StandsIn text tolerant) :
    ref.span.start ≤ ref.span.stop := by
  obtain ⟨rest, -, hread⟩ := Option.bind_eq_some_iff.1 h
  rw [Grammar.paramRef_eq] at hread
  obtain ⟨token, c₁, -, hrun⟩ := Rule.bind_eq_some (Prod.ext hread rfl)
  exact (Grammar.span_afterParam (congrArg Prod.fst hrun)).2

end SqlTyping
