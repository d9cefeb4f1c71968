import Mathlib.Data.List.DropRight
import SqlTyping.Proofs.Spelling.Extents

/-!
# What quotes, operators and parameters are read as

Text in quotes is read as what it was before its quotes were doubled (`quotes_round_trip`). An
operator is the longest start of the text that may be one (`operator_longest`). A parameter is
spelled as its name, sigil and mark say; its name may be empty only before a letter beyond ASCII
(`param_spelling`).
-/

namespace SqlTyping

open List

/-- The rule reads the whole of `text` as `a`, and `rest` is left. -/
def Rule.Takes {α : Type} (rule : Rule (Spanned α)) (text rest : List Char) (a : α) : Prop :=
  ∀ (ctx : Context) (c : Cursor), c.mark.rest = text ++ rest →
    let stop := c.mark.offset + Text.byteSize text
    rule ctx c = (some ⟨a, ⟨c.mark.offset, stop⟩⟩, { c with mark := ⟨rest, stop⟩ })

namespace Lexeme

theorem takes_terminal {α : Type} {scan : Scanner α} {text rest : List Char} {a : α}
    (label : String) (htrivia : startsTrivia (text ++ rest) = false)
    (h : scan (text ++ rest) = some ⟨a, text, rest⟩) :
    (Rule.terminal label scan).Takes text rest a := by
  intro ctx c hc
  rw [Rule.terminal, skipTrivia_eq_self (hc ▸ htrivia), hc, h]
  rfl

/-! ## Quotes -/

/-- The text as it is written between quotes. -/
def doubled (quote : Char) (escapes : Bool) (cs : List Char) : List Char :=
  cs.flatMap fun c => if c == quote || escapes && c == '\\' then [c, c] else [c]

theorem quoted_doubled (quote : Char) (escapes : Bool) {rest : List Char}
    (hrest : rest.head? ≠ some quote) (cs : List Char) :
    quoted quote escapes (doubled quote escapes cs ++ quote :: rest) =
      some ⟨cs, doubled quote escapes cs ++ [quote], rest⟩ := by
  induction cs with
  | nil =>
    cases rest with
    | nil => simp [doubled, quoted]
    | cons d rest =>
      have hd : d ≠ quote := fun h => hrest (congrArg some h)
      simp [doubled, quoted, hd]
  | cons c cs ih =>
    rw [doubled, flatMap_cons, ← doubled]
    by_cases hc : c = quote
    · simp [hc, quoted, ih, Lexeme.map, after]
    · by_cases he : (escapes && c == '\\') = true
      · obtain ⟨rfl, rfl⟩ : escapes = true ∧ c = '\\' := by simpa using he
        simp [hc, quoted, ih, Lexeme.map, after, escaped]
      · have hquoted : ∀ cs, quoted quote escapes (c :: cs) =
            (quoted quote escapes cs).map fun x => (x.map (c :: ·)).after [c] := by
          intro cs
          rw [quoted.eq_def]
          simp [hc, he]
        simp [hc, he, hquoted, ih, Lexeme.map, after]

/-- A text whose quotes are doubled is read back from between quotes, and nothing beyond them is
read. After an `E`, backslashes are doubled too. -/
theorem quotes_round_trip (s : String) (rest : List Char) :
    (rest.head? ≠ some '\'' →
      Rule.string.Takes ('\'' :: doubled '\'' false s.toList ++ ['\'']) rest s ∧
      ∀ e ∈ ['e', 'E'],
        Rule.string.Takes (e :: '\'' :: doubled '\'' true s.toList ++ ['\'']) rest s) ∧
    (rest.head? ≠ some '"' → ∀ rule, rule = Rule.identifier ∨ rule = Rule.label →
      rule.Takes ('"' :: doubled '"' false s.toList ++ ['"']) rest (s, true)) := by
  refine ⟨fun hrest => ⟨takes_terminal _ rfl ?_, fun e he => ?_⟩, fun hrest rule hrule => ?_⟩
  · simp [string, quoted_doubled _ false hrest, Lexeme.map, after]
  · have he : e = 'e' ∨ e = 'E' := by simpa using he
    rcases he with rfl | rfl <;>
      exact takes_terminal _ rfl
        (by simp [string, quoted_doubled _ true hrest, Lexeme.map, after])
  · rcases hrule with rfl | rfl <;>
      exact takes_terminal _ rfl
        (by simp [identifier, quotedIdentifier, quoted_doubled _ false hrest, Lexeme.map, after])

theorem quotes_round_trip_apostrophe :
    Rule.string.Takes "'it''s'".toList [' '] "it's" ∧
    Rule.label.Takes "\"it's\"".toList ['\''] ("it's", true) :=
  ⟨((quotes_round_trip "it's" [' ']).1 (by decide)).1,
    (quotes_round_trip "it's" ['\'']).2 (by decide) _ (.inr rfl)⟩

/-! ## Operators -/

variable {cs p q rest : List Char} {x : Lexeme String}

def isSign (c : Char) : Bool := c == '+' || c == '-'

/-- May the operator `p` stand at the start of the text? -/
structure IsOperator (cs p : List Char) : Prop where
  isPrefix : p <+: cs
  ne_nil : p ≠ []
  chars : p.all isOperatorChar = true
  noComment : ∀ k < p.length, startsComment (cs.drop k) = false
  -- a sign that stands alone may end it
  noSign : p.tail.getLast?.any isSign = true → p.any allowsFinalSign = true

theorem isOperator_iff : IsOperator cs p ↔ p <+: operatorRun cs ∧ p ≠ [] ∧
    (p.tail.getLast?.any isSign = true → p.any allowsFinalSign = true) := by
  rw [isPrefix_operatorRun_iff]
  exact ⟨fun h => ⟨⟨h.isPrefix, h.chars, h.noComment⟩, h.ne_nil, h.noSign⟩,
    fun ⟨⟨hpre, hchars, hno⟩, hne, hsign⟩ => ⟨hpre, hne, hchars, hno, hsign⟩⟩

theorem isSign_rdropWhile (cs : List Char) :
    (cs.rdropWhile isSign).getLast?.any isSign = false := by
  rw [rdropWhile, getLast?_reverse]
  exact head?_dropWhile isSign cs.reverse

/-- Only signs are dropped. -/
theorem isPrefix_rdropWhile (hp : p <+: cs) (h : p.getLast?.any isSign = false) :
    p <+: cs.rdropWhile isSign := by
  induction cs using reverseRecOn with
  | nil => exact hp
  | append_singleton cs d ih =>
    rw [rdropWhile_concat]
    split
    · next hd =>
      rcases prefix_concat_iff.1 hp with rfl | hp
      · simp [hd] at h
      · exact ih hp
    · exact hp

/-- The operator that is read is the longest. -/
theorem isOperator_operator (h : operator cs = some x) :
    IsOperator cs x.text ∧ ∀ q, IsOperator cs q → q <+: x.text := by
  obtain ⟨htext, hne, -⟩ := of_operator h
  cases hrun : operatorRun cs with
  | nil => exact absurd (htext.trans (congrArg trimmed hrun)) hne
  | cons c run =>
    simp only [isOperator_iff, htext, hrun, trimmed]
    split
    · next hany => exact ⟨⟨prefix_rfl, cons_ne_nil _ _, fun _ => hany⟩, fun q hq => hq.1⟩
    · next hany =>
      refine ⟨⟨?_, cons_ne_nil _ _, fun hs => ?_⟩, ?_⟩
      · exact (prefix_cons_inj c).2 <| rdropWhile_prefix _ _
      · cases (isSign_rdropWhile run).symm.trans hs
      · rintro q ⟨hq, hne, hsign⟩
        obtain ⟨d, q, rfl⟩ := exists_cons_of_ne_nil hne
        obtain ⟨rfl, hpre⟩ := cons_prefix_cons.1 hq
        refine (prefix_cons_inj d).2 (isPrefix_rdropWhile hpre (Bool.eq_false_iff.2 fun hs => ?_))
        obtain ⟨e, he, hallow⟩ := any_eq_true.1 (hsign hs)
        exact hany (any_eq_true.2 ⟨e, hq.subset he, hallow⟩)

theorem isSome_operator (h : startsTrivia cs = false) :
    (operator cs).isSome = cs.head?.any isOperatorChar := by
  cases cs with
  | nil => rfl
  | cons c cs =>
    rw [startsTrivia, Bool.or_eq_false_iff] at h
    rw [operator, operatorRun, h.2]
    cases hc : isOperatorChar c <;> simp [hc]

theorem trimmed_trimmed (run : List Char) : trimmed (trimmed run) = trimmed run := by
  have hself : dropSigns (dropSigns run) = dropSigns run := by
    cases run with
    | nil => rfl
    | cons c run => exact congrArg (c :: ·) (rdropWhile_idempotent _ _)
  by_cases h : run.any allowsFinalSign = true
  · simp [trimmed, h]
  · simp [trimmed, h, hself]

theorem operatorRun_append (h : p <+: operatorRun (p ++ q))
    (hrest : rest.head?.any isOperatorChar = false) : operatorRun (p ++ rest) = p := by
  induction p with
  | nil => exact operatorRun_eq_nil hrest
  | cons c p ih =>
    rw [cons_append, operatorRun] at h
    split at h
    · next hc =>
      rw [Bool.and_eq_true, Bool.not_eq_true'] at hc
      have hcomment : startsComment (c :: p) = false := Bool.eq_false_iff.2 fun hp => by
        obtain ⟨more, hp | hp⟩ := startsComment_iff.1 hp <;> cases hp <;> cases hc.2
      rw [cons_append, operatorRun, startsComment_append hrest, hc.1, hcomment,
        ih (cons_prefix_cons.1 h).2]
      rfl
    · cases prefix_nil.1 h

/-- An operator that no operator character follows is read again. -/
theorem operator_append (h : operator cs = some x)
    (hrest : rest.head?.any isOperatorChar = false) :
    operator (x.text ++ rest) = some ⟨x.value, x.text, rest⟩ := by
  obtain ⟨htext, hne, hvalue, -⟩ := of_operator h
  have hpre : x.text <+: operatorRun cs := htext ▸ trimmed_isPrefix _
  rw [splits_operator _ x h] at hpre
  have htrim : trimmed x.text = x.text := by rw [htext, trimmed_trimmed]
  rw [operator, operatorRun_append hpre hrest]
  split
  · contradiction
  · show some (mk (symbol (trimmed x.text)) (trimmed x.text) (drop (trimmed x.text).length _)) = _
    rw [htrim, hvalue, drop_left]

/-- An operator is read wherever one can start, it is the longest one, and it is read again from any
text in which no operator character follows it, such as one with a blank there. -/
theorem operator_longest (ctx : Context) (c : Cursor) :
    let start := c.mark.skipTrivia
    (Rule.operator ctx c).1.isSome = start.rest.head?.any isOperatorChar ∧
    ∀ op c', Rule.operator ctx c = (some op, c') → ∃ p, start.rest = p ++ c'.mark.rest ∧
      c'.mark.offset = start.offset + Text.byteSize p ∧
      IsOperator start.rest p ∧ (∀ q, IsOperator start.rest q → q.length ≤ p.length) ∧
      ∀ rest, rest.head?.any isOperatorChar = false → Rule.operator.Takes p rest op.value := by
  intro start
  have htrivia : startsTrivia start.rest = false := startsTrivia_skipFrom _ _ _
  rw [← isSome_operator htrivia, Rule.operator, Rule.terminal]
  cases hx : operator c.mark.skipTrivia.rest with
  | none => exact ⟨rfl, fun _ _ h => by cases h⟩
  | some x =>
    refine ⟨rfl, fun op c' h => ?_⟩
    cases h
    obtain ⟨hop, hlongest⟩ := isOperator_operator hx
    refine ⟨x.text, splits_operator _ x hx, rfl, hop, fun q hq => (hlongest q hq).length_le,
      fun rest hrest => ?_⟩
    have hagain := operator_append hx hrest
    refine takes_terminal _ (Bool.eq_false_iff.2 fun htrivia => hop.ne_nil ?_) hagain
    have htext := (of_operator hagain).1
    rwa [operatorRun_of_startsTrivia htrivia] at htext

/-! ## Parameters -/

/-- A parameter is written as its sigil, its name and its mark. No character that may be part of a
name follows the name, and the name is empty only if a character beyond ASCII stands there: such
a character may start a name, but ends it too. -/
theorem param_spelling (ctx : Context) (c c' : Cursor) (token : Spanned Param)
    (h : Rule.param ctx c = (some token, c')) :
    let p := token.value
    let following := p.mark ++ c'.mark.rest
    c.mark.skipTrivia.rest = p.text ++ c'.mark.rest ∧
    c'.mark.offset = c.mark.skipTrivia.offset + Text.byteSize p.text ∧
    p.name.toList.all isParamChar = true ∧ following.head?.any isParamChar = false ∧
    (p.name = "" → following.head?.any (0x80 ≤ ·.toNat) = true) := by
  rw [Rule.param, Rule.terminal] at h
  split at h
  · cases h
  · next x hx =>
    cases h
    obtain ⟨rest, -, htext, hstart, hname, hrest⟩ := param_cases hx
    refine ⟨htext ▸ splits_param _ x hx, by rw [← htext]; rfl, ?_, ?_, ?_⟩
    · rw [hname]
      exact all_takeWhile
    · rw [hrest]
      exact head?_dropWhile isParamChar rest
    · intro hempty
      rw [hempty] at hname
      rw [hrest]
      cases rest with
      | nil => cases hstart
      | cons d rest =>
        cases hd : isParamChar d with
        | true => simp [hd] at hname
        | false =>
          rw [dropWhile_cons, hd]
          simp only [isParamChar, Char.isAlphanum, Bool.or_eq_false_iff] at hd
          simpa [isWordStart, hd] using hstart

theorem param_spelling_empty :
    let c : Cursor := { mark := ⟨['$', 'é'], 0⟩ }
    let c' : Cursor := { mark := ⟨['é'], 1⟩ }
    Rule.param {} c = (some ⟨⟨"", false, false⟩, ⟨0, 1⟩⟩, c') ∧
      c.mark.skipTrivia.rest = ['$'] ++ c'.mark.rest := by
  intro c c'
  have h : Rule.param {} c = (some ⟨⟨"", false, false⟩, ⟨0, 1⟩⟩, c') := rfl
  exact ⟨h, (param_spelling _ _ _ _ h).1⟩

end Lexeme

end SqlTyping
