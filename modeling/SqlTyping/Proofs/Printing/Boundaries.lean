import SqlTyping.Proofs.Printing.Scanning

/-!
# Where operands start and end

`Opening` says that tokens start with an operand, and `Boundary` that they start with what may stand
after one. Terminals that belong elsewhere refuse them.
-/

namespace SqlTyping

open Lexeme Grammar

variable {α : Type} {ctx : Context} {tokens : List String}
  {word token mark label op name digits : String} {words : List (String × α)}
  {allowed : String → Bool} {c : Char}

/-! ## Terminals -/

namespace Rule

theorem Refuses.keyword (h : Lexeme.keyword word (unwords tokens) = none) :
    (Rule.keyword word).Refuses ctx tokens :=
  (Refuses.terminal h).bind

theorem Accepts.keyword (h : Text.eqFold word token = true) :
    (Rule.keyword word).Accepts ctx (token :: tokens) tokens :=
  (Accepts.terminal (keyword_eq_some h)).bind fun _ _ => .pure trivial

/-- A keyword is read as a whole or not at all. -/
theorem keyword_cases (hword : word.toList.all isWordChar = true)
    (htoken : token.toList.all isWordChar = true) :
    (Rule.keyword word).Refuses ctx (token :: tokens) ∨
      (Rule.keyword word).Accepts ctx (token :: tokens) tokens := by
  cases h : Text.eqFold word token with
  | false => exact .inl (.keyword (keyword_eq_none hword htoken h))
  | true => exact .inr (.keyword h)

theorem Refuses.keywords {words : List String} (h : (Rule.keyword word).Refuses ctx tokens) :
    (Rule.keywords (word :: words)).Refuses ctx tokens :=
  Refuses.attempt (Ends.begin fun _ => h.bind.bind.bind)

theorem Refuses.oneOf (h : ∀ entry ∈ words, (Rule.keyword entry.1).Refuses ctx tokens) :
    (Rule.oneOf words).Refuses ctx tokens := by
  induction words with
  | nil => exact .reject
  | cons entry words ih =>
    obtain ⟨word, a⟩ := entry
    exact (h (word, a) (by simp)).maybe (ih fun entry he => h entry (by simp [he]))

theorem oneOf_cases (hwords : ∀ entry ∈ words, entry.1.toList.all isWordChar = true)
    (htoken : token.toList.all isWordChar = true) :
    (Rule.oneOf words).Refuses ctx (token :: tokens) ∨
      (Rule.oneOf words).Accepts ctx (token :: tokens) tokens := by
  induction words with
  | nil => exact .inl .reject
  | cons entry words ih =>
    obtain ⟨word, a⟩ := entry
    have hcases : (Rule.keyword word).Refuses ctx (token :: tokens) ∨
        (Rule.keyword word).Accepts ctx (token :: tokens) tokens :=
      keyword_cases (hwords (word, a) (by simp)) htoken
    rcases hcases with hrefuses | haccepts
    · rcases ih fun entry he => hwords entry (by simp [he]) with hrest | hrest
      · exact .inl (hrefuses.maybe hrest)
      · exact .inr (hrefuses.maybe hrest)
    · exact .inr (haccepts.maybe fun _ _ => .pure trivial)

theorem Refuses.punct (h : Lexeme.punctuation mark (unwords tokens) = none) :
    (Rule.punct mark).Refuses ctx tokens :=
  (Refuses.terminal h).bind

theorem Accepts.punct (hend : ∀ rest, endsPunctuation mark rest = true) :
    (Rule.punct mark).Accepts ctx (mark :: tokens) tokens := by
  have hafter : ∀ cs : List Char, Text.after? cs (cs ++ spaced tokens) = some (spaced tokens) := by
    intro cs
    induction cs with
    | nil => rfl
    | cons c cs ih => rw [List.cons_append, Text.after?, if_pos (beq_self_eq_true c), ih]
  have hscan : Lexeme.punctuation mark (unwords (mark :: tokens)) =
      some ⟨(), mark.toList, spaced tokens⟩ := by
    rw [Lexeme.punctuation, unwords, hafter]
    exact if_pos (hend _)
  exact (Accepts.terminal hscan).bind fun _ _ => .pure trivial

theorem Accepts.operatorWhere (hop : isSymbol op = true) (hallowed : allowed op = true) :
    (Rule.operatorWhere label allowed).Accepts ctx (op :: tokens) tokens (·.value = op) := by
  refine Accepts.maybe (Q := (·.value = op)) ?_ fun _ hvalue => .pure hvalue
  refine (Accepts.terminal (operator_symbol hop tokens)).bind fun token hvalue => ?_
  rw [if_pos (by rw [hvalue]; exact hallowed)]
  exact .pure hvalue

theorem Refuses.operatorWhere (hop : isSymbol op = true) (hallowed : allowed op = false) :
    (Rule.operatorWhere label allowed).Refuses ctx (op :: tokens) := by
  refine Refuses.maybe ?_ (Refuses.fail label)
  refine (Accepts.terminal (operator_symbol hop tokens)).bind fun token hvalue => ?_
  rw [if_neg (by rw [hvalue, hallowed]; exact Bool.false_ne_true)]
  exact Refuses.reject

theorem Refuses.operatorWhere_of_head (h : (unwords tokens).head?.any isOperatorChar = false) :
    (Rule.operatorWhere label allowed).Refuses ctx tokens :=
  (Refuses.terminal (operator_eq_none h)).bind.maybe (Refuses.fail label)

end Rule

open Rule

/-! ## Ends of operands -/

/-- What may stand after an operand: nothing, a closing parenthesis, or an operator of a level below
the bound. -/
inductive Boundary (bound : Nat) : List String → Prop where
  | done : Boundary bound []
  | close (tokens : List String) : Boundary bound (")" :: tokens)
  | operator {op : String} (tokens : List String) (hop : isBinaryOperator op = true)
      (hlevel : levelOf op < bound) : Boundary bound (op :: tokens)

/-- The first characters of a boundary. -/
def isBoundaryChar (c : Char) : Bool := isOperatorChar c || c == ')' || c == 'O' || c == 'A'

theorem isBinaryOperator_cases (h : isBinaryOperator op = true) :
    op = "OR" ∨ op = "AND" ∨ isSymbol op = true := by
  simpa [isBinaryOperator, or_assoc] using h

theorem eq_false_of_isOperatorChar {test : Char → Bool} (h : isOperatorChar c = true)
    (hall : "+-*/<>=~!@#%^&|`?".toList.all (!test ·) = true) : test c = false := by
  have hc := List.all_eq_true.1 hall c (List.contains_iff_mem.1 h)
  rwa [Bool.not_eq_true'] at hc

theorem isAlpha_of_isOperatorChar (h : isOperatorChar c = true) : c.isAlpha = false :=
  eq_false_of_isOperatorChar h rfl

theorem head?_unwords_symbol (h : isSymbol op = true) (tokens : List String) :
    ∃ c, (unwords (op :: tokens)).head? = some c ∧ isOperatorChar c = true := by
  obtain ⟨c, rest, hcons, hc, -⟩ := exists_of_isSymbol h
  exact ⟨c, by rw [unwords, hcons]; rfl, hc⟩

namespace Boundary

variable {bound : Nat}

theorem mono {other : Nat} (h : Boundary bound tokens) (hle : bound ≤ other) :
    Boundary other tokens := by
  cases h with
  | done => exact .done
  | close tokens => exact .close tokens
  | operator tokens hop hlevel => exact .operator tokens hop (Nat.lt_of_lt_of_le hlevel hle)

/-- No binary operator is of the level of `NOT`. -/
theorem of_negation (h : Boundary (negationLevel + 1) tokens) : Boundary negationLevel tokens := by
  cases h with
  | done => exact .done
  | close tokens => exact .close tokens
  | @operator op tokens hop hlevel =>
    exact .operator tokens hop
      (Nat.lt_of_le_of_ne (Nat.le_of_lt_succ hlevel) (levelOf_ne_negationLevel op))

theorem head? (h : Boundary bound tokens) :
    ∀ c ∈ (unwords tokens).head?, isBoundaryChar c = true := by
  cases h with
  | done => intro c hc; cases hc
  | close tokens => intro c hc; cases hc; rfl
  | operator tokens hop hlevel =>
    intro d hd
    rcases isBinaryOperator_cases hop with rfl | rfl | hsymbol
    · cases hd; rfl
    · cases hd; rfl
    · obtain ⟨c, hhead, hc⟩ := head?_unwords_symbol hsymbol tokens
      rw [hhead] at hd
      cases hd
      rw [isBoundaryChar, hc, Bool.true_or, Bool.true_or, Bool.true_or]

/-- Is the mark one that does not stand after an operand here? -/
def isInnerMark (mark : String) : Bool := mark.toList.head?.any (!isBoundaryChar ·)

theorem refuses_punct (h : Boundary bound tokens) (mark : String)
    (hmark : isInnerMark mark = true) : (punct mark).Refuses ctx tokens := by
  rw [isInnerMark] at hmark
  cases hcons : mark.toList with
  | nil => rw [hcons] at hmark; cases hmark
  | cons d ds =>
    rw [hcons] at hmark
    refine .punct (punctuation_eq_none hcons fun hhead => ?_)
    have hd : (!isBoundaryChar d) = true := hmark
    rw [h.head? d hhead] at hd
    cases hd

theorem refuses_keyword_of_ne (h : Boundary bound tokens)
    (hchars : word.toList.all isWordChar = true)
    (halpha : word.toList.head?.any Char.isAlpha = true)
    (hne : ∀ op rest, tokens = op :: rest → op = "OR" ∨ op = "AND" → Text.eqFold word op = false) :
    (Rule.keyword word).Refuses ctx tokens := by
  cases h with
  | done => exact .keyword (keyword_eq_none_of_head halpha rfl)
  | close tokens => exact .keyword (keyword_eq_none_of_head halpha rfl)
  | operator tokens hop hlevel =>
    rcases isBinaryOperator_cases hop with rfl | rfl | hsymbol
    · exact .keyword (keyword_eq_none hchars rfl (hne _ _ rfl (.inl rfl)))
    · exact .keyword (keyword_eq_none hchars rfl (hne _ _ rfl (.inr rfl)))
    · obtain ⟨c, hhead, hc⟩ := head?_unwords_symbol hsymbol tokens
      refine .keyword (keyword_eq_none_of_head halpha ?_)
      rw [hhead]
      exact isAlpha_of_isOperatorChar hc

/-- Is the keyword one that does not stand after an operand here? -/
def isInnerKeyword (word : String) : Bool :=
  word.toList.all isWordChar && word.toList.head?.any Char.isAlpha && !Text.eqFold word "OR" &&
    !Text.eqFold word "AND"

theorem refuses_keyword (h : Boundary bound tokens) (word : String)
    (hword : isInnerKeyword word = true) : (Rule.keyword word).Refuses ctx tokens := by
  simp only [isInnerKeyword, Bool.and_eq_true, Bool.not_eq_true'] at hword
  obtain ⟨⟨⟨hchars, halpha⟩, hor⟩, hand⟩ := hword
  refine h.refuses_keyword_of_ne hchars halpha ?_
  rintro op _ _ (rfl | rfl)
  · exact hor
  · exact hand

theorem refuses_string (h : Boundary bound tokens) : string.Refuses ctx tokens := by
  refine .terminal (string_eq_none (fun hquote => ?_) (.inl ?_))
  · exact absurd (h.head? _ hquote) (by decide)
  · cases hhead : (unwords tokens).head? with
    | none => rfl
    | some c =>
      have hc := h.head? c hhead
      rw [Option.any_some, Bool.or_eq_false_iff, beq_eq_false_iff_ne, beq_eq_false_iff_ne]
      constructor
      · rintro rfl
        exact absurd hc (by decide)
      · rintro rfl
        exact absurd hc (by decide)

end Boundary

/-! ## Starts of operands -/

/-- The tokens start with an operand, perhaps in parentheses. -/
inductive Opening : List String → Prop where
  | name {value : String} (tokens : List String) (h : isPlainName value = true) :
      Opening (value :: tokens)
  | number {digits : String} (tokens : List String) (h : isNumeral digits = true) :
      Opening (digits :: tokens)
  | negation (tokens : List String) : Opening ("NOT" :: tokens)
  | paren {tokens : List String} (h : Opening tokens) : Opening ("(" :: tokens)

theorem head?_unwords_name (h : isPlainName name = true) (tokens : List String) :
    ∃ c, (unwords (name :: tokens)).head? = some c ∧ isWordStart c = true := by
  obtain ⟨c, rest, hcons, hc, -⟩ := isPlainName_iff.1 h
  exact ⟨c, by rw [unwords, hcons]; rfl, hc⟩

theorem head?_unwords_numeral (h : isNumeral digits = true) (tokens : List String) :
    ∃ c, (unwords (digits :: tokens)).head? = some c ∧ c.isDigit = true := by
  obtain ⟨c, rest, hcons, hc⟩ := exists_isDigit_of_isNumeral h
  exact ⟨c, by rw [unwords, hcons]; rfl, hc⟩

theorem isWordChar_of_isDigit (h : c.isDigit = true) : isWordChar c = true := by
  rw [isWordChar, Char.isAlphanum, h, Bool.or_true, Bool.true_or, Bool.true_or, Bool.true_or]

theorem isOperatorChar_of_isWordChar (h : isWordChar c = true) : isOperatorChar c = false := by
  rw [← Bool.not_eq_true]
  intro hop
  have hword : isWordChar c = false := eq_false_of_isOperatorChar hop rfl
  rw [hword] at h
  cases h

namespace Opening

theorem refuses_keyword (h : Opening tokens) (hword : word ∈ reservedWords)
    (hnot : ∀ rest, tokens = "NOT" :: rest → word ≠ "NOT") :
    (Rule.keyword word).Refuses ctx tokens := by
  have hletters : ∀ word ∈ reservedWords, word.toList.head?.any Char.isAlpha = true := by
    decide +kernel
  have hother : ∀ word ∈ reservedWords, word ≠ "NOT" → Text.eqFold word "NOT" = false := by
    decide +kernel
  cases h with
  | name tokens hname =>
    exact .keyword (keyword_eq_none (keyword_reserved word hword).1
      (all_isWordChar_of_isPlainName hname) (eqFold_eq_false_of_isPlainName hname hword))
  | number tokens hnumber =>
    obtain ⟨c, hhead, hc⟩ := head?_unwords_numeral hnumber tokens
    refine .keyword (keyword_eq_none_of_head (hletters word hword) ?_)
    rw [hhead]
    exact Text.isAlpha_of_isDigit hc
  | negation tokens =>
    exact .keyword (keyword_eq_none (keyword_reserved word hword).1 rfl
      (hother word hword (hnot _ rfl)))
  | paren h => exact .keyword (keyword_eq_none_of_head (hletters word hword) rfl)

theorem refuses_oneOf {α : Type} {entries : List (String × α)} (h : Opening tokens)
    (hwords : ∀ entry ∈ entries, entry.1 ∈ reservedWords ∧ entry.1 ≠ "NOT") :
    (oneOf entries).Refuses ctx tokens :=
  Refuses.oneOf fun entry hentry =>
    h.refuses_keyword (hwords entry hentry).1 fun _ _ => (hwords entry hentry).2

/-- Opening parentheses lead to an operand again. -/
theorem accepts_parens (h : Opening tokens) : ∃ rest, Opening rest ∧ ∀ fuel : List Char,
    tokens.length ≤ fuel.length →
      (manyWithin (maybe (punct "(")) fuel).Accepts ctx tokens rest := by
  have hstop : ∀ {tokens : List String}, (unwords tokens).head? ≠ some '(' → ∀ fuel,
      (manyWithin (maybe (punct "(")) fuel).Accepts ctx tokens tokens := by
    intro tokens hhead fuel
    have hparen : (punct "(").Refuses ctx tokens := .punct (punctuation_eq_none rfl hhead)
    exact (hparen.maybe_none.manyWithin_nil fuel).mono fun _ _ => trivial
  induction h with
  | name tokens hname =>
    obtain ⟨c, hhead, hc⟩ := head?_unwords_name hname tokens
    refine ⟨_, .name tokens hname, fun fuel _ => hstop ?_ fuel⟩
    rw [hhead]
    rintro ⟨⟩
    exact absurd hc (by decide)
  | number tokens hnumber =>
    obtain ⟨c, hhead, hc⟩ := head?_unwords_numeral hnumber tokens
    refine ⟨_, .number tokens hnumber, fun fuel _ => hstop ?_ fuel⟩
    rw [hhead]
    rintro ⟨⟩
    exact absurd hc (by decide)
  | negation tokens => exact ⟨_, .negation tokens, fun fuel _ => hstop (by rintro ⟨⟩) fuel⟩
  | paren h ih =>
    obtain ⟨rest, hrest, hmany⟩ := ih
    refine ⟨rest, hrest, fun fuel hfuel => ?_⟩
    cases fuel with
    | nil => cases hfuel
    | cons _ fuel =>
      exact (Accepts.punct fun _ => rfl).maybe fun _ _ =>
        (hmany fuel (Nat.le_of_succ_le_succ hfuel)).bind fun _ _ => .pure trivial

theorem accepts_startsQuery (h : Opening tokens) :
    startsQuery.Accepts ctx tokens tokens (· = false) := by
  obtain ⟨rest, hrest, hmany⟩ : ∃ rest, Opening rest ∧ ∀ fuel : List Char,
      tokens.length ≤ fuel.length →
        (manyWithin (maybe (punct "(")) fuel).Accepts ctx tokens rest :=
    h.accepts_parens
  have hstar : (star (punct "(")).Accepts ctx tokens rest := Ends.many hmany
  have hwords : (anyOf ["SELECT", "WITH", "VALUES"]).Refuses ctx rest :=
    hrest.refuses_oneOf (by decide +kernel)
  intro c hc
  obtain ⟨c', hrun, -⟩ := Refuses.run (hstar.bind fun _ _ => hwords) hc
  rw [startsQuery, foresee, hrun]
  exact ⟨false, rfl, hc, rfl⟩

end Opening

/-! ## Tokens are solid -/

theorem isSolid_of_isWordChar {rest : List Char} (hcons : token.toList = c :: rest)
    (h : isWordChar c = true) : isSolid token = true := by
  refine isSolid_iff.2 ⟨c, rest, hcons, ?_, ?_⟩
  · rw [← Bool.not_eq_true]
    intro hspace
    simp only [Text.isSpace, Bool.or_eq_true, beq_iff_eq] at hspace
    rcases hspace with (((rfl | rfl) | rfl) | rfl) | rfl <;> exact absurd h (by decide)
  · refine Bool.eq_false_iff.2 fun hcomment => ?_
    obtain ⟨_, heq | heq⟩ := startsComment_iff.1 hcomment <;> cases heq <;> cases h

theorem isSolid_of_isPlainName (h : isPlainName name = true) : isSolid name = true := by
  obtain ⟨c, rest, hcons, hstart, -⟩ := isPlainName_iff.1 h
  exact isSolid_of_isWordChar hcons (isWordChar_of_isWordStart hstart)

theorem isSolid_of_isNumeral (h : isNumeral digits = true) : isSolid digits = true := by
  obtain ⟨c, rest, hcons, hdigit⟩ := exists_isDigit_of_isNumeral h
  exact isSolid_of_isWordChar hcons (isWordChar_of_isDigit hdigit)

theorem isSolid_of_isBinaryOperator (h : isBinaryOperator op = true) : isSolid op = true := by
  rcases isBinaryOperator_cases h with rfl | rfl | hsymbol
  · rfl
  · rfl
  · obtain ⟨c, rest, hcons, hc, hcomment⟩ := exists_of_isSymbol hsymbol
    refine isSolid_iff.2 ⟨c, rest, hcons, ?_, hcomment⟩
    exact eq_false_of_isOperatorChar hc rfl

end SqlTyping
