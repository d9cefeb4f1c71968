import SqlTyping.Proofs.Printing.Formula
import SqlTyping.Proofs.Spelling.Terminals

/-!
# Scanners on tokens

Each kind of token is read by one scanner, up to its end, and refused by the others. A scanner that
refuses a token does so by the first character, apart from keywords, which are compared with the
whole word.
-/

namespace SqlTyping

open Lexeme List

variable {cs : List Char} {tokens : List String} {word token name digits op : String}
  {p : Char → Bool}

/-! ## Case -/

theorem Text.lower_eq_self {text : String} (h : text.toList.all isSmall = true) :
    Text.lower text = text := by
  have hsmall : ∀ c ∈ text.toList, c.toNat < 128 ∧ c.isUpper = false := fun c hc => by
    simpa [isSmall] using all_eq_true.1 h c hc
  rw [Text.lower, Text.lowerChars_eq_map fun c hc => (hsmall c hc).1,
    map_congr_left fun c hc => Text.toLower_eq_self (hsmall c hc).2, map_id',
    String.ofList_toList]

namespace Lexeme

/-! ## First characters -/

theorem keyword_eq_none_of_head (hword : word.toList.head?.any Char.isAlpha = true)
    (h : cs.head?.any Char.isAlpha = false) : keyword word cs = none := by
  refine Option.eq_none_iff_forall_ne_some.2 fun x hx => ?_
  obtain ⟨start, rest, rfl, hstart, -⟩ := keyword_eq_some_iff.1 hx
  have halpha : start.head?.any Char.isAlpha = true := by
    rw [← hword]
    simpa [Option.any_map, Function.comp_def, Text.isAlpha_toLower] using
      congrArg (fun cs => cs.head?.any Char.isAlpha) hstart
  cases start with
  | nil => cases halpha
  | cons c start => exact Bool.false_ne_true (h.symm.trans halpha)

theorem punctuation_eq_none {mark : String} {d : Char} {ds : List Char}
    (hmark : mark.toList = d :: ds) (h : cs.head? ≠ some d) : punctuation mark cs = none := by
  rw [punctuation, hmark]
  cases cs with
  | nil => rfl
  | cons c cs =>
    have hne : d ≠ c := fun heq => h (by rw [heq]; rfl)
    rw [Text.after?, if_neg (by simpa using hne)]

theorem operator_eq_none (h : cs.head?.any isOperatorChar = false) : operator cs = none := by
  rw [operator, operatorRun_eq_nil h]

theorem isWordStart_of_isDigit {c : Char} (h : c.isDigit = true) : isWordStart c = false := by
  have hcode : c.toNat < 0x80 ∧ c ≠ '_' := by
    constructor
    · rw [Text.isDigit_iff] at h
      omega
    · rintro rfl
      exact absurd h (by decide)
  rw [isWordStart, Text.isAlpha_of_isDigit h, beq_eq_false_iff_ne.2 hcode.2, decide_eq_false]
  · rfl
  · omega

theorem number_eq_none (h : cs.head?.any (fun c => c.isDigit || c == '.') = false) :
    number cs = none := by
  cases cs with
  | nil => rfl
  | cons c cs =>
    have hc : (c.isDigit || c == '.') = false := h
    rw [Bool.or_eq_false_iff] at hc
    obtain ⟨hdigit, hdot⟩ := hc
    have hwhole : (c :: cs).takeWhile Char.isDigit = [] := by
      rw [takeWhile_cons, if_neg (by rw [hdigit]; exact Bool.false_ne_true)]
    have hfraction : fraction (c :: cs) = [] := by
      rw [fraction.eq_def]
      split
      · rfl
      · next heq => cases heq; cases hdot
      · rfl
    rw [number, hwhole, length_nil, drop_zero, hfraction]
    rfl

theorem string_eq_none (hquote : cs.head? ≠ some '\'')
    (hescape : cs.head?.any (fun c => c == 'e' || c == 'E') = false ∨ cs.tail.head? ≠ some '\'') :
    string cs = none := by
  cases cs with
  | nil => rfl
  | cons c cs =>
    have hc : (c == '\'') = false := by simpa using hquote
    rw [string.eq_def]
    dsimp only
    rw [if_neg (by rw [hc]; exact Bool.false_ne_true)]
    cases cs with
    | nil => rfl
    | cons d cs =>
      dsimp only
      rw [if_neg]
      rw [Bool.and_eq_true, not_and, Bool.not_eq_true]
      intro he
      rcases hescape with hfirst | hsecond
      · rw [show (c == 'e' || c == 'E') = false from hfirst] at he
        cases he
      · simpa using hsecond

theorem param_eq_none (h : cs.head? ≠ some '$') : param cs = none := by
  rw [param.eq_def]
  split
  · exact absurd rfl h
  · exact absurd rfl h
  · rfl

/-! ## Words -/

theorem takeWhile_append_spaced (hp : p ' ' = false) (h : cs.all p = true) (tokens : List String) :
    (cs ++ spaced tokens).takeWhile p = cs ∧ (cs ++ spaced tokens).dropWhile p = spaced tokens :=
  takeWhile_append_stop h (head?_spaced p hp tokens)

/-- A keyword is the token that it is compared with, up to case. -/
theorem keyword_eq_some (h : Text.eqFold word token = true) :
    keyword word (unwords (token :: tokens)) = some ⟨(), token.toList, spaced tokens⟩ :=
  keyword_eq_some_iff.2 ⟨_, _, rfl, (Text.eqFold_iff.1 h).symm, head?_spaced _ rfl _, rfl⟩

theorem keyword_eq_none (hword : word.toList.all isWordChar = true)
    (htoken : token.toList.all isWordChar = true) (h : Text.eqFold word token = false) :
    keyword word (unwords (token :: tokens)) = none := by
  refine Option.eq_none_iff_forall_ne_some.2 fun x hx => ?_
  obtain ⟨start, rest, heq, hstart, hstop, -⟩ := keyword_eq_some_iff.1 hx
  -- both the keyword and the token go on as far as a word does
  have htake := (takeWhile_append_stop ((Steady.isWordChar.all hstart).trans hword) hstop).1
  rw [← heq, unwords, (takeWhile_append_spaced rfl htoken tokens).1] at htake
  rw [← htake] at hstart
  exact Bool.false_ne_true (h.symm.trans (Text.eqFold_iff.2 hstart.symm))

theorem keyword_reserved : ∀ word ∈ reservedWords, word.toList.all isWordChar = true ∧
    (word.toList.map Char.toLower).map Char.toUpper = word.toList := by
  decide +kernel

/-! ## Names -/

theorem isPlainName_iff : isPlainName name = true ↔ ∃ c rest,
    name.toList = c :: rest ∧ isWordStart c = true ∧ rest.all isWordChar = true ∧
      (c :: rest).all isSmall = true ∧ isReserved name = false := by
  rw [isPlainName]
  split
  · next hnil => simp [hnil]
  · next c rest hcons =>
    rw [hcons, Bool.and_eq_true, Bool.and_eq_true, Bool.and_eq_true, Bool.not_eq_true']
    constructor
    · rintro ⟨⟨⟨hstart, hrest⟩, hsmall⟩, hfree⟩
      exact ⟨c, rest, rfl, hstart, hrest, hsmall, hfree⟩
    · rintro ⟨_, _, hcons', hstart, hrest, hsmall, hfree⟩
      cases hcons'
      exact ⟨⟨⟨hstart, hrest⟩, hsmall⟩, hfree⟩

theorem all_isWordChar_of_isPlainName (h : isPlainName name = true) :
    name.toList.all isWordChar = true := by
  obtain ⟨c, rest, hcons, hstart, hrest, -⟩ := isPlainName_iff.1 h
  rw [hcons, all_cons, isWordChar_of_isWordStart hstart, hrest]
  rfl

theorem identifier_name (h : isPlainName name = true) (tokens : List String) :
    identifier false (unwords (name :: tokens)) =
      some ⟨(name, false), name.toList, spaced tokens⟩ := by
  have hword : Lexeme.word (unwords (name :: tokens)) =
      some ⟨name, name.toList, spaced tokens⟩ := by
    obtain ⟨c, rest, hcons, hstart, -⟩ := isPlainName_iff.1 h
    have hhead : (unwords (name :: tokens)).head?.any isWordStart = true := by
      rw [unwords, hcons]
      exact hstart
    have hall := all_isWordChar_of_isPlainName h
    obtain ⟨htake, hdrop⟩ := takeWhile_append_spaced rfl hall tokens
    rw [Lexeme.word, if_pos hhead, unwords, htake, hdrop]
    dsimp only
    rw [String.ofList_toList]
  obtain ⟨c, rest, hcons, hstart, -, hsmall, hfree⟩ := isPlainName_iff.1 h
  have hquoted : quotedIdentifier (unwords (name :: tokens)) = none := by
    have hc : (c == '"') = false := by
      rw [beq_eq_false_iff_ne]
      rintro rfl
      exact absurd hstart (by decide)
    rw [unwords, hcons, cons_append, quotedIdentifier, hc]
    rfl
  have hlower : Text.lower name = name := Text.lower_eq_self (by rw [hcons]; exact hsmall)
  rw [identifier, hquoted, unquotedIdentifier, hword]
  simp only [hfree, Bool.false_and, Bool.false_eq_true, if_false, Option.map_some, Lexeme.map,
    hlower]

/-- A reserved word is no name that is not reserved. -/
theorem eqFold_eq_false_of_isPlainName (h : isPlainName name = true)
    (hword : word ∈ reservedWords) : Text.eqFold word name = false := by
  obtain ⟨c, rest, hcons, -, -, hsmall, hfree⟩ := isPlainName_iff.1 h
  rw [← Bool.not_eq_true, Text.eqFold_iff]
  intro hfold
  have hname : name.toList.map Char.toLower = name.toList := by
    have hsame : ∀ d ∈ name.toList, d.toLower = id d := by
      intro d hd
      have hd : isSmall d = true := all_eq_true.1 hsmall d (hcons ▸ hd)
      rw [isSmall, Bool.and_eq_true, Bool.not_eq_true'] at hd
      exact Text.toLower_eq_self hd.2
    rw [map_congr_left hsame, map_id]
  have hupper : name.map Char.toUpper = word := by
    rw [← String.toList_inj, String.toList_map, ← hname]
    exact (congrArg (List.map Char.toUpper) hfold.symm).trans (keyword_reserved word hword).2
  rw [isReserved, hupper, contains_eq_mem, decide_eq_false_iff_not] at hfree
  exact hfree hword

/-! ## Numbers -/

theorem exists_isDigit_of_isNumeral (h : isNumeral digits = true) :
    ∃ c rest, digits.toList = c :: rest ∧ c.isDigit = true := by
  rw [isNumeral, Bool.and_eq_true, Bool.not_eq_true'] at h
  obtain ⟨hne, hall⟩ := h
  cases hcons : digits.toList with
  | nil => rw [hcons] at hne; cases hne
  | cons c rest =>
    rw [hcons, all_cons, Bool.and_eq_true] at hall
    exact ⟨c, rest, rfl, hall.1⟩

theorem number_numeral (h : isNumeral digits = true) (tokens : List String) :
    number (unwords (digits :: tokens)) = some ⟨digits, digits.toList, spaced tokens⟩ := by
  obtain ⟨c, rest, hcons, hdigit⟩ := exists_isDigit_of_isNumeral h
  have hall : digits.toList.all Char.isDigit = true := (Bool.and_eq_true_iff.1 h).2
  have hany : digits.toList.any Char.isDigit = true := by
    rw [hcons, any_cons, hdigit, Bool.true_or]
  have hfraction : fraction (spaced tokens) = [] := by
    rcases spaced_eq_nil_or_cons tokens with hnil | ⟨more, hmore⟩
    · rw [hnil]; rfl
    · rw [hmore]; simp [fraction]
  have hexponent : exponent (spaced tokens) = [] := by
    rcases spaced_eq_nil_or_cons tokens with hnil | ⟨more, hmore⟩
    · rw [hnil]; rfl
    · rw [hmore]; rfl
  rw [number, unwords, (takeWhile_append_spaced rfl hall tokens).1, drop_left, hfraction,
    append_nil, drop_left, hexponent, append_nil, drop_left, hany,
    head?_spaced _ rfl, String.ofList_toList]
  rfl

/-! ## Operators -/

theorem operator_symbol (h : isSymbol op = true) (tokens : List String) :
    operator (unwords (op :: tokens)) = some ⟨op, op.toList, spaced tokens⟩ := by
  rw [isSymbol, Option.any_eq_true] at h
  obtain ⟨x, hx, hop⟩ := h
  obtain rfl := eq_of_beq hop
  have hagain := operator_append hx (head?_spaced _ rfl tokens)
  have htext : x.text = x.value.toList := by
    rw [(of_operator hx).2.2.1, symbol]
    split
    · next hne =>
      -- the operator would be `<>`, and its text would start with `!`
      have hsplit := splits_operator _ _ hx
      rw [(of_operator hx).2.2.1, symbol, if_pos hne,
        show x.text = "!=".toList by rw [← eq_of_beq hne, String.toList_ofList]] at hsplit
      cases hsplit
    · rw [String.toList_ofList]
  rw [unwords, ← htext, hagain]

example : ["=", "<>", "<", ">", "<=", ">=", "+", "-", "*", "/", "%", "^", "||", "->>"].all isSymbol =
    true := by
  decide +kernel

theorem exists_of_isSymbol (h : isSymbol op = true) : ∃ c rest,
    op.toList = c :: rest ∧ isOperatorChar c = true ∧ startsComment (c :: rest) = false := by
  obtain ⟨htext, hne, -⟩ := of_operator (operator_symbol h [])
  obtain ⟨-, hchars, hcomment⟩ := isPrefix_operatorRun_iff.1 (htext ▸ trimmed_isPrefix _)
  have hstart := hcomment 0 (length_pos_iff.2 hne)
  obtain ⟨c, rest, hcons⟩ : ∃ c rest, op.toList = c :: rest := exists_cons_of_ne_nil hne
  rw [hcons, all_cons, Bool.and_eq_true] at hchars
  rw [drop_zero, unwords, spaced, append_nil, hcons] at hstart
  exact ⟨c, rest, hcons, hchars.1, hstart⟩

end Lexeme

end SqlTyping
