import SqlTyping.Proofs.Spelling.Scanners

/-!
# Brackets and parameters of a text

The lexemes of a text that matter for how it nests and what it binds: the brackets that open and
close, and the parameters. What stands in strings, quoted identifiers and comments is none of them.
Each scanner of the grammar moves on by whole lexemes, so it leaves out no bracket and no parameter.
It depends on the place whether `e'` starts a string with escapes or is a name with a string after
it; where no backslash stands before a quote, both end at the same place (`Lexeme.Plain`).
-/

namespace SqlTyping

open Lexeme List

variable {cs rest more : List Char} {c : Char} {m : Mark} {x : Lexeme LexemeKind}

inductive TokenKind where
  | opening
  | closing
  | param
deriving DecidableEq

/-- A bracket or a parameter, and where it starts. -/
structure Token where
  kind : TokenKind
  offset : Nat
deriving DecidableEq

namespace Lexeme

def isOpening (c : Char) : Bool := c == '(' || c == '['

def isClosing (c : Char) : Bool := c == ')' || c == ']'

def bracketKind? (c : Char) : Option TokenKind :=
  if isOpening c then some .opening else if isClosing c then some .closing else none

def tokenKind? (x : Lexeme LexemeKind) : Option TokenKind :=
  match x.value with
  | .param => some .param
  | .mark => x.text.head?.bind bracketKind?
  | .string | .quoted | .number | .word => none

/-- Wherever `e'` stands, escapes do not change where a string that starts there ends. -/
def Plain (cs : List Char) : Prop :=
  ∀ e rest, (e == 'e' || e == 'E') = true → e :: '\'' :: rest <:+ cs →
    (quoted '\'' true rest).map (fun x => (x.text, x.rest)) =
      (quoted '\'' false rest).map fun x => (x.text, x.rest)

theorem Plain.suffix (h : Plain cs) (hs : rest <:+ cs) : Plain rest :=
  fun e after he hpart => h e after he (hpart.trans hs)

theorem Plain.tail (h : Plain (c :: cs)) : Plain cs := h.suffix (suffix_cons c cs)

end Lexeme

/-! ## The tokens after a place -/

namespace Mark

/-- The place after a lexeme. -/
def after {α : Type} (m : Mark) (x : Lexeme α) : Mark := ⟨x.rest, m.offset + x.size⟩

/-- The tokens from the mark on, if the fuel lasts. -/
def tokensWithin : (fuel : List Char) → Mark → List Token
  | [], _ => []
  | _ :: fuel, m =>
    let m := m.skipTrivia
    match first? m.rest with
    | none => []
    | some x =>
      let rest := tokensWithin fuel (m.after x)
      match x.tokenKind? with
      | some kind => ⟨kind, m.offset⟩ :: rest
      | none => rest

/-- The tokens from the mark on. Each lexeme has a character of its own. -/
def tokens (m : Mark) : List Token := tokensWithin m.rest m

theorem startsTrivia_skipTrivia (m : Mark) : startsTrivia m.skipTrivia.rest = false :=
  startsTrivia_skipFrom _ _ _

theorem skipTrivia_skipTrivia (m : Mark) : m.skipTrivia.skipTrivia = m.skipTrivia :=
  skipTrivia_eq_self m.startsTrivia_skipTrivia

theorem length_after_lt (hx : first? m.skipTrivia.rest = some x) :
    x.rest.length < m.rest.length := by
  have hle := m.length_skipTrivia_le
  have hpos := length_pos_iff.2 (proper_first? _ x hx)
  rw [splits_first? _ x hx, length_append] at hle
  omega

/-- Any fuel that lasts gives the same tokens. -/
theorem tokensWithin_eq {fuel : List Char} (hf : m.rest.length ≤ fuel.length)
    (hm : m.rest.length ≤ more.length) : tokensWithin fuel m = tokensWithin more m := by
  have hend : ∀ (fuel : List Char) (m : Mark), m.rest = [] → tokensWithin fuel m = [] := by
    intro fuel m hm
    cases fuel with
    | nil => rfl
    | cons _ fuel =>
      have hskip : m.skipTrivia.rest = [] := by
        rw [rest_skipTrivia, hm]
        rfl
      rw [tokensWithin]
      simp only [hskip]
      rfl
  induction fuel generalizing more m with
  | nil =>
    have hnil : m.rest = [] := length_eq_zero_iff.1 (Nat.le_zero.1 hf)
    rw [hend _ _ hnil, hend _ _ hnil]
  | cons c fuel ih =>
    cases more with
    | nil =>
      have hnil : m.rest = [] := length_eq_zero_iff.1 (Nat.le_zero.1 hm)
      rw [hend _ _ hnil, hend _ _ hnil]
    | cons d more =>
      rw [tokensWithin, tokensWithin]
      cases hx : first? m.skipTrivia.rest with
      | none => rfl
      | some x =>
        have hlt := length_after_lt hx
        rw [length_cons] at hf hm
        have hnext : tokensWithin fuel (m.skipTrivia.after x) =
            tokensWithin more (m.skipTrivia.after x) :=
          ih (show x.rest.length ≤ _ by omega) (show x.rest.length ≤ _ by omega)
        simp only [hnext]

@[simp] theorem tokens_skipTrivia (m : Mark) : m.skipTrivia.tokens = m.tokens := by
  have hle := m.length_skipTrivia_le
  rw [tokens, tokens, tokensWithin_eq (Nat.le_refl _) hle]
  cases m.rest with
  | nil => rfl
  | cons c fuel => rw [tokensWithin, tokensWithin, skipTrivia_skipTrivia]

theorem tokens_of_end (h : m.skipTrivia.rest = []) : m.tokens = [] := by
  rw [← tokens_skipTrivia, tokens, h]
  rfl

/-- The first lexeme and what comes after it. -/
theorem tokens_lexeme (hx : first? m.skipTrivia.rest = some x) :
    m.tokens = (x.tokenKind?.map (Token.mk · m.skipTrivia.offset)).toList ++
      (m.skipTrivia.after x).tokens := by
  have hlt := length_after_lt hx
  rw [tokens]
  cases hrest : m.rest with
  | nil => rw [hrest] at hlt; cases hlt
  | cons c fuel =>
    rw [hrest, length_cons] at hlt
    have hnext : tokensWithin fuel (m.skipTrivia.after x) = (m.skipTrivia.after x).tokens :=
      tokensWithin_eq (show x.rest.length ≤ _ by omega) (Nat.le_refl _)
    rw [tokensWithin]
    simp only [hx, hnext]
    cases x.tokenKind? with
    | none => rfl
    | some kind => rfl

end Mark

/-! ## Scanners that pass over no token -/

namespace Lexeme

variable {α β : Type}

/-- What the scanner reads holds neither brackets nor parameters. -/
def Silent (scan : Scanner α) : Prop :=
  ∀ (m : Mark) x, startsTrivia m.rest = false → Plain m.rest → scan m.rest = some x →
    m.tokens = (m.after x).tokens

theorem tokens_first (htrivia : startsTrivia m.rest = false) (hx : first? m.rest = some x) :
    m.tokens = (x.tokenKind?.map (Token.mk · m.offset)).toList ++ (m.after x).tokens := by
  have h := @Mark.tokens_lexeme m x
  rw [skipTrivia_eq_self htrivia] at h
  exact h hx

/-- A lexeme of a kind that is no token. -/
theorem silent_of_first {scan : Scanner α} (kind : LexemeKind) (hkind : kind ≠ .param ∧ kind ≠ .mark)
    (h : ∀ {cs y}, scan cs = some y → first? cs = some (y.map fun _ => kind)) : Silent scan := by
  intro m x htrivia _ hx
  rw [tokens_first htrivia (h hx)]
  have hnone : (x.map fun _ => kind).tokenKind? = none := by
    cases kind with
    | param => exact absurd rfl hkind.1
    | mark => exact absurd rfl hkind.2
    | _ => rfl
  rw [hnone]
  rfl

theorem silent_number : Silent number := silent_of_first .number (by decide) first?_number

theorem tokens_param {x : Lexeme Lexeme.Param} (htrivia : startsTrivia m.rest = false)
    (hx : param m.rest = some x) : m.tokens = ⟨.param, m.offset⟩ :: (m.after x).tokens :=
  tokens_first htrivia (first?_param hx)

theorem silent_string : Silent string := silent_of_first .string (by decide) first?_string

theorem silent_quotedIdentifier : Silent quotedIdentifier :=
  silent_of_first .quoted (by decide) first?_quoted

/-- Where no backslash stands before a quote, escapes do not change where a string ends. -/
theorem quoted_extent (h : ¬['\\', '\''] <:+: cs) :
    (quoted '\'' true cs).map (fun x => (x.text, x.rest)) =
      (quoted '\'' false cs).map fun x => (x.text, x.rest) := by
  have hafter : ∀ {f g : List Char → List Char} (as bs : List Char),
      (quoted '\'' true bs).map (fun x => (x.text, x.rest)) =
        (quoted '\'' false bs).map (fun x => (x.text, x.rest)) →
      ((quoted '\'' true bs).map fun x => (x.map f).after as).map (fun x => (x.text, x.rest)) =
        ((quoted '\'' false bs).map fun x => (x.map g).after as).map fun x => (x.text, x.rest) := by
    intro f g as bs hbs
    cases ht : quoted '\'' true bs with
    | none =>
      cases hp : quoted '\'' false bs with
      | none => rfl
      | some y => rw [ht, hp] at hbs; cases hbs
    | some x =>
      cases hp : quoted '\'' false bs with
      | none => rw [ht, hp] at hbs; cases hbs
      | some y =>
        rw [ht, hp] at hbs
        obtain ⟨htext, hrest⟩ : x.text = y.text ∧ x.rest = y.rest := by simpa using hbs
        simp [Lexeme.after, Lexeme.map, htext, hrest]
  have unescaped : ∀ {c : Char} {cs : List Char}, ¬['\\', '\''] <:+: c :: cs →
      ¬['\\', '\''] <:+: cs := fun h hpart => h (hpart.trans (suffix_cons _ _).isInfix)
  fun_induction quoted '\'' true cs with
  | case1 => rfl
  | case2 c hc => rw [quoted, if_pos hc]
  | case3 c hc d rest hd ih =>
    rw [quoted, if_pos hc]
    rw [if_pos hd]
    exact hafter _ _ (ih (unescaped (unescaped h)))
  | case4 c hc d rest hd =>
    rw [quoted, if_pos hc]
    rw [if_neg hd]
  | case5 c hc he =>
    rw [quoted.eq_def _ false]
    dsimp only
    rw [if_neg hc, if_neg (by simp), quoted]
    rfl
  | case6 c hc he d rest ih =>
    have hd : (d == '\'') = false := by
      rw [beq_eq_false_iff_ne]
      rintro rfl
      obtain rfl : c = '\\' := by simpa using he
      exact h ⟨[], rest, rfl⟩
    have hplain : quoted '\'' false (c :: d :: rest) =
        (quoted '\'' false rest).map fun x => (x.map ([c, d] ++ ·)).after [c, d] := by
      rw [quoted.eq_def _ false]
      dsimp only
      rw [if_neg hc, if_neg (by simp), quoted.eq_def _ false]
      dsimp only
      rw [if_neg (by simp [hd]), if_neg (by simp), Option.map_map]
      rfl
    rw [hplain]
    exact hafter _ _ (ih (unescaped (unescaped h)))
  | case7 c rest hc he ih =>
    rw [quoted.eq_def _ false]
    dsimp only
    rw [if_neg hc, if_neg (by simp)]
    exact hafter _ _ (ih (unescaped h))

theorem plain_of_unescaped (h : ¬['\\', '\''] <:+: cs) : Plain cs := by
  intro e rest _ hs
  have hrest : rest <:+ cs := ((suffix_cons _ _).trans (suffix_cons _ _)).trans hs
  exact quoted_extent fun hpart => h (hpart.trans hrest.isInfix)

theorem silent_word : Silent word := by
  intro m x htrivia hplain hx
  cases hs : string m.rest with
  | none =>
    rw [tokens_first htrivia (first?_word hx hs)]
    rfl
  | some y =>
    -- the word is the `e` of a string, which ends where a string without escapes would
    obtain ⟨rest, offset⟩ := m
    rcases string_cases hs with ⟨rest, z, rfl, -, -⟩ | ⟨e, rest, z, rfl, he, hz, rfl⟩
    · cases hx
    · rw [word_eq_letter he] at hx
      cases hx
      have hextent := hplain e rest he (suffix_refl _)
      rw [hz] at hextent
      obtain ⟨w, hw, heq⟩ := Option.map_eq_some_iff.1 hextent.symm
      obtain ⟨htext, hrest⟩ : w.text = z.text ∧ w.rest = z.rest := by simpa using heq
      have hquote : string ('\'' :: rest) = some ((w.map String.ofList).after ['\'']) := by
        rw [string_quote, hw]
        rfl
      have hnext : (Mark.mk ('\'' :: rest) (offset + Text.byteSize [e])).tokens =
          (Mark.mk w.rest (offset + Text.byteSize [e] + Text.byteSize ('\'' :: w.text))).tokens :=
        silent_string ⟨'\'' :: rest, _⟩ _ rfl hplain.tail hquote
      have hsize : Text.byteSize (e :: '\'' :: z.text) =
          Text.byteSize [e] + Text.byteSize ('\'' :: z.text) := Text.byteSize_append [e] _
      rw [tokens_first htrivia (first?_string hs)]
      show (Mark.mk z.rest (offset + Text.byteSize (e :: '\'' :: z.text))).tokens =
        (Mark.mk ('\'' :: rest) (offset + Text.byteSize [e])).tokens
      rw [hnext, hsize, htext, hrest, Nat.add_assoc]

theorem silent_keyword {name : String} (hname : isWord name = true) : Silent (keyword name) := by
  intro m x htrivia hplain hx
  obtain ⟨y, hy, -, rfl⟩ := (keyword_iff_word hname).1 hx
  exact silent_word m y htrivia hplain hy

theorem silent_identifier (reserved : Bool) : Silent (identifier reserved) := by
  intro m x htrivia hplain hx
  rcases identifier_cases hx with ⟨y, hy, rfl⟩ | ⟨y, hy, rfl⟩
  · exact silent_quotedIdentifier m y htrivia hplain hy
  · exact silent_word m y htrivia hplain hy

/-! ## Marks -/

variable {m : Mark} {mark : String} {c : Char} {x : Lexeme Unit}

/-- A mark of one character, which may be a bracket. -/
theorem tokens_punctuation (hmark : mark.toList = [c])
    (hfirst : ∀ cs, endsPunctuation mark cs = true → first? (c :: cs) = some ⟨.mark, [c], cs⟩)
    (htrivia : startsTrivia m.rest = false) (hx : punctuation mark m.rest = some x) :
    m.tokens = ((bracketKind? c).map (Token.mk · m.offset)).toList ++ (m.after x).tokens := by
  cases hrest : m.rest with
  | nil => rw [hrest, punctuation, hmark] at hx; cases hx
  | cons d rest =>
    rw [hrest, punctuation_cons hmark] at hx
    split at hx
    · next hd =>
      rw [Bool.and_eq_true] at hd
      obtain rfl := eq_of_beq hd.1
      cases hx
      exact tokens_first htrivia (hrest ▸ hfirst rest hd.2)
    · cases hx

theorem tokens_bracket (hmark : mark.toList = [c]) (hc : isMark c = true)
    (htrivia : startsTrivia m.rest = false) (hx : punctuation mark m.rest = some x) :
    m.tokens = ((bracketKind? c).map (Token.mk · m.offset)).toList ++ (m.after x).tokens :=
  tokens_punctuation hmark (fun cs _ => first?_mark hc cs) htrivia hx

theorem silent_punctuation (hmark : mark.toList = [c]) (hc : isMark c = true)
    (hkind : bracketKind? c = none) : Silent (punctuation mark) := by
  intro m x htrivia _ hx
  rw [tokens_bracket hmark hc htrivia hx, hkind]
  rfl

theorem silent_dot : Silent (punctuation ".") := by
  intro m x htrivia _ hx
  exact tokens_punctuation (c := '.') rfl
    (fun cs hends => first?_dot (by simpa [endsPunctuation] using hends)) htrivia hx

theorem silent_colons : Silent (punctuation "::") := by
  intro m x htrivia _ hx
  obtain ⟨cs, offset⟩ := m
  obtain ⟨rest, rfl, rfl⟩ := punctuation_cases hx
  have hfirst := tokens_first (m := ⟨':' :: ':' :: rest, offset⟩) rfl (first?_mark rfl _)
  have hsecond := tokens_first (m := ⟨':' :: rest, offset + 1⟩) rfl (first?_mark rfl _)
  exact hfirst.trans hsecond

theorem startsTrivia_of_operatorRun (h : operatorRun (c :: cs) = c :: rest) :
    isOperatorChar c = true ∧ startsTrivia (c :: cs) = false ∧ operatorRun cs = rest := by
  have htrivia : startsTrivia (c :: cs) = false := Bool.eq_false_iff.2 fun htrivia => by
    rw [operatorRun_of_startsTrivia htrivia] at h
    cases h
  rw [operatorRun] at h
  split at h
  · next hc =>
    rw [Bool.and_eq_true] at hc
    exact ⟨hc.1, htrivia, (List.cons.inj h).2⟩
  · cases h

theorem bracketKind?_of_isOperatorChar (h : isOperatorChar c = true) : bracketKind? c = none := by
  have hall : "+-*/<>=~!@#%^&|`?".toList.all (fun c => (bracketKind? c).isNone) = true := rfl
  rw [isOperatorChar, contains_eq_mem, decide_eq_true_iff] at h
  exact Option.isNone_iff_eq_none.1 (all_eq_true.1 hall c h)

/-- Any part of a run of operator characters. -/
theorem tokens_operatorRun (as rest : List Char) (offset : Nat)
    (h : operatorRun (as ++ rest) = as ++ more) :
    (Mark.mk (as ++ rest) offset).tokens = (Mark.mk rest (offset + Text.byteSize as)).tokens := by
  induction as generalizing offset with
  | nil => rfl
  | cons c as ih =>
    obtain ⟨hc, htrivia, hrun⟩ := startsTrivia_of_operatorRun h
    have hfirst := tokens_first (m := ⟨c :: (as ++ rest), offset⟩) htrivia
      (first?_mark (isMark_of_isOperatorChar hc) _)
    have hnone : tokenKind? ⟨.mark, [c], as ++ rest⟩ = none := bracketKind?_of_isOperatorChar hc
    have hsize : Text.byteSize (c :: as) = Text.byteSize [c] + Text.byteSize as :=
      Text.byteSize_append [c] as
    rw [cons_append, hfirst, hnone, hsize, ← Nat.add_assoc]
    exact ih _ hrun

theorem silent_operator : Silent operator := by
  intro m x htrivia _ hx
  obtain ⟨cs, offset⟩ := m
  have hsplit : cs = x.text ++ x.rest := splits_operator _ x hx
  obtain ⟨more, hmore⟩ : x.text <+: operatorRun cs := (of_operator hx).1 ▸ trimmed_isPrefix _
  rw [hsplit] at hmore
  have htokens := tokens_operatorRun x.text x.rest offset hmore.symm
  rw [← hsplit] at htokens
  exact htokens

end Lexeme

end SqlTyping
