import SqlTyping.Proofs.Spelling.Extents

/-!
# Lexemes of a text

A text falls into lexemes, found from left to right, with trivia between some of them. A text is
respelled by writing the letters of words in other case and one space for each stretch of trivia
(`Respelled`). What stands before the next trivia is then the same up to case, which is all that
most scanners look at. Only a quote that is never closed makes a scanner look further; in a
respelled text it is not closed either (`Respelled.unclosed`).
-/

namespace SqlTyping

open List

variable {text : List Char} {escapes s : Bool}

/-- What a lexeme is. -/
inductive LexemeKind where
  | string
  | quoted
  | param
  | number
  | word
  | mark
deriving DecidableEq

namespace Lexeme

/-- The first lexeme of a text that does not start with trivia: a string, a quoted identifier, a
parameter, a number, a word, or else a single character. -/
def first? (cs : List Char) : Option (Lexeme LexemeKind) :=
  ((string cs).map (map fun _ => LexemeKind.string))
    <|> ((quotedIdentifier cs).map (map fun _ => LexemeKind.quoted))
    <|> ((param cs).map (map fun _ => LexemeKind.param))
    <|> ((number cs).map (map fun _ => LexemeKind.number))
    <|> ((word cs).map (map fun _ => LexemeKind.word))
    <|> match cs with
      | [] => none
      | c :: rest => some ⟨.mark, [c], rest⟩

/-- Is the lexeme written so, too? The letters of a word may be of either case. -/
def Spelled (x : Lexeme LexemeKind) (text : List Char) : Prop :=
  if x.value = .word then text.map Char.toLower = x.text.map Char.toLower else text = x.text

end Lexeme

open Lexeme

/-- A space where there is trivia. -/
def gap (cs : List Char) : List Char := if startsTrivia cs then [' '] else []

/-- The second text has the lexemes of the first, up to the case of words, with one space for each
stretch of trivia. -/
inductive Respelled : List Char → List Char → Prop
  | done {cs : List Char} (h : skip cs = []) : Respelled cs (gap cs)
  | lexeme {cs rest text : List Char} {x : Lexeme LexemeKind} (hx : first? (skip cs) = some x)
      (ht : x.Spelled text) (hr : Respelled x.rest rest) : Respelled cs (gap cs ++ (text ++ rest))

/-! ## The first lexeme -/

namespace Lexeme

variable {cs : List Char} {x : Lexeme LexemeKind}

/-- What the first lexeme is, by its kind. -/
theorem first?_cases (h : first? cs = some x) :
    (∃ y, string cs = some y ∧ x = y.map fun _ => .string) ∨
    (string cs = none ∧ ∃ y, quotedIdentifier cs = some y ∧ x = y.map fun _ => .quoted) ∨
    (string cs = none ∧ ∃ y, param cs = some y ∧ x = y.map fun _ => .param) ∨
    (string cs = none ∧ ∃ y, number cs = some y ∧ x = y.map fun _ => .number) ∨
    (string cs = none ∧ ∃ y, word cs = some y ∧ x = y.map fun _ => .word) ∨
    (string cs = none ∧ quotedIdentifier cs = none ∧ param cs = none ∧ number cs = none ∧
      word cs = none ∧ ∃ c, cs = c :: x.rest ∧ x = ⟨.mark, [c], x.rest⟩) := by
  rw [first?.eq_def] at h
  cases hs : string cs with
  | some y => exact .inl ⟨y, rfl, (Option.some.inj (by rwa [hs] at h)).symm⟩
  | none =>
    rw [hs] at h
    cases hq : quotedIdentifier cs with
    | some y => exact .inr (.inl ⟨rfl, y, rfl, (Option.some.inj (by rwa [hq] at h)).symm⟩)
    | none =>
      rw [hq] at h
      cases hp : param cs with
      | some y => exact .inr (.inr (.inl ⟨rfl, y, rfl, (Option.some.inj (by rwa [hp] at h)).symm⟩))
      | none =>
        rw [hp] at h
        cases hn : number cs with
        | some y =>
          exact .inr (.inr (.inr (.inl ⟨rfl, y, rfl, (Option.some.inj (by rwa [hn] at h)).symm⟩)))
        | none =>
          rw [hn] at h
          cases hw : word cs with
          | some y =>
            exact .inr (.inr (.inr (.inr (.inl
              ⟨rfl, y, rfl, (Option.some.inj (by rwa [hw] at h)).symm⟩))))
          | none =>
            rw [hw] at h
            cases cs with
            | nil => cases h
            | cons c rest =>
              cases h
              exact .inr (.inr (.inr (.inr (.inr ⟨rfl, rfl, rfl, rfl, rfl, c, rfl, rfl⟩))))

theorem splits_proper_first? (hx : first? cs = some x) : cs = x.text ++ x.rest ∧ x.text ≠ [] := by
  rcases first?_cases hx with ⟨y, hy, rfl⟩ | ⟨-, y, hy, rfl⟩ | ⟨-, y, hy, rfl⟩ | ⟨-, y, hy, rfl⟩ |
    ⟨-, y, hy, rfl⟩ | ⟨-, -, -, -, -, c, hc, heq⟩
  · exact ⟨splits_string cs y hy, proper_string cs y hy⟩
  · exact ⟨splits_quotedIdentifier cs y hy, proper_quotedIdentifier cs y hy⟩
  · exact ⟨splits_param cs y hy, proper_param cs y hy⟩
  · exact ⟨splits_number cs y hy, proper_number cs y hy⟩
  · exact ⟨splits_word cs y hy, proper_word cs y hy⟩
  · rw [heq]; exact ⟨hc, cons_ne_nil _ _⟩

theorem splits_first? : Scanner.Splits first? := fun _ _ hx => (splits_proper_first? hx).1

theorem proper_first? : Scanner.Proper first? := fun _ _ hx => (splits_proper_first? hx).2

theorem Spelled.fold (h : x.Spelled text) : x.text.map Char.toLower = text.map Char.toLower := by
  rw [Spelled] at h
  split at h
  · exact h.symm
  · rw [h]

theorem Spelled.length_eq (h : x.Spelled text) :
    x.text.length = text.length := by simpa using congrArg List.length h.fold

end Lexeme

theorem Lexeme.skip_space (cs : List Char) : skip (' ' :: cs) = skip cs := by
  show (Mark.skipFrom .between 0 (' ' :: cs)).rest = (Mark.skipFrom .between 0 cs).rest
  rw [Mark.skipFrom.eq_def]
  exact rest_skipFrom _ _ _ _

/-! ## Respelled texts -/

namespace Respelled

variable {cs ds : List Char}

theorem stops_gap (h : startsTrivia cs = true) (rest : List Char) :
    stops (gap cs ++ rest) = true ∧ startsComment (gap cs ++ rest) = false := by
  rw [gap, if_pos h]
  exact ⟨by simp [stops, startsTrivia, Text.isSpace], rfl⟩

theorem near (h : Respelled cs ds) : Near cs ds := by
  induction h with
  | @done cs h =>
    cases htrivia : startsTrivia cs with
    | true =>
      have hstops := stops_gap htrivia []
      rw [append_nil] at hstops
      exact .stop (by simp [stops, htrivia]) hstops.1 hstops.2
    | false =>
      rw [skip_eq_self htrivia] at h
      rw [h]
      exact .stop rfl rfl rfl
  | @lexeme cs rest text x hx ht hr ih =>
    cases htrivia : startsTrivia cs with
    | true =>
      have hstops := stops_gap htrivia (text ++ rest)
      exact .stop (by simp [stops, htrivia]) hstops.1 hstops.2
    | false =>
      rw [skip_eq_self htrivia] at hx
      rw [gap, if_neg (by simp [htrivia]), nil_append, splits_first? cs x hx]
      exact ih.append ht.fold

/-- What comes after the trivia is respelled, too. -/
theorem skip (h : Respelled cs ds) : Respelled (skip cs) (skip ds) := by
  cases h with
  | done h =>
    have hgap : Lexeme.skip (gap cs) = [] := by
      rw [gap]
      split <;> rfl
    rw [h, hgap]
    exact .done rfl
  | @lexeme _ rest text x hx ht hr =>
    have hinner : Respelled (Lexeme.skip cs) (text ++ rest) := by
      have h := @Respelled.lexeme (Lexeme.skip cs) _ _ _ (by rw [skip_skip]; exact hx) ht hr
      rwa [gap, startsTrivia_skip] at h
    have hne : Lexeme.skip cs ≠ [] := by
      rw [splits_first? _ x hx]
      exact append_ne_nil_of_left_ne_nil (proper_first? _ x hx) _
    have htrivia := hinner.near.startsTrivia_eq_false hne (startsTrivia_skip cs)
    have hskip : Lexeme.skip (gap cs ++ (text ++ rest)) = text ++ rest := by
      rw [gap]
      split
      · exact (skip_space _).trans (skip_eq_self htrivia)
      · exact skip_eq_self htrivia
    rwa [hskip]

/-- Without trivia at the start, both texts start with the same lexeme. -/
theorem cases (h : Respelled cs ds) (htrivia : startsTrivia cs = false) :
    (cs = [] ∧ ds = []) ∨ ∃ x text rest, first? cs = some x ∧ x.Spelled text ∧
      ds = text ++ rest ∧ Respelled x.rest rest := by
  cases h with
  | done h =>
    rw [skip_eq_self htrivia] at h
    subst h
    exact .inl ⟨rfl, rfl⟩
  | @lexeme _ rest text x hx ht hr =>
    rw [skip_eq_self htrivia] at hx
    exact .inr ⟨x, text, rest, hx, ht, by rw [gap, htrivia]; rfl, hr⟩

end Respelled

/-! ## Quoted text -/

namespace Lexeme

variable {quote : Char} {cs : List Char}

/-- Quoted text is closed by a quote that no other one follows. -/
theorem head?_rest_quoted : ∀ x, quoted quote escapes cs = some x → x.rest.head? ≠ some quote := by
  fun_induction quoted quote escapes cs with
  | case1 => intro x h; cases h
  | case2 => intro x h; cases h; simp
  | case3 c hc d rest hd ih =>
    intro x h
    obtain ⟨y, hy, rfl⟩ := Option.map_eq_some_iff.1 h
    exact ih y hy
  | case4 c hc d rest hd => intro x h; cases h; simpa using hd
  | case5 => intro x h; cases h
  | case6 c hc he d rest ih =>
    intro x h
    obtain ⟨y, hy, rfl⟩ := Option.map_eq_some_iff.1 h
    exact ih y hy
  | case7 c rest hc he ih =>
    intro x h
    obtain ⟨y, hy, rfl⟩ := Option.map_eq_some_iff.1 h
    exact ih y hy

/-- What was quoted is quoted in front of any text that does not start with a quote. -/
theorem quoted_append {rest : List Char} (hrest : rest.head? ≠ some quote) :
    ∀ x, quoted quote escapes cs = some x →
      quoted quote escapes (x.text ++ rest) = some ⟨x.value, x.text, rest⟩ := by
  have hclosed : ∀ c, (c == quote) = true →
      quoted quote escapes (c :: rest) = some ⟨[], [c], rest⟩ := by
    intro c hc
    rw [quoted.eq_def]
    dsimp only
    rw [if_pos hc]
    cases rest with
    | nil => rfl
    | cons d rest => exact if_neg fun hd => hrest (congrArg some (eq_of_beq hd))
  fun_induction quoted quote escapes cs with
  | case1 => intro x h; cases h
  | case2 c hc => intro x h; cases h; exact hclosed c hc
  | case3 c hc d cs hd ih =>
    intro x h
    obtain ⟨y, hy, rfl⟩ := Option.map_eq_some_iff.1 h
    show quoted quote escapes (c :: d :: (y.text ++ rest)) = _
    rw [quoted, if_pos hc]
    rw [if_pos hd, ih y hy]
    rfl
  | case4 c hc d cs hd => intro x h; cases h; exact hclosed c hc
  | case5 => intro x h; cases h
  | case6 c hc he d cs ih =>
    intro x h
    obtain ⟨y, hy, rfl⟩ := Option.map_eq_some_iff.1 h
    show quoted quote escapes (c :: d :: (y.text ++ rest)) = _
    rw [quoted, if_neg hc, if_pos he]
    rw [ih y hy]
    rfl
  | case7 c cs hc he ih =>
    intro x h
    obtain ⟨y, hy, rfl⟩ := Option.map_eq_some_iff.1 h
    show quoted quote escapes (c :: (y.text ++ rest)) = _
    rw [quoted.eq_def]
    dsimp only
    rw [if_neg hc, if_neg he, ih y hy]
    rfl

/-- Without backslashes there is nothing to escape. -/
theorem quoted_escapes (h : '\\' ∉ cs) : quoted quote true cs = quoted quote false cs := by
  have hbackslash : ∀ c : Char, (true && c == '\\') = true → c = '\\' := fun c hc => by
    simpa using hc
  fun_induction quoted quote true cs with
  | case1 => rfl
  | case2 c hc => rw [quoted, if_pos hc]
  | case3 c hc d rest hd ih =>
    rw [quoted, if_pos hc]
    rw [if_pos hd, ih fun hm => h (.tail _ (.tail _ hm))]
  | case4 c hc d rest hd =>
    rw [quoted, if_pos hc]
    rw [if_neg hd]
  | case5 c hc he => exact absurd (hbackslash c he ▸ mem_cons_self) h
  | case6 c hc he d rest ih => exact absurd (hbackslash c he ▸ mem_cons_self) h
  | case7 c rest hc he ih =>
    rw [quoted.eq_def quote false]
    dsimp only
    rw [if_neg hc, if_neg (by simp), ih fun hm => h (.tail _ hm)]

/-! ## Quotes that are not closed -/

/-- Where in quoted text a stretch of it leads: `some true` right after the first of two quotes,
`none` after the end. -/
def insideQuotes (quote : Char) : (afterQuote : Bool) → List Char → Option Bool
  | s, [] => some s
  | s, c :: cs =>
    if c == quote then insideQuotes quote (!s) cs
    else if s then none else insideQuotes quote false cs

theorem insideQuotes_append (s : Bool) (as bs : List Char) : insideQuotes quote s (as ++ bs) =
    (insideQuotes quote s as).bind (insideQuotes quote · bs) := by
  induction as generalizing s with
  | nil => rfl
  | cons a as ih =>
    rw [cons_append, insideQuotes, insideQuotes]
    split
    · exact ih _
    · split
      · rfl
      · exact ih _

/-- Quoted text is not found if it never ends. -/
theorem quoted_eq_none_iff :
    quoted quote false cs = none ↔ insideQuotes quote false cs = some false := by
  fun_induction quoted quote false cs with
  | case1 => simp [insideQuotes]
  | case2 c hc => simp [insideQuotes, hc]
  | case3 c hc d rest hd ih => simpa [insideQuotes, hc, hd] using ih
  | case4 c hc d rest hd => simp [insideQuotes, hc, hd]
  | case5 c hc he => simp at he
  | case6 c hc he d rest ih => simp at he
  | case7 c rest hc he ih => simpa [insideQuotes, hc] using ih

theorem insideQuotes_cons {c : Char} (hc : c ≠ quote)
    (h : insideQuotes quote s (c :: cs) = some false) :
    s = false ∧ insideQuotes quote false cs = some false := by
  rw [insideQuotes, if_neg (by simpa using hc)] at h
  cases s with
  | true => cases h
  | false => exact ⟨rfl, h⟩

/-- Trivia in quoted text without end does not lead to a place between two quotes. -/
theorem insideQuotes_skipFrom (hspace : Text.isSpace quote = false)
    (hquote : quote ≠ '-' ∧ quote ≠ '/' ∧ quote ≠ '*') (t : Trivia) (n : Nat) :
    ∀ s, (t = .between → s = false) → insideQuotes quote s cs = some false →
      insideQuotes quote false (Mark.skipFrom t n cs).rest = some false := by
  obtain ⟨hdash, hslash, hstar⟩ := hquote
  fun_induction Mark.skipFrom t n cs with
  | case1 => exact fun _ _ _ => rfl
  | case2 n rest ih =>
    intro s _ h
    have h := (insideQuotes_cons hdash.symm (insideQuotes_cons hdash.symm h).2).2
    exact ih false (fun _ => rfl) h
  | case3 n rest ih =>
    intro s _ h
    have h := (insideQuotes_cons hstar.symm (insideQuotes_cons hslash.symm h).2).2
    exact ih false (fun _ => rfl) h
  | case4 n c rest h₁ h₂ hc ih =>
    intro s _ h
    have hne : c ≠ quote := by rintro rfl; rw [hspace] at hc; cases hc
    exact ih false (fun _ => rfl) (insideQuotes_cons hne h).2
  | case5 n c rest h₁ h₂ hc =>
    intro s hs h
    rw [hs rfl] at h
    exact h
  | case6 n c rest ih =>
    intro s _ h
    by_cases hc : (c == '\n') = true
    · rw [if_pos hc] at ih ⊢
      have hne : c ≠ quote := by
        rw [eq_of_beq hc]
        rintro rfl
        cases hspace
      exact ih false (fun _ => rfl) (insideQuotes_cons hne h).2
    · rw [if_neg hc] at ih ⊢
      rw [insideQuotes] at h
      split at h
      · exact ih _ (by simp) h
      · split at h
        · cases h
        · exact ih _ (by simp) h
  | case7 outer n rest ih =>
    intro s _ h
    have h := (insideQuotes_cons hstar.symm (insideQuotes_cons hslash.symm h).2).2
    exact ih false (fun _ => rfl) h
  | case8 n rest ih =>
    intro s _ h
    have h := (insideQuotes_cons hslash.symm (insideQuotes_cons hstar.symm h).2).2
    exact ih false (fun _ => rfl) h
  | case9 outer n rest ih =>
    intro s _ h
    have h := (insideQuotes_cons hslash.symm (insideQuotes_cons hstar.symm h).2).2
    exact ih false (fun _ => rfl) h
  | case10 outer n c rest h₁ h₂ h₃ ih =>
    intro s _ h
    rw [insideQuotes] at h
    split at h
    · exact ih _ (by simp) h
    · split at h
      · cases h
      · exact ih _ (by simp) h

theorem insideQuotes_skip (hspace : Text.isSpace quote = false)
    (hquote : quote ≠ '-' ∧ quote ≠ '/' ∧ quote ≠ '*') (htrivia : startsTrivia cs = true)
    (h : insideQuotes quote s cs = some false) :
    s = false ∧ insideQuotes quote false (skip cs) = some false := by
  obtain ⟨hdash, hslash, hstar⟩ := hquote
  have hs : s = false := by
    cases cs with
    | nil => cases htrivia
    | cons c cs =>
      have hne : c ≠ quote := by
        intro hc
        rw [startsTrivia, Bool.or_eq_true] at htrivia
        rcases htrivia with hc' | hcomment
        · rw [← hc] at hspace
          exact Bool.false_ne_true (hspace.symm.trans hc')
        · obtain ⟨_, heq | heq⟩ := startsComment_iff.1 hcomment <;> cases heq
          · exact hdash hc.symm
          · exact hslash hc.symm
      exact (insideQuotes_cons hne h).1
  exact ⟨hs, insideQuotes_skipFrom hspace ⟨hdash, hslash, hstar⟩ _ _ s (fun _ => hs) h⟩

/-- A word leads from inside quoted text to inside it. -/
theorem insideQuotes_word (hword : isWordChar quote = false) {as : List Char} (hne : as ≠ [])
    (h : as.all isWordChar = true) : insideQuotes quote s as = if s then none else some false := by
  have hnot : ∀ c, isWordChar c = true → (c == quote) = false := by
    intro c hc
    rw [beq_eq_false_iff_ne]
    rintro rfl
    rw [hword] at hc
    cases hc
  have hinside : ∀ bs : List Char, bs.all isWordChar = true →
      insideQuotes quote false bs = some false := by
    intro bs
    induction bs with
    | nil => exact fun _ => rfl
    | cons b bs ih =>
      intro hbs
      rw [all_cons, Bool.and_eq_true] at hbs
      rw [insideQuotes, hnot b hbs.1]
      exact ih hbs.2
  cases as with
  | nil => exact absurd rfl hne
  | cons a as =>
    rw [all_cons, Bool.and_eq_true] at h
    rw [insideQuotes, hnot a h.1]
    cases s with
    | true => rfl
    | false => exact hinside as h.2

end Lexeme

/-- A quote that is not closed is not closed in the respelled text. -/
theorem Respelled.unclosed {quote : Char} (hspace : Text.isSpace quote = false)
    (hquote : quote ≠ '-' ∧ quote ≠ '/' ∧ quote ≠ '*') (hword : isWordChar quote = false)
    {cs ds : List Char} (h : Respelled cs ds) :
    ∀ s, insideQuotes quote s cs = some false → insideQuotes quote s ds = some false := by
  have hblank : (' ' == quote) = false := by
    rw [beq_eq_false_iff_ne]
    rintro rfl
    cases hspace
  have hgap : ∀ {cs rest : List Char} {s : Bool}, insideQuotes quote s cs = some false →
      (insideQuotes quote s (Lexeme.skip cs) = some false →
        insideQuotes quote s rest = some false) →
      insideQuotes quote s (gap cs ++ rest) = some false := by
    intro cs rest s hs hrest
    rw [gap]
    split
    · next htrivia =>
      obtain ⟨rfl, hskip⟩ := insideQuotes_skip hspace hquote htrivia hs
      show insideQuotes quote false (' ' :: rest) = some false
      rw [insideQuotes, hblank]
      exact hrest hskip
    · next htrivia =>
      exact hrest (by rwa [skip_eq_self (by simpa using htrivia)])
  induction h with
  | @done cs h =>
    intro s hs
    rw [← append_nil (gap cs)]
    exact hgap hs fun hskip => by rwa [h] at hskip
  | @lexeme cs rest text x hx ht hr ih =>
    intro s hs
    refine hgap hs fun hskip => ?_
    rw [splits_first? _ x hx, insideQuotes_append] at hskip
    rw [insideQuotes_append]
    have htext : insideQuotes quote s text = insideQuotes quote s x.text := by
      rw [Spelled] at ht
      split at ht
      · next hkind =>
        have hall : x.text.all isWordChar = true := by
          rcases first?_cases hx with ⟨y, hy, rfl⟩ | ⟨-, y, hy, rfl⟩ | ⟨-, y, hy, rfl⟩ |
            ⟨-, y, hy, rfl⟩ | ⟨-, y, hy, rfl⟩ | ⟨-, -, -, -, -, c, hc, heq⟩
          · cases hkind
          · cases hkind
          · cases hkind
          · cases hkind
          · rw [(word_cases hy).2]
            exact all_takeWhile
          · rw [heq] at hkind; cases hkind
        have hne := proper_first? _ x hx
        have hne' : text ≠ [] := by
          rintro rfl
          exact hne (map_eq_nil_iff.1 ht.symm)
        rw [insideQuotes_word hword hne hall,
          insideQuotes_word hword hne' (by rw [Steady.isWordChar.all ht]; exact hall)]
      · rw [ht]
    rw [htext]
    cases hstate : insideQuotes quote s x.text with
    | none => rw [hstate] at hskip; cases hskip
    | some s' => rw [hstate] at hskip; exact ih s' hskip

end SqlTyping
