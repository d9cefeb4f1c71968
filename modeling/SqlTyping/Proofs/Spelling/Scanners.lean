import SqlTyping.Proofs.Printing.Scanning
import SqlTyping.Proofs.Spelling.Lexemes

/-!
# Scanners on respelled texts

A scanner finds the same in a respelled text as in the text itself, up to the case of words, and
leaves a respelled rest.
-/

namespace SqlTyping

open Lexeme List

variable {α : Type} {V : α → α → Prop} {y : Lexeme String} {c : Char} {cs ds as rest bs : List Char}
  {x : Lexeme LexemeKind} {kind : LexemeKind} {scan : Scanner α} {p : Char → Bool} {name : String}
  {e : Char}

/-- Both scans fail, or what they find is related and what they leave is respelled. -/
inductive Matched (V : α → α → Prop) : Option (Lexeme α) → Option (Lexeme α) → Prop
  | none : Matched V none none
  | some {x y : Lexeme α} (hv : V x.value y.value) (hr : Respelled x.rest y.rest) :
      Matched V (some x) (some y)

/-- The scanner finds the same in respelled texts. -/
def Scanner.Matches (scan : Scanner α) (V : α → α → Prop) : Prop :=
  ∀ cs ds, Respelled cs ds → startsTrivia cs = false → '\\' ∉ cs → Matched V (scan cs) (scan ds)

/-! ## Which lexeme comes first -/

namespace Lexeme

variable {cs : List Char}

theorem first?_string (h : string cs = some y) : first? cs = some (y.map fun _ => .string) := by
  rw [first?.eq_def, h]
  rfl

theorem quotedIdentifier_eq_none (h : cs.head? ≠ some '"') : quotedIdentifier cs = none := by
  cases cs with
  | nil => rfl
  | cons c cs =>
    rw [quotedIdentifier, if_neg]
    rw [beq_iff_eq]
    rintro rfl
    exact h rfl

theorem word_eq_none (h : cs.head?.any isWordStart = false) : word cs = none := by
  rw [word, if_neg (by rw [h]; exact Bool.false_ne_true)]

theorem first?_quoted (h : quotedIdentifier cs = some y) :
    first? cs = some (y.map fun _ => .quoted) := by
  have hhead : cs.head? = some '"' := by
    by_contra hne
    rw [quotedIdentifier_eq_none hne] at h
    cases h
  have hstring : string cs = none :=
    string_eq_none (by rw [hhead]; decide) (.inl (by rw [hhead]; rfl))
  rw [first?.eq_def, hstring, h]
  rfl

theorem first?_param {y : Lexeme Param} (h : param cs = some y) :
    first? cs = some (y.map fun _ => .param) := by
  have hhead : cs.head? = some '$' := by
    by_contra hne
    rw [param_eq_none hne] at h
    cases h
  have hstring : string cs = none :=
    string_eq_none (by rw [hhead]; decide) (.inl (by rw [hhead]; rfl))
  have hquoted : quotedIdentifier cs = none := quotedIdentifier_eq_none (by rw [hhead]; decide)
  rw [first?.eq_def, hstring, hquoted, h]
  rfl

/-- A character that only a mark starts with. -/
def isMark (c : Char) : Bool :=
  c != '\'' && c != '"' && c != '$' && !c.isDigit && c != '.' && !isWordStart c

theorem head?_number (h : number cs = some y) :
    ∃ c rest, cs = c :: rest ∧ (c.isDigit = true ∨ c = '.') := by
  cases hhead : cs.head?.any (fun c => c.isDigit || c == '.') with
  | false => rw [number_eq_none hhead] at h; cases h
  | true =>
    cases cs with
    | nil => cases hhead
    | cons c rest => exact ⟨c, rest, rfl, by simpa using hhead⟩

/-- What starts neither with a quote nor with a sigil. -/
theorem eq_none_of_plain (hall : ['\'', 'e', 'E', '"', '$'].all (fun d => !p d) = true)
    (hc : p c = true) (rest : List Char) :
    string (c :: rest) = none ∧ quotedIdentifier (c :: rest) = none ∧ param (c :: rest) = none := by
  have hne (d : Char) (hd : (!p d) = true) : ¬c = d := by
    rintro rfl
    rw [hc] at hd
    cases hd
  simp only [all_cons, all_nil, Bool.and_true, Bool.and_eq_true] at hall
  obtain ⟨hquote, he, hE, hdouble, hdollar⟩ := hall
  exact ⟨string_eq_none (by simpa using hne _ hquote) (.inl (by simp [hne _ he, hne _ hE])),
    quotedIdentifier_eq_none (by simpa using hne _ hdouble),
    param_eq_none (by simpa using hne _ hdollar)⟩

theorem first?_number (h : number cs = some y) : first? cs = some (y.map fun _ => .number) := by
  obtain ⟨c, rest, rfl, hc⟩ := head?_number h
  obtain ⟨hstring, hquoted, hparam⟩ :=
    eq_none_of_plain (p := fun c => c.isDigit || c == '.') rfl (by simpa using hc) rest
  rw [first?.eq_def, hstring, hquoted, hparam, h]
  rfl

theorem isWordStart_of_word (h : word cs = some y) : cs.head?.any isWordStart = true := by
  cases hhead : cs.head?.any isWordStart with
  | true => rfl
  | false => rw [word_eq_none hhead] at h; cases h

theorem first?_word (h : word cs = some y) (hstring : string cs = none) :
    first? cs = some (y.map fun _ => .word) := by
  have hhead := isWordStart_of_word h
  cases cs with
  | nil => cases hhead
  | cons c rest =>
    have hc : isWordStart c = true := hhead
    have hquoted : quotedIdentifier (c :: rest) = none :=
      quotedIdentifier_eq_none fun heq => by cases heq; cases hc
    have hparam : param (c :: rest) = none := param_eq_none fun heq => by cases heq; cases hc
    have hnumber : number (c :: rest) = none := by
      refine number_eq_none ?_
      show (c.isDigit || c == '.') = false
      rw [Bool.or_eq_false_iff, beq_eq_false_iff_ne]
      refine ⟨?_, by rintro rfl; cases hc⟩
      cases hd : c.isDigit with
      | false => rfl
      | true => rw [isWordStart_of_isDigit hd] at hc; cases hc
    rw [first?.eq_def, hstring, hquoted, hparam, hnumber, h]
    rfl

theorem first?_mark (h : isMark c = true) (rest : List Char) :
    first? (c :: rest) = some ⟨.mark, [c], rest⟩ := by
  obtain ⟨hstring, hquoted, hparam⟩ := eq_none_of_plain rfl h rest
  simp only [isMark, Bool.and_eq_true, bne_iff_ne, ne_eq, Bool.not_eq_true'] at h
  obtain ⟨⟨⟨-, hdigit⟩, hdot⟩, hword⟩ := h
  rw [first?.eq_def, hstring, hquoted, hparam, number_eq_none (by simp [hdigit, hdot]),
    word_eq_none (by simpa using hword)]
  rfl

/-- A dot that no digit follows is a mark. -/
theorem first?_dot (h : rest.head?.any Char.isDigit = false) :
    first? ('.' :: rest) = some ⟨.mark, ['.'], rest⟩ := by
  have hnumber : number ('.' :: rest) = none := by
    have hdecimal : (fraction ('.' :: rest)).any Char.isDigit = false := by
      rw [fraction.eq_def]
      split
      · rfl
      · next heq =>
        cases heq
        cases rest with
        | nil => rfl
        | cons d rest =>
          rw [takeWhile_cons_of_neg (by rw [show d.isDigit = false from h]; decide)]
          rfl
      · rfl
    rw [number]
    show (if _ && _ then _ else _) = _
    rw [show ('.' :: rest).takeWhile Char.isDigit = [] from rfl, nil_append, length_nil,
      drop_zero, hdecimal]
    rfl
  obtain ⟨hstring, hquoted, hparam⟩ := eq_none_of_plain (p := (· == '.')) (c := '.') rfl rfl rest
  rw [first?.eq_def, hstring, hquoted, hparam, hnumber, word_eq_none rfl]
  rfl

end Lexeme

theorem Lexeme.Spelled.refl (x : Lexeme LexemeKind) : x.Spelled x.text := by
  rw [Spelled]
  split
  · rfl
  · rfl

/-! ## Lexemes that are written alike -/

namespace Respelled

variable {cs ds : List Char}

/-- The lexeme that comes first, unless there is none. -/
theorem first (h : Respelled cs ds) (htrivia : startsTrivia cs = false) (hx : first? cs = some x) :
    ∃ text rest, x.Spelled text ∧ ds = text ++ rest ∧ Respelled x.rest rest := by
  rcases h.cases htrivia with ⟨rfl, -⟩ | ⟨y, text, rest, hy, ht, rfl, hr⟩
  · cases hx
  · rw [hx] at hy
    cases hy
    exact ⟨text, rest, ht, rfl, hr⟩

/-- A lexeme that is no word is the same in both texts. -/
theorem first_same (h : Respelled cs ds) (htrivia : startsTrivia cs = false)
    (hx : first? cs = some x) (hkind : x.value ≠ .word) :
    ∃ rest, ds = x.text ++ rest ∧ Respelled x.rest rest := by
  obtain ⟨text, rest, ht, rfl, hr⟩ := h.first htrivia hx
  rw [Spelled, if_neg hkind] at ht
  exact ⟨rest, by rw [ht], hr⟩

theorem mark (h : Respelled (c :: cs) ds) (htrivia : startsTrivia (c :: cs) = false)
    (hc : isMark c = true) : ∃ rest, ds = c :: rest ∧ Respelled cs rest :=
  h.first_same htrivia (first?_mark hc cs) nofun

theorem startsTrivia_eq_false (h : Respelled cs ds) (htrivia : startsTrivia cs = false) :
    startsTrivia ds = false := by
  cases cs with
  | nil =>
    rcases h.cases htrivia with ⟨-, rfl⟩ | ⟨x, text, rest, hx, -, -, -⟩
    · rfl
    · cases hx
  | cons c cs => exact h.near.startsTrivia_eq_false (cons_ne_nil _ _) htrivia

theorem no_backslash (h : Respelled cs ds) (hcs : '\\' ∉ cs) : '\\' ∉ ds := by
  have hgap : ∀ cs : List Char, '\\' ∉ gap cs := by
    intro cs
    rw [gap]
    split
    · decide
    · exact not_mem_nil
  induction h with
  | done h => exact hgap _
  | @lexeme cs rest text x hx ht hr ih =>
    have hskip : '\\' ∉ Lexeme.skip cs := fun hm => hcs ((skip_isSuffix cs).subset hm)
    rw [splits_first? _ x hx, mem_append, not_or] at hskip
    have htext : '\\' ∉ text := by
      have hsteady : Steady (· == '\\') := .char _ (by decide)
      have hany := hsteady.any ht.fold
      intro hm
      rw [any_eq_true.2 ⟨_, hm, rfl⟩] at hany
      obtain ⟨c, hc, heq⟩ := any_eq_true.1 hany
      rw [eq_of_beq heq] at hc
      exact hskip.1 hc
    rw [mem_append, mem_append, not_or, not_or]
    exact ⟨hgap _, htext, ih hskip.2⟩

/-- Two texts that are scanned to the same extent are cut at the same lexeme. -/
theorem extent (hsplit : scan.Splits) (h : Respelled cs ds) (htrivia : startsTrivia cs = false)
    {y z : Lexeme α} (hz : scan ds = some z) (hlength : y.text.length = z.text.length)
    (hx : first? cs = some (y.map fun _ => kind)) :
    (y.map fun _ => kind).Spelled z.text ∧ Respelled y.rest z.rest := by
  obtain ⟨text, rest, ht, heq, hr⟩ := h.first htrivia hx
  rw [hsplit ds z hz] at heq
  obtain ⟨htext, hrest⟩ := append_inj heq (hlength.symm.trans ht.length_eq)
  rw [htext, hrest]
  exact ⟨ht, hr⟩

end Respelled

/-- What is written alike is scanned alike. -/
theorem matched_of_extent (hkind : kind ≠ .word) (hsplit : scan.Splits) {v : List Char → α}
    (hvalue : ∀ {cs x}, scan cs = some x → x.value = v x.text)
    (hfirst : ∀ {cs y}, scan cs = some y → first? cs = some (y.map fun _ => kind))
    (hextent : ∀ {cs ds}, Near cs ds → SameExtent (scan cs) (scan ds)) : scan.Matches Eq := by
  intro cs ds h htrivia _
  have hsame := hextent h.near
  generalize hy : scan cs = found at hsame
  generalize hz : scan ds = other at hsame
  cases hsame with
  | none => exact .none
  | @some y z hlength =>
    obtain ⟨ht, hr⟩ := h.extent hsplit htrivia hz hlength (hfirst hy)
    have htext : z.text = y.text := (if_neg hkind).mp ht
    exact .some (by rw [hvalue hy, hvalue hz, htext]) hr

theorem matches_param : param.Matches Eq :=
  matched_of_extent (fun h => by cases h) splits_param param_value first?_param Near.param

theorem matches_number : number.Matches Eq := by
  refine matched_of_extent (fun h => by cases h) splits_number (v := String.ofList) ?_ first?_number
    Near.number
  exact fun hx => (number_cases hx).1

/-! ## Quoted text -/

theorem Lexeme.string_quote (cs : List Char) : string ('\'' :: cs) =
    (quoted '\'' false cs).map fun x => (x.map String.ofList).after ['\''] := by
  rw [string.eq_def]
  rfl

theorem Lexeme.string_escape (he : (e == 'e' || e == 'E') = true) (cs : List Char) :
    string (e :: '\'' :: cs) =
      (quoted '\'' true cs).map fun x => (x.map String.ofList).after [e, '\''] := by
  have hne : (e == '\'') = false := by
    rw [beq_eq_false_iff_ne]
    rintro rfl
    cases he
  rw [string.eq_def]
  dsimp only
  rw [hne, he]
  rfl

theorem Lexeme.quotedIdentifier_quote (cs : List Char) : quotedIdentifier ('"' :: cs) =
    (quoted '"' false cs).map fun x => (x.map String.ofList).after ['"'] := rfl

theorem steady_quote : Steady (· == '\'') := .char _ (by decide)

theorem steady_doubleQuote : Steady (· == '"') := .char _ (by decide)

theorem head?_ne_iff : cs.head? ≠ some c ↔ cs.head?.any (· == c) = false := by
  cases cs with
  | nil => simp
  | cons d cs => simp

theorem Respelled.head?_ne (h : Respelled cs ds) (hc : Steady (· == c)) (hne : cs.head? ≠ some c) :
    ds.head? ≠ some c := by
  rw [head?_ne_iff] at hne ⊢
  rw [← h.near.head hc]
  exact hne

/-- A quote that is not closed is a mark in both texts. -/
theorem Respelled.unclosed_quote {quote : Char} (h : Respelled (quote :: cs) ds)
    (htrivia : startsTrivia (quote :: cs) = false) (hspace : Text.isSpace quote = false)
    (hquote : quote ≠ '-' ∧ quote ≠ '/' ∧ quote ≠ '*') (hword : isWordChar quote = false)
    (hx : first? (quote :: cs) = some ⟨.mark, [quote], cs⟩) (hnone : quoted quote false cs = none) :
    ∃ rest, ds = quote :: rest ∧ quoted quote false rest = none := by
  obtain ⟨rest, rfl, hr⟩ := h.first_same htrivia hx nofun
  exact ⟨rest, rfl,
    quoted_eq_none_iff.2 (hr.unclosed hspace hquote hword _ (quoted_eq_none_iff.1 hnone))⟩

theorem quotedIdentifier_eq_none_of (h : Respelled cs ds) (htrivia : startsTrivia cs = false)
    (hnone : quotedIdentifier cs = none) : quotedIdentifier ds = none := by
  cases hhead : cs.head?.any (· == '"') with
  | false => exact quotedIdentifier_eq_none (h.head?_ne steady_doubleQuote (head?_ne_iff.2 hhead))
  | true =>
    cases cs with
    | nil => cases hhead
    | cons c cs =>
      obtain rfl : c = '"' := by simpa using hhead
      have hquoted : quoted '"' false cs = none := by
        rw [quotedIdentifier_quote] at hnone
        exact Option.map_eq_none_iff.1 hnone
      have hx : first? ('"' :: cs) = some ⟨.mark, ['"'], cs⟩ := by
        rw [first?.eq_def, string_eq_none (by simp) (.inl rfl), hnone, param_eq_none (by simp),
          number_eq_none rfl, word_eq_none rfl]
        rfl
      obtain ⟨rest, rfl, hrest⟩ := h.unclosed_quote htrivia (by decide) (by decide) (by decide) hx
        hquoted
      rw [quotedIdentifier_quote, hrest]
      rfl

theorem matches_quotedIdentifier : quotedIdentifier.Matches Eq := by
  intro cs ds h htrivia _
  cases hy : quotedIdentifier cs with
  | some y =>
    obtain ⟨rest, rfl, hr⟩ := h.first_same htrivia (first?_quoted hy) nofun
    obtain ⟨cs, z, rfl, hz, rfl⟩ := quotedIdentifier_cases hy
    have hhead := hr.head?_ne steady_doubleQuote (head?_rest_quoted z hz)
    show Matched Eq _ (quotedIdentifier ('"' :: (z.text ++ rest)))
    rw [quotedIdentifier_quote, quoted_append hhead z hz]
    exact .some rfl hr
  | none =>
    rw [quotedIdentifier_eq_none_of h htrivia hy]
    exact .none

theorem string_eq_none_of_quote (h : Respelled ('\'' :: cs) ds)
    (hnone : quoted '\'' false cs = none) : string ds = none := by
  have hx : first? ('\'' :: cs) = some ⟨.mark, ['\''], cs⟩ := by
    rw [first?.eq_def, string_quote, hnone, quotedIdentifier_eq_none (by simp),
      param_eq_none (by simp), number_eq_none rfl, word_eq_none rfl]
    rfl
  obtain ⟨rest, rfl, hrest⟩ := h.unclosed_quote rfl (by decide) (by decide) (by decide) hx hnone
  rw [string_quote, hrest]
  rfl

theorem word_eq_letter (he : (e == 'e' || e == 'E') = true) (cs : List Char) :
    word (e :: '\'' :: cs) = some ⟨String.ofList [e], [e], '\'' :: cs⟩ := by
  rw [Bool.or_eq_true, beq_iff_eq, beq_iff_eq] at he
  rcases he with rfl | rfl <;> rfl

theorem string_eq_none_of (h : Respelled cs ds) (htrivia : startsTrivia cs = false)
    (hslash : '\\' ∉ cs) (hnone : string cs = none) : string ds = none := by
  cases hquote : cs.head?.any (· == '\'') with
  | true =>
    cases cs with
    | nil => cases hquote
    | cons c cs =>
      obtain rfl : c = '\'' := by simpa using hquote
      rw [string_quote] at hnone
      exact string_eq_none_of_quote h (Option.map_eq_none_iff.1 hnone)
  | false =>
    have hfirst := h.head?_ne steady_quote (head?_ne_iff.2 hquote)
    cases hds : ds.head?.any (fun c => c == 'e' || c == 'E') with
    | false => exact string_eq_none hfirst (.inl hds)
    | true =>
      by_cases hsecond : ds.tail.head? = some '\''
      · have hcs : cs.head?.any (fun c => c == 'e' || c == 'E') = true :=
          (h.near.head StableStart.isExponent).trans hds
        obtain ⟨d, ds, rfl⟩ : ∃ d ds', ds = d :: '\'' :: ds' := by
          cases ds with
          | nil => cases hds
          | cons d ds =>
            cases ds with
            | nil => cases hsecond
            | cons b ds => cases hsecond; exact ⟨d, ds, rfl⟩
        have hnear := h.near
        cases hnear with
        | stop hs _ _ => rw [StableStart.isExponent.head_of_stops hs] at hcs; cases hcs
        | @cons c _ cs _ hcd hr =>
          have hq := (hr.head steady_quote).trans (rfl : ('\'' :: ds).head?.any (· == '\'') = true)
          cases cs with
          | nil => cases hq
          | cons b cs =>
            obtain rfl : b = '\'' := by simpa using hq
            have hc : (c == 'e' || c == 'E') = true := hcs
            rw [string_escape hc, quoted_escapes fun hm => hslash (.tail _ (.tail _ hm))] at hnone
            have hquoted : quoted '\'' false cs = none := Option.map_eq_none_iff.1 hnone
            have hstring : string (c :: '\'' :: cs) = none := by
              rw [string_escape hc, quoted_escapes fun hm => hslash (.tail _ (.tail _ hm)), hquoted]
              rfl
            have hx := first?_word (word_eq_letter hc cs) hstring
            obtain ⟨-, hrest⟩ := h.extent splits_word htrivia (word_eq_letter hds ds) (by rfl) hx
            have hinner := string_eq_none_of_quote hrest hquoted
            rw [string_quote] at hinner
            rw [string_escape hds, quoted_escapes fun hm =>
              h.no_backslash hslash (.tail _ (.tail _ hm)), Option.map_eq_none_iff.1 hinner]
            rfl
      · exact string_eq_none hfirst (.inr hsecond)

theorem matches_string : string.Matches Eq := by
  intro cs ds h htrivia hslash
  cases hy : string cs with
  | some y =>
    obtain ⟨rest, rfl, hr⟩ := h.first_same htrivia (first?_string hy) nofun
    rcases string_cases hy with ⟨cs, z, rfl, hz, rfl⟩ | ⟨e, cs, z, rfl, he, hz, rfl⟩
    · have hhead := hr.head?_ne steady_quote (head?_rest_quoted z hz)
      show Matched Eq _ (string ('\'' :: (z.text ++ rest)))
      rw [string_quote, quoted_append hhead z hz]
      exact .some rfl hr
    · have hhead := hr.head?_ne steady_quote (head?_rest_quoted z hz)
      show Matched Eq _ (string (e :: '\'' :: (z.text ++ rest)))
      rw [string_escape he, quoted_append hhead z hz]
      exact .some rfl hr
  | none =>
    rw [string_eq_none_of h htrivia hslash hy]
    exact .none

/-! ## Words -/

/-- The values are the same word, up to case. -/
def SameWord (a b : String) : Prop := Text.fold a = Text.fold b

theorem word_value {x : Lexeme String} (h : word cs = some x) : x.value = String.ofList x.text := by
  obtain ⟨-, rfl⟩ := word_cases h
  rfl

/-- A word goes on as far as it can. -/
theorem word_stop {x : Lexeme String} (h : word cs = some x) :
    x.rest.head?.any isWordChar = false := by
  obtain ⟨-, rfl⟩ := word_cases h
  exact head?_dropWhile _ cs

theorem matches_word : word.Matches SameWord := by
  intro cs ds h htrivia hslash
  have hsame := h.near.word
  generalize hy : word cs = found at hsame
  generalize hz : word ds = other at hsame
  cases hsame with
  | none => exact .none
  | @some y z hlength =>
    cases hstring : string cs with
    | none =>
      obtain ⟨ht, hr⟩ := h.extent splits_word htrivia hz hlength (first?_word hy hstring)
      refine .some ?_ hr
      rw [SameWord, word_value hy, word_value hz, Text.fold, Text.fold, String.toList_ofList,
        String.toList_ofList]
      exact ht.fold
    | some x =>
      -- the word is the letter in front of a string with escapes
      obtain ⟨rest, rfl, hr⟩ :=
        h.first_same htrivia (first?_string hstring) (by simp [Lexeme.map])
      rcases string_cases hstring with ⟨cs, w, rfl, -, -⟩ | ⟨e, cs, w, rfl, he, hw, rfl⟩
      · rw [word_eq_none rfl] at hy
        cases hy
      · rw [word_eq_letter he] at hy
        cases hy
        have hz' : word (e :: '\'' :: (w.text ++ rest)) = some z := hz
        rw [word_eq_letter he] at hz'
        cases hz'
        refine .some rfl ?_
        rw [quoted_escapes fun hm => hslash (.tail _ (.tail _ hm))] at hw
        have hinner : string ('\'' :: cs) = some ((w.map String.ofList).after ['\'']) := by
          rw [string_quote, hw]
          rfl
        have hx := first?_string hinner
        rw [← skip_eq_self (rfl : startsTrivia ('\'' :: cs) = false)] at hx
        exact Respelled.lexeme hx (Spelled.refl _) hr

/-! ## Keywords and names -/

namespace Lexeme

/-- Is it a word as a whole? -/
def isWord (word : String) : Bool := word.toList.head?.any isWordStart && word.toList.all isWordChar

theorem head?_any_map (hp : Steady p) (h : as.map Char.toLower = bs.map Char.toLower) :
    as.head?.any p = bs.head?.any p := by
  simpa [Option.any_map] using congrArg (fun bits => bits.head?.any id) (hp.map h)

/-- A keyword is found where the word of the text is that word, up to case. -/
theorem keyword_iff_word (hname : isWord name = true) {x : Lexeme Unit} : keyword name cs = some x ↔
      ∃ y, word cs = some y ∧ SameWord y.value name ∧ x = ⟨(), y.text, y.rest⟩ := by
  rw [isWord, Bool.and_eq_true] at hname
  obtain ⟨hstart, hall⟩ := hname
  rw [keyword_eq_some_iff]
  constructor
  · rintro ⟨as, rest, rfl, has, hstop, rfl⟩
    obtain ⟨htake, hdrop⟩ := takeWhile_append_stop ((Steady.isWordChar.all has).trans hall) hstop
    have hhead : (as ++ rest).head?.any isWordStart = true := by
      rw [← head?_any_map Steady.isWordStart has] at hstart
      cases as with
      | nil => cases hstart
      | cons a as => exact hstart
    refine ⟨⟨String.ofList as, as, rest⟩, ?_, ?_, rfl⟩
    · rw [word, if_pos hhead, htake, hdrop]
    · rw [SameWord, Text.fold, Text.fold, String.toList_ofList]
      exact has
  · rintro ⟨y, hy, hfold, rfl⟩
    rw [SameWord, word_value hy, Text.fold, Text.fold, String.toList_ofList] at hfold
    exact ⟨y.text, y.rest, splits_word cs y hy, hfold, word_stop hy, rfl⟩

end Lexeme

theorem matches_keyword (hname : isWord name = true) : (keyword name).Matches Eq := by
  intro cs ds h htrivia hslash
  have hword := matches_word cs ds h htrivia hslash
  have hno {as : List Char} (hne : ∀ y, word as = some y → ¬SameWord y.value name) :
      keyword name as = none := by
    refine Option.eq_none_iff_forall_ne_some.2 fun x hx => ?_
    obtain ⟨y, hy, hsame, -⟩ := (keyword_iff_word hname).1 hx
    exact hne y hy hsame
  generalize hy : word cs = found at hword
  generalize hz : word ds = other at hword
  cases hword with
  | none =>
    rw [hno (by rw [hy]; exact nofun), hno (by rw [hz]; exact nofun)]
    exact .none
  | @some y z hv hr =>
    by_cases hfold : SameWord y.value name
    · have hother : SameWord z.value name := hv.symm.trans hfold
      rw [(keyword_iff_word hname).2 ⟨y, hy, hfold, rfl⟩,
        (keyword_iff_word hname).2 ⟨z, hz, hother, rfl⟩]
      exact .some rfl hr
    · have hother : ¬SameWord z.value name := fun h => hfold (hv.trans h)
      rw [hno (by rw [hy]; rintro _ ⟨⟩; exact hfold), hno (by rw [hz]; rintro _ ⟨⟩; exact hother)]
      exact .none

/-! ## Names -/

namespace Text

/-- What the Unicode tables say of an ASCII letter. -/
structure LetterTables (c : Char) : Prop where
  caseIgnorable : caseIgnorable.contains c = false
  cased : cased.contains c = true
  toUpper_toLower : c.toLower.toUpper = c.toUpper
  lowerChar : lowerChar c = c.toLower

theorem letterTables (hc : c.isAlpha = true) : LetterTables c := by
  have hall : ∀ n < 128, (Char.ofNat n).isAlpha = true →
      Text.caseIgnorable.contains (Char.ofNat n) = false ∧ Text.cased.contains (Char.ofNat n) = true ∧
      (Char.ofNat n).toLower.toUpper = (Char.ofNat n).toUpper ∧
      Text.lowerChar (Char.ofNat n) = (Char.ofNat n).toLower := by decide +kernel
  have hlt : c.toNat < 128 := by
    rcases Text.isAlpha_iff.1 hc with hu | hl
    · have := Text.isUpper_iff.1 hu; omega
    · have := Text.isLower_iff.1 hl; omega
  have hc' := hall c.toNat hlt
  rw [Char.ofNat_toNat] at hc'
  obtain ⟨hignorable, hcased, hupper, hlower⟩ := hc' hc
  exact ⟨hignorable, hcased, hupper, hlower⟩

/-- Case does not count before and after a letter. -/
theorem startsCased_fold (h : as.map Char.toLower = bs.map Char.toLower) :
    startsCased as = startsCased bs := by
  induction as generalizing bs with
  | nil => rw [map_eq_nil_iff.1 h.symm]
  | cons a as ih =>
    cases bs with
    | nil => cases h
    | cons b bs =>
      obtain ⟨hab, htail⟩ := List.cons.inj h
      have hignorable : caseIgnorable.contains a = caseIgnorable.contains b :=
        Steady.eq_of_letters (fun _ hc => (letterTables hc).caseIgnorable) hab
      have hcased : cased.contains a = cased.contains b :=
        Steady.eq_of_letters (fun _ hc => (letterTables hc).cased) hab
      have hrest := ih htail
      rw [startsCased, startsCased] at hrest ⊢
      rw [dropWhile_cons, dropWhile_cons, hignorable]
      cases caseIgnorable.contains b with
      | true => exact hrest
      | false => exact hcased

theorem lowerChars_fold {before before' : List Char} (h : as.map Char.toLower = bs.map Char.toLower)
    (hbefore : before.map Char.toLower = before'.map Char.toLower) :
    lowerChars before as = lowerChars before' bs := by
  induction as generalizing bs before before' with
  | nil => rw [map_eq_nil_iff.1 h.symm]; rfl
  | cons a as ih =>
    cases bs with
    | nil => cases h
    | cons b bs =>
      obtain ⟨hab, htail⟩ := List.cons.inj h
      have hrest : lowerChars (a :: before) as = lowerChars (b :: before') bs :=
        ih htail (cons_eq_cons.2 ⟨hab, hbefore⟩)
      rw [lowerChars, lowerChars, hrest, startsCased_fold hbefore, startsCased_fold htail]
      refine congrArg (· ++ _) ?_
      rcases Steady.toLower_eq_iff hab with rfl | ⟨ha, hb⟩
      · rfl
      · have hplain : ∀ c : Char, c.isAlpha = true → c ≠ '\u0130' ∧ c ≠ '\u03a3' := by
          intro c hc
          constructor <;> (rintro rfl; cases hc)
        rw [if_neg (hplain a ha).1, if_neg (hplain a ha).2, if_neg (hplain b hb).1,
          if_neg (hplain b hb).2, (letterTables ha).lowerChar, (letterTables hb).lowerChar, hab]

theorem lower_fold {a b : String} (h : fold a = fold b) : lower a = lower b := by
  rw [lower, lower, lowerChars_fold h rfl]

end Text

theorem Lexeme.isReserved_fold {a b : String} (h : Text.fold a = Text.fold b) :
    isReserved a = isReserved b := by
  have hupper : ∀ s : String, s.toList.map Char.toUpper = (Text.fold s).map Char.toUpper := by
    intro s
    rw [Text.fold, map_map]
    refine map_congr_left fun c _ => ?_
    cases hc : c.isAlpha with
    | true => exact (Text.letterTables hc).toUpper_toLower.symm
    | false =>
      have hlower : c.isUpper = false := by
        cases hu : c.isUpper with
        | false => rfl
        | true => rw [Text.isAlpha_iff.2 (.inl hu)] at hc; cases hc
      rw [Function.comp, Text.toLower_eq_self hlower]
  have hmap : a.map Char.toUpper = b.map Char.toUpper := by
    rw [← String.toList_inj, String.toList_map, String.toList_map, hupper, hupper, h]
  rw [isReserved, isReserved, hmap]

theorem matches_identifier (reserved : Bool) : (identifier reserved).Matches Eq := by
  intro cs ds h htrivia hslash
  have hquoted := matches_quotedIdentifier cs ds h htrivia hslash
  have hword := matches_word cs ds h htrivia hslash
  rw [identifier, identifier]
  generalize quotedIdentifier cs = found at hquoted
  generalize quotedIdentifier ds = other at hquoted
  cases hquoted with
  | some hv hr => exact .some (by rw [Lexeme.map, Lexeme.map, hv]) hr
  | none =>
    dsimp only
    rw [unquotedIdentifier, unquotedIdentifier]
    generalize word cs = found at hword
    generalize word ds = other at hword
    cases hword with
    | none => exact .none
    | @some y z hv hr =>
      dsimp only
      rw [isReserved_fold hv]
      split
      · exact .none
      · refine .some ?_ hr
        show (Text.lower y.value, false) = (Text.lower z.value, false)
        rw [Text.lower_fold hv]

/-! ## Marks and operators -/

theorem Near.endsPunctuation {mark : String} (h : Near cs ds) :
    endsPunctuation mark cs = endsPunctuation mark ds := by
  have hcolon : Steady (· == ':') := .char _ (by decide)
  rw [Lexeme.endsPunctuation.eq_def, Lexeme.endsPunctuation.eq_def]
  split
  · rw [h.head hcolon]
  · rw [h.head Steady.isDigit]
  · rfl

/-- Punctuation of one character. -/
theorem punctuation_cons {mark : String} (hmark : mark.toList = [c]) (d : Char) (cs : List Char) :
    punctuation mark (d :: cs) =
      if c == d && endsPunctuation mark cs then some ⟨(), [c], cs⟩ else none := by
  rw [punctuation, hmark, Text.after?]
  cases c == d with
  | false => rfl
  | true =>
    rw [if_pos rfl, Text.after?]
    rfl

theorem matches_mark {mark : String} (hmark : mark.toList = [c])
    (hfirst : ∀ cs, endsPunctuation mark cs = true → first? (c :: cs) = some ⟨.mark, [c], cs⟩)
    (hsteady : Steady (· == c)) : (punctuation mark).Matches Eq := by
  intro cs ds h htrivia _
  have hhead := h.near.head hsteady
  have hnone : ∀ {as : List Char}, as.head?.any (· == c) = false → punctuation mark as = none :=
    fun has => punctuation_eq_none hmark (head?_ne_iff.2 has)
  cases hc : cs.head?.any (· == c) with
  | false =>
    rw [hnone hc, hnone (hhead ▸ hc)]
    exact .none
  | true =>
    cases cs with
    | nil => cases hc
    | cons b cs =>
      obtain rfl : b = c := by simpa using hc
      cases hends : endsPunctuation mark cs with
      | true =>
        obtain ⟨rest, rfl, hr⟩ := h.first_same htrivia (hfirst cs hends) nofun
        rw [punctuation_cons hmark, hends]
        show Matched _ _ (punctuation mark (b :: rest))
        rw [punctuation_cons hmark, ← hr.near.endsPunctuation, hends]
        rw [beq_self_eq_true]
        exact .some rfl hr
      | false =>
        have hnear := h.near
        cases hnear with
        | stop hs _ _ => rw [hsteady.head_of_stops hs] at hc; cases hc
        | @cons _ d _ ds _ hr =>
          rw [punctuation_cons hmark, punctuation_cons hmark, ← hr.endsPunctuation, hends,
            Bool.and_false, Bool.and_false]
          exact .none

/-- Punctuation that is a mark wherever it stands. -/
theorem matches_punctuation {mark : String} (hmark : mark.toList = [c]) (hc : isMark c = true)
    (hother : Text.isSpace c = false ∧ c ≠ '-' ∧ c ≠ '/') : (punctuation mark).Matches Eq := by
  refine matches_mark hmark (fun cs _ => first?_mark hc cs) (.char c ⟨?_, hother⟩)
  cases halpha : c.isAlpha with
  | false => rfl
  | true => rw [isMark, isWordStart, halpha] at hc; simp at hc

theorem matches_dot : (punctuation ".").Matches Eq :=
  matches_mark (c := '.') rfl (fun _ hends => first?_dot (by simpa [endsPunctuation] using hends))
    StableStart.dot

theorem matches_two_colons : (punctuation "::").Matches Eq := by
  have hcolon : Steady (· == ':') := .char _ (by decide)
  have hone : ∀ {cs : List Char}, cs.head?.any (· == ':') = false → punctuation "::" cs = none :=
    fun hcs => @punctuation_eq_none _ "::" ':' [':'] rfl (head?_ne_iff.2 hcs)
  have htwo : ∀ cs : List Char, punctuation "::" (':' :: cs) =
      if cs.head?.any (· == ':') then some ⟨(), [':', ':'], cs.tail⟩ else none := by
    intro cs
    rw [punctuation]
    cases cs with
    | nil => rfl
    | cons c cs =>
      cases hc : c == ':' with
      | true => rw [eq_of_beq hc]; rfl
      | false =>
        have hne : (':' == c) = false := by
          rw [beq_eq_false_iff_ne] at hc ⊢
          exact hc.symm
        have hafter : Text.after? "::".toList (':' :: c :: cs) = none := by
          show (if ':' == c then Text.after? [] cs else none) = none
          rw [hne]
          rfl
        rw [hafter, head?_cons, Option.any_some, hc]
        rfl
  intro cs ds h htrivia _
  have hhead := h.near.head hcolon
  cases hc : cs.head?.any (· == ':') with
  | false =>
    rw [hone hc, hone (hhead ▸ hc)]
    exact .none
  | true =>
    cases cs with
    | nil => cases hc
    | cons b cs =>
      obtain rfl : b = ':' := by simpa using hc
      obtain ⟨ds, rfl, hr⟩ := h.mark htrivia rfl
      rw [htwo, htwo, ← hr.near.head hcolon]
      cases hc₂ : cs.head?.any (· == ':') with
      | false => exact .none
      | true =>
        cases cs with
        | nil => cases hc₂
        | cons b cs =>
          obtain rfl : b = ':' := by simpa using hc₂
          obtain ⟨rest, rfl, hrest⟩ := hr.mark rfl rfl
          exact .some rfl hrest

/-! ## Operators -/

theorem isMark_of_isOperatorChar (h : isOperatorChar c = true) : isMark c = true := by
  have hall : "+-*/<>=~!@#%^&|`?".toList.all isMark = true := rfl
  rw [isOperatorChar, contains_eq_mem, decide_eq_true_iff] at h
  exact all_eq_true.1 hall c h

theorem isOperatorChar_fold {d : Char} (h : c.toLower = d.toLower) :
    isOperatorChar c = isOperatorChar d := by
  refine Steady.eq_of_letters (b := false) (fun c hc => ?_) h
  cases hop : isOperatorChar c with
  | false => rfl
  | true =>
    have hmark := isMark_of_isOperatorChar hop
    rw [isMark, isWordStart, hc] at hmark
    simp at hmark

/-- The run of operator characters is the same, and so are the cuts in it. -/
theorem Respelled.operatorRun (h : Respelled cs ds) : operatorRun cs = operatorRun ds ∧
      ∀ k ≤ (Lexeme.operatorRun cs).length, Respelled (cs.drop k) (ds.drop k) := by
  have hzero : ∀ {as bs : List Char}, Respelled as bs → Lexeme.operatorRun as = [] →
      ∀ k ≤ (Lexeme.operatorRun as).length, Respelled (as.drop k) (bs.drop k) := by
    intro as bs hab hnil k hk
    rw [hnil] at hk
    rw [Nat.le_zero.1 hk]
    exact hab
  induction cs generalizing ds with
  | nil =>
    rcases h.cases rfl with ⟨-, rfl⟩ | ⟨x, text, rest, hx, -, -, -⟩
    · exact ⟨rfl, hzero h rfl⟩
    · cases hx
  | cons c cs ih =>
    cases htrivia : startsTrivia (c :: cs) with
    | true =>
      have hds : startsTrivia ds = true := by
        cases h with
        | done _ => rw [gap, htrivia]; rfl
        | lexeme _ _ _ => rw [gap, htrivia]; rfl
      rw [operatorRun_of_startsTrivia htrivia, operatorRun_of_startsTrivia hds]
      exact ⟨rfl, fun k hk => hzero h (operatorRun_of_startsTrivia htrivia) k
        (by rwa [operatorRun_of_startsTrivia htrivia])⟩
    | false =>
      cases hop : isOperatorChar c with
      | true =>
        have hds := h.startsTrivia_eq_false htrivia
        obtain ⟨ds, rfl, hr⟩ := h.mark htrivia (isMark_of_isOperatorChar hop)
        have hrun : ∀ {as : List Char}, startsTrivia (c :: as) = false →
            Lexeme.operatorRun (c :: as) = c :: Lexeme.operatorRun as := by
          intro as has
          rw [startsTrivia, Bool.or_eq_false_iff] at has
          rw [Lexeme.operatorRun, hop, has.2]
          rfl
        obtain ⟨hsame, hcut⟩ := ih hr
        rw [hrun htrivia, hrun hds, hsame]
        refine ⟨rfl, fun k hk => ?_⟩
        cases k with
        | zero => exact h
        | succ k => exact hcut k (by rw [hsame]; simpa using hk)
      | false =>
        have hnil {a : Char} {as : List Char} (ha : isOperatorChar a = false) :
            Lexeme.operatorRun (a :: as) = [] := operatorRun_eq_nil ha
        have hds : Lexeme.operatorRun ds = [] := by
          have hnear := h.near
          cases hnear with
          | stop _ hs _ =>
            cases ds with
            | nil => rfl
            | cons d ds => exact operatorRun_of_startsTrivia (by simpa [stops] using hs)
          | cons hcd _ => exact hnil ((isOperatorChar_fold hcd).symm.trans hop)
        exact ⟨(hnil hop).trans hds.symm, hzero h (hnil hop)⟩

theorem matches_operator : operator.Matches Eq := by
  intro cs ds h htrivia _
  obtain ⟨hrun, hcut⟩ := h.operatorRun
  rw [operator, operator, ← hrun]
  split
  · exact .none
  · next run hne =>
    exact .some rfl (hcut _ (trimmed_isPrefix _).length_le)

end SqlTyping
