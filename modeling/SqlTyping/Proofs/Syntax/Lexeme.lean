import SqlTyping.Proofs.Text
import SqlTyping.Syntax.Lexeme

/-!
# Scanners split texts

What a scanner finds is the start of the text, and what it leaves is the rest.
-/

namespace SqlTyping

open List

variable {α β : Type} {scan : Scanner α} {cs : List Char} {f : α → β} {c : Char}

/-- The lexeme and what follows it are the text. -/
def Scanner.Splits (scan : Scanner α) : Prop := ∀ cs x, scan cs = some x → cs = x.text ++ x.rest

/-- A lexeme has at least one character. -/
def Scanner.Proper (scan : Scanner α) : Prop := ∀ cs x, scan cs = some x → x.text ≠ []

namespace Lexeme

theorem eq_append_drop {text : List Char} (h : text <+: cs) : cs = text ++ cs.drop text.length := by
  obtain ⟨rest, rfl⟩ := h
  rw [drop_left]

theorem head?_dropWhile (p : Char → Bool) (cs : List Char) :
    (cs.dropWhile p).head?.any p = false := by
  have hhead := head?_dropWhile_not p cs
  cases hd : (cs.dropWhile p).head? with
  | none => rfl
  | some d => simpa [hd] using hhead

/-- A keyword is a start of the text that is the word up to case and that no word goes on with. -/
theorem keyword_eq_some_iff {word : String} {x : Lexeme Unit} : keyword word cs = some x ↔
    ∃ start rest, cs = start ++ rest ∧ start.map Char.toLower = word.toList.map Char.toLower ∧
      rest.head?.any isWordChar = false ∧ x = ⟨(), start, rest⟩ := by
  have hlength : ∀ {start : List Char},
      start.map Char.toLower = word.toList.map Char.toLower → word.length = start.length := by
    intro start hstart
    rw [← String.length_toList]
    simpa using (congrArg List.length hstart).symm
  rw [keyword]
  constructor
  · intro h
    split at h
    · cases h
    · next rest hrest =>
      split at h
      · cases h
      · next hstop =>
        cases h
        obtain ⟨start, rfl, hstart⟩ := Text.afterFold?_eq_some_iff.1 hrest
        exact ⟨start, rest, rfl, hstart, by simpa using hstop, by rw [hlength hstart, take_left]⟩
  · rintro ⟨start, rest, rfl, hstart, hstop, rfl⟩
    rw [Text.afterFold?_eq_some_iff.2 ⟨start, rfl, hstart⟩]
    dsimp only
    rw [hstop, hlength hstart, take_left]
    rfl

theorem splits_keyword (word : String) : (keyword word).Splits := by
  intro cs x hx
  obtain ⟨start, rest, rfl, -, -, rfl⟩ := keyword_eq_some_iff.1 hx
  rfl

theorem takeWhile_append_stop {p : Char → Bool} {as rest : List Char} (has : as.all p = true)
    (hrest : rest.head?.any p = false) :
    (as ++ rest).takeWhile p = as ∧ (as ++ rest).dropWhile p = rest := by
  induction as with
  | nil =>
    cases rest with
    | nil => exact ⟨rfl, rfl⟩
    | cons c rest =>
      have hc : p c = false := hrest
      rw [nil_append, takeWhile_cons, dropWhile_cons, hc]
      exact ⟨rfl, rfl⟩
  | cons a as ih =>
    rw [all_cons, Bool.and_eq_true] at has
    obtain ⟨htake, hdrop⟩ := ih has.2
    rw [cons_append, takeWhile_cons, dropWhile_cons, has.1]
    exact ⟨congrArg (a :: ·) htake, hdrop⟩

theorem word_cases {x : Lexeme String} (h : word cs = some x) :
    cs.head?.any isWordStart = true ∧
      x = ⟨String.ofList (cs.takeWhile isWordChar), cs.takeWhile isWordChar,
        cs.dropWhile isWordChar⟩ := by
  rw [word] at h
  split at h
  · next hstart => cases h; exact ⟨hstart, rfl⟩
  · cases h

theorem splits_word : word.Splits := by
  intro cs x hx
  obtain ⟨-, rfl⟩ := word_cases hx
  exact takeWhile_append_dropWhile.symm

theorem punctuation_cases {mark : String} {x : Lexeme Unit} (h : punctuation mark cs = some x) :
    ∃ rest, cs = mark.toList ++ rest ∧ x = ⟨(), mark.toList, rest⟩ := by
  rw [punctuation] at h
  split at h
  · cases h
  · next rest hrest =>
    split at h
    · cases h
      exact ⟨rest, Text.eq_append_of_after? hrest, rfl⟩
    · cases h

theorem splits_punctuation (mark : String) : (punctuation mark).Splits := by
  intro cs x hx
  obtain ⟨rest, rfl, rfl⟩ := punctuation_cases hx
  rfl

/-! ## Operators -/

theorem startsComment_iff : startsComment cs = true ↔
    ∃ rest, cs = '-' :: '-' :: rest ∨ cs = '/' :: '*' :: rest := by
  fun_cases startsComment cs <;> simp_all

/-- Two characters decide whether a comment starts. -/
theorem startsComment_append {rest : List Char} (h : rest.head?.any isOperatorChar = false) :
    startsComment (c :: (cs ++ rest)) = startsComment (c :: cs) := by
  cases cs with
  | cons d cs =>
    unfold startsComment
    grind
  | nil =>
    rw [nil_append, startsComment.eq_def]
    split
    case' h_1 | h_2 =>
      next heq =>
      cases heq
      cases h
    simp [startsComment]

theorem isPrefix_operatorRun_iff {p : List Char} : p <+: operatorRun cs ↔
    p <+: cs ∧ p.all isOperatorChar = true ∧
      ∀ k < p.length, startsComment (cs.drop k) = false := by
  induction p generalizing cs with
  | nil => simp
  | cons c p ih =>
    cases cs with
    | nil => simp [operatorRun]
    | cons d cs =>
      simp only [operatorRun, cons_prefix_cons, all_cons, length_cons, Nat.forall_lt_succ_left,
        drop_zero, drop_succ_cons]
      grind

theorem operatorRun_eq_nil (h : cs.head?.any isOperatorChar = false) : operatorRun cs = [] := by
  cases cs with
  | nil => rfl
  | cons c cs =>
    rw [operatorRun, show isOperatorChar c = false from h]
    rfl

/-- The operator that a run of operator characters starts with. -/
def trimmed (run : List Char) : List Char := if run.any allowsFinalSign then run else dropSigns run

theorem trimmed_isPrefix (run : List Char) : trimmed run <+: run := by
  rw [trimmed]
  split
  · exact prefix_refl _
  · cases run with
    | nil => exact prefix_refl _
    | cons c run =>
      rw [dropSigns, prefix_cons_inj, ← reverse_suffix, reverse_reverse]
      exact dropWhile_suffix _

/-- What an operator is read as. -/
def symbol (text : List Char) : String :=
  if String.ofList text == "!=" then "<>" else String.ofList text

theorem of_operator {x : Lexeme String} (h : operator cs = some x) :
    x.text = trimmed (operatorRun cs) ∧ x.text ≠ [] ∧ x.value = symbol x.text ∧
      x.rest = cs.drop x.text.length := by
  rw [operator] at h
  split at h
  · cases h
  · next run hrun =>
    cases h
    refine ⟨rfl, ?_, rfl, rfl⟩
    show (if _ then _ else _) ≠ _
    split
    · exact hrun
    · cases hcs : operatorRun cs with
      | nil => exact absurd hcs hrun
      | cons c rest => simp [dropSigns]

theorem splits_operator : operator.Splits := by
  intro cs x hx
  obtain ⟨htext, -, -, hrest⟩ := of_operator hx
  rw [hrest]
  exact eq_append_drop (isPrefix_operatorRun_iff.1 (htext ▸ trimmed_isPrefix _)).1

/-! ## Quoted text and identifiers -/

theorem splits_after {c : List Char} {x : Lexeme β}
    (h : ∀ y, scan cs = some y → cs = y.text ++ y.rest)
    (hx : ((scan cs).map fun y => (y.map f).after c) = some x) : c ++ cs = x.text ++ x.rest := by
  obtain ⟨y, hy, rfl⟩ := Option.map_eq_some_iff.1 hx
  show c ++ cs = (c ++ y.text) ++ y.rest
  rw [h y hy, append_assoc]

theorem splits_quoted (quote : Char) (escapes : Bool) : (quoted quote escapes).Splits := by
  intro cs
  fun_induction quoted quote escapes cs with
  | case1 => intro x hx; cases hx
  | case2 c hc => intro x hx; cases hx; rfl
  | case3 c d rest hc hd ih =>
    intro x hx
    exact splits_after ih hx
  | case4 c d rest hc hd => intro x hx; cases hx; rfl
  | case5 c hc he => intro x hx; cases hx
  | case6 c d rest hc he ih =>
    intro x hx
    exact splits_after ih hx
  | case7 c rest hc he ih =>
    intro x hx
    exact splits_after ih hx

/-- How a string starts. -/
theorem string_cases {y : Lexeme String} (h : string cs = some y) :
    (∃ rest z, cs = '\'' :: rest ∧ quoted '\'' false rest = some z ∧
      y = (z.map String.ofList).after ['\'']) ∨
    ∃ e rest z, cs = e :: '\'' :: rest ∧ (e == 'e' || e == 'E') = true ∧
      quoted '\'' true rest = some z ∧ y = (z.map String.ofList).after [e, '\''] := by
  rw [string.eq_def] at h
  split at h
  · next c rest =>
    split at h
    · next hc =>
      obtain ⟨z, hz, rfl⟩ := Option.map_eq_some_iff.1 h
      obtain rfl := eq_of_beq hc
      exact .inl ⟨rest, z, rfl, hz, rfl⟩
    · split at h
      · next d rest =>
        split at h
        · next hd =>
          rw [Bool.and_eq_true] at hd
          obtain ⟨z, hz, rfl⟩ := Option.map_eq_some_iff.1 h
          obtain rfl := eq_of_beq hd.2
          exact .inr ⟨c, rest, z, rfl, hd.1, hz, rfl⟩
        · cases h
      · cases h
  · cases h

theorem splits_string : string.Splits := by
  intro cs x hx
  rcases string_cases hx with ⟨rest, z, rfl, hz, rfl⟩ | ⟨e, rest, z, rfl, -, hz, rfl⟩
  · exact congrArg ('\'' :: ·) (splits_quoted _ _ rest z hz)
  · exact congrArg (e :: '\'' :: ·) (splits_quoted _ _ rest z hz)

theorem quotedIdentifier_cases {y : Lexeme String} (h : quotedIdentifier cs = some y) :
    ∃ rest z, cs = '"' :: rest ∧ quoted '"' false rest = some z ∧
      y = (z.map String.ofList).after ['"'] := by
  rw [quotedIdentifier.eq_def] at h
  split at h
  · next c rest =>
    split at h
    · next hc =>
      obtain ⟨z, hz, rfl⟩ := Option.map_eq_some_iff.1 h
      obtain rfl := eq_of_beq hc
      exact ⟨rest, z, rfl, hz, rfl⟩
    · cases h
  · cases h

theorem splits_quotedIdentifier : quotedIdentifier.Splits := by
  intro cs x hx
  obtain ⟨rest, z, rfl, hz, rfl⟩ := quotedIdentifier_cases hx
  exact congrArg ('"' :: ·) (splits_quoted _ _ rest z hz)

theorem identifier_cases {reserved : Bool} {x : Lexeme (String × Bool)}
    (h : identifier reserved cs = some x) :
    (∃ y, quotedIdentifier cs = some y ∧ x = y.map (·, true)) ∨
      ∃ y, word cs = some y ∧ x = y.map (Text.lower ·, false) := by
  rw [identifier] at h
  split at h
  · next y hy =>
    cases h
    exact .inl ⟨y, hy, rfl⟩
  · obtain ⟨y, hy, rfl⟩ := Option.map_eq_some_iff.1 h
    rw [unquotedIdentifier] at hy
    split at hy
    · cases hy
    · next z hz =>
      split at hy
      · cases hy
      · cases hy
        exact .inr ⟨z, hz, rfl⟩

theorem splits_identifier (reserved : Bool) : (identifier reserved).Splits := by
  intro cs x hx
  rcases identifier_cases hx with ⟨y, hy, rfl⟩ | ⟨y, hy, rfl⟩
  · exact splits_quotedIdentifier cs y hy
  · exact splits_word cs y hy

/-! ## Numbers and parameters -/

theorem fraction_isPrefix (cs : List Char) : fraction cs <+: cs := by
  fun_cases fraction cs with
  | case1 => exact nil_prefix
  | case2 rest => exact (prefix_cons_inj _).2 <| takeWhile_prefix _
  | case3 => exact nil_prefix

theorem append_isPrefix {a b : List Char} (ha : a <+: cs) (hb : b <+: cs.drop a.length) :
    a ++ b <+: cs := by
  obtain ⟨rest, rfl⟩ := ha
  rw [drop_left] at hb
  exact (prefix_append_right_inj a).2 hb

theorem exponent_isPrefix (cs : List Char) : exponent cs <+: cs := by
  cases cs with
  | nil => exact nil_prefix
  | cons e rest =>
    rw [exponent]
    split
    · have hsign : ((rest.take 1).filter fun c => c == '+' || c == '-') <+: rest := by
        cases rest with
        | nil => exact nil_prefix
        | cons c rest =>
          rw [take_succ_cons, take_zero, filter_cons]
          split
          · exact (prefix_cons_inj c).2 nil_prefix
          · exact nil_prefix
      simp only
      split
      · exact nil_prefix
      · next digits hdigits =>
        refine (prefix_cons_inj e).2 (append_isPrefix hsign ?_)
        exact takeWhile_prefix _
    · exact nil_prefix

theorem number_cases {x : Lexeme String} (h : number cs = some x) :
    x.value = String.ofList x.text ∧ cs = x.text ++ x.rest ∧ x.text ≠ [] := by
  rw [number] at h
  split at h
  · next hdigit =>
    cases h
    refine ⟨rfl, eq_append_drop (append_isPrefix (append_isPrefix ?_ (fraction_isPrefix _))
      (exponent_isPrefix _)), fun hnil => ?_⟩
    · exact takeWhile_prefix _
    rw [Bool.and_eq_true, (append_eq_nil_iff.1 hnil).1] at hdigit
    simp at hdigit
  · cases h

theorem splits_number : number.Splits := fun _ _ hx => (number_cases hx).2.1

/-- What a name stands after. -/
def Param.sigil (p : Param) : List Char := if p.spread then ['$', '$'] else ['$']

/-- What a name stands before. -/
def Param.mark (p : Param) : List Char := if p.required then ['!'] else []

/-- How a parameter is written. -/
def Param.text (p : Param) : List Char := p.sigil ++ p.name.toList ++ p.mark

theorem paramName_cases {spread : Bool} {sigil : List Char} {x : Lexeme Param}
    (hsigil : sigil = if spread then ['$', '$'] else ['$'])
    (hx : paramName spread sigil cs = some x) : sigil = x.value.sigil ∧ x.text = x.value.text ∧
      cs.head?.any isWordStart = true ∧ x.value.name.toList = cs.takeWhile isParamChar ∧
      x.value.mark ++ x.rest = cs.dropWhile isParamChar := by
  rw [paramName] at hx
  split at hx
  · next hstart =>
    split at hx
    · next rest hrest =>
      rw [hrest]
      split at hx <;> cases hx <;> simp [Param.text, Param.sigil, Param.mark, hsigil, hstart]
    · cases hx
      simp [Param.text, Param.sigil, Param.mark, hsigil, hstart]
  · cases hx

/-- The parts of a parameter. -/
theorem param_cases {x : Lexeme Param} (hx : param cs = some x) :
    ∃ rest, cs = x.value.sigil ++ rest ∧ x.text = x.value.text ∧
      rest.head?.any isWordStart = true ∧ x.value.name.toList = rest.takeWhile isParamChar ∧
      x.value.mark ++ x.rest = rest.dropWhile isParamChar := by
  rw [param.eq_def] at hx
  split at hx
  · next rest =>
    obtain ⟨hsigil, h⟩ := paramName_cases rfl hx
    exact ⟨rest, congrArg (· ++ rest) hsigil, h⟩
  · next rest _ =>
    obtain ⟨hsigil, h⟩ := paramName_cases rfl hx
    exact ⟨rest, congrArg (· ++ rest) hsigil, h⟩
  · cases hx

theorem splits_param : param.Splits := by
  intro cs x hx
  obtain ⟨rest, rfl, htext, -, hname, hrest⟩ := param_cases hx
  rw [htext, Param.text, append_assoc, append_assoc, hrest, hname, takeWhile_append_dropWhile]

/-! ## Lexemes are not empty -/

theorem proper_keyword {word : String} (hword : word ≠ "") : (keyword word).Proper := by
  intro cs x hx
  obtain ⟨start, rest, -, hstart, -, rfl⟩ := keyword_eq_some_iff.1 hx
  rintro rfl
  exact hword (by simpa using hstart.symm)

theorem isWordChar_of_isWordStart (h : isWordStart c = true) : isWordChar c = true := by
  simp only [isWordStart, isWordChar, Char.isAlphanum, Bool.or_eq_true] at h ⊢
  rcases h with (h | h) | h
  · exact .inl (.inl (.inl (.inl h)))
  · exact .inl (.inl (.inr h))
  · exact .inr h

theorem proper_word : word.Proper := by
  intro cs x hx
  obtain ⟨hstart, rfl⟩ := word_cases hx
  cases cs with
  | nil => simp at hstart
  | cons c cs =>
    have hc : isWordChar c = true := isWordChar_of_isWordStart (by simpa using hstart)
    simp [hc]

theorem proper_punctuation {mark : String} (hmark : mark ≠ "") : (punctuation mark).Proper := by
  intro cs x hx
  obtain ⟨rest, -, rfl⟩ := punctuation_cases hx
  exact mt String.toList_eq_nil_iff.1 hmark

theorem proper_operator : operator.Proper := fun _ _ hx => (of_operator hx).2.1

theorem proper_string : string.Proper := by
  intro cs x hx
  rcases string_cases hx with ⟨rest, z, -, -, rfl⟩ | ⟨e, rest, z, -, -, -, rfl⟩
  · exact cons_ne_nil _ _
  · exact cons_ne_nil _ _

theorem proper_quotedIdentifier : quotedIdentifier.Proper := by
  intro cs x hx
  obtain ⟨rest, z, -, -, rfl⟩ := quotedIdentifier_cases hx
  exact cons_ne_nil _ _

theorem proper_identifier (reserved : Bool) : (identifier reserved).Proper := by
  intro cs x hx
  rcases identifier_cases hx with ⟨y, hy, rfl⟩ | ⟨y, hy, rfl⟩
  · exact proper_quotedIdentifier cs y hy
  · exact proper_word cs y hy

theorem proper_number : number.Proper := fun _ _ hx => (number_cases hx).2.2

theorem proper_param : param.Proper := by
  intro cs x hx
  obtain ⟨rest, -, htext, -⟩ := param_cases hx
  rw [htext, Param.text, Param.sigil]
  split <;> exact cons_ne_nil _ _

end Lexeme

end SqlTyping
