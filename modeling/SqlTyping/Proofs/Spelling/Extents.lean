import SqlTyping.Proofs.Syntax.Rule

/-!
# Texts that are equal up to case

Words, numbers and parameters are scanned without a look beyond the next trivia, and what is scanned
is as long in any case of letters. So two texts that are equal up to case as far as the next trivia
(`Near`) have the same extents scanned.
-/

namespace SqlTyping

open List

variable {as bs : List Char} {p : Char → Bool}

namespace Lexeme

variable {cs ds : List Char}

/-! ## Trivia -/

/-- What comes after trivia. -/
def skip (cs : List Char) : List Char := (Mark.mk cs 0).skipTrivia.rest

/-- Is there trivia at the start? -/
def startsTrivia (cs : List Char) : Bool := cs.head?.any Text.isSpace || startsComment cs

theorem rest_skipFrom (t : Trivia) (cs : List Char) (n k : Nat) :
    (Mark.skipFrom t n cs).rest = (Mark.skipFrom t k cs).rest := by
  fun_induction Mark.skipFrom t n cs generalizing k with
  | case1 => simp [Mark.skipFrom]
  | case2 n rest ih => simpa [Mark.skipFrom] using ih _
  | case3 n rest ih => simpa [Mark.skipFrom] using ih _
  | case4 n c rest h₁ h₂ hs ih => rw [Mark.skipFrom, if_pos hs]; exact ih _; all_goals assumption
  | case5 n c rest h₁ h₂ hs => rw [Mark.skipFrom, if_neg hs]; all_goals assumption
  | case6 n c rest ih => rw [Mark.skipFrom]; exact ih _
  | case7 outer n rest ih => simpa [Mark.skipFrom] using ih _
  | case8 n rest ih => simpa [Mark.skipFrom] using ih _
  | case9 outer n rest ih => simpa [Mark.skipFrom] using ih _
  | case10 outer n c rest h₁ h₂ h₃ ih => rw [Mark.skipFrom]; exact ih _; all_goals assumption

theorem rest_skipTrivia (m : Mark) : m.skipTrivia.rest = skip m.rest := rest_skipFrom _ _ _ _

theorem skip_isSuffix (cs : List Char) : skip cs <:+ cs := Mark.skipTrivia_isSuffix _

theorem startsTrivia_skipFrom (t : Trivia) (n : Nat) (cs : List Char) :
    startsTrivia (Mark.skipFrom t n cs).rest = false := by
  fun_induction Mark.skipFrom t n cs with
  | case1 => rfl
  | case5 n c rest h₁ h₂ hs =>
    have hcomment : startsComment (c :: rest) = false := Bool.eq_false_iff.2 fun h => by
      obtain ⟨_, heq | heq⟩ := startsComment_iff.1 h <;> cases heq
      · exact h₁ _ rfl rfl
      · exact h₂ _ rfl rfl
    simp [startsTrivia, hcomment, hs]
  | _ => assumption

@[simp] theorem startsTrivia_skip (cs : List Char) : startsTrivia (skip cs) = false :=
  startsTrivia_skipFrom _ _ _

theorem skipTrivia_eq_self {m : Mark} (h : startsTrivia m.rest = false) : m.skipTrivia = m := by
  obtain ⟨rest, offset⟩ := m
  cases rest with
  | nil => rfl
  | cons c rest =>
    rw [startsTrivia, Bool.or_eq_false_iff] at h
    exact (Mark.skipFrom_cons h.2 offset).trans (if_neg (by simpa using h.1))

theorem skip_eq_self (h : startsTrivia cs = false) : skip cs = cs :=
  congrArg Mark.rest (skipTrivia_eq_self (m := ⟨cs, 0⟩) h)

theorem skip_skip (cs : List Char) : skip (skip cs) = skip cs := skip_eq_self (startsTrivia_skip cs)

/-! ## Texts that are equal up to case as far as the next trivia -/

/-- Is there no lexeme right here? -/
def stops (cs : List Char) : Bool := cs.isEmpty || startsTrivia cs

end Lexeme

open Lexeme

/-- Up to the next trivia the texts are the same, apart from the case of letters. -/
inductive Near : List Char → List Char → Prop
  | stop {cs ds : List Char} (hc : stops cs = true) (hd : stops ds = true)
      (hcomment : startsComment ds = false) : Near cs ds
  | cons {c d : Char} {cs ds : List Char} (h : c.toLower = d.toLower) (hr : Near cs ds) :
      Near (c :: cs) (d :: ds)

/-- Does the property neither depend on case nor hold of characters that trivia starts with? -/
structure Steady (p : Char → Bool) : Prop where
  fold : ∀ c d : Char, c.toLower = d.toLower → p c = p d
  space : ∀ c, Text.isSpace c = true → p c = false
  dash : p '-' = false
  slash : p '/' = false

namespace Steady

theorem toLower_eq_iff {c d : Char} (h : c.toLower = d.toLower) :
    c = d ∨ c.isAlpha = true ∧ d.isAlpha = true := by
  have halpha : c.isAlpha = d.isAlpha := by
    rw [← Text.isAlpha_toLower c, h, Text.isAlpha_toLower]
  cases hc : c.isAlpha with
  | true => exact .inr ⟨rfl, by rw [← halpha, hc]⟩
  | false =>
    have hupper : ∀ {x : Char}, x.isAlpha = false → x.isUpper = false := by
      intro x hx
      cases hu : x.isUpper with
      | false => rfl
      | true => rw [Text.isAlpha_iff.2 (.inl hu)] at hx; cases hx
    rw [Text.toLower_eq_self (hupper hc), Text.toLower_eq_self (hupper (halpha ▸ hc))] at h
    exact .inl h

/-- What is the same for all letters does not depend on case. -/
theorem eq_of_letters {β : Type} {f : Char → β} {b : β} (h : ∀ c, c.isAlpha = true → f c = b)
    {c d : Char} (hcd : c.toLower = d.toLower) : f c = f d := by
  rcases toLower_eq_iff hcd with rfl | ⟨hc, hd⟩
  · rfl
  · rw [h c hc, h d hd]

/-- A property that all letters share, or none of them. -/
theorem ofLetters (b : Bool) (h : ∀ c, c.isAlpha = true → p c = b)
    (space : ∀ c, Text.isSpace c = true → p c = false) (dash : p '-' = false)
    (slash : p '/' = false) : Steady p where
  fold _ _ hcd := eq_of_letters h hcd
  space := space
  dash := dash
  slash := slash

theorem eq_false_of_isSpace
    (h : [' ', '\t', '\n', '\x0c', '\r'].all (fun c => !p c) = true) (c : Char)
    (hc : Text.isSpace c = true) : p c = false := by
  have hmem : c ∈ [' ', '\t', '\n', '\x0c', '\r'] := by
    simpa [Text.isSpace, or_assoc] using hc
  simpa using all_eq_true.1 h c hmem

theorem char (k : Char)
    (h : k.isAlpha = false ∧ Text.isSpace k = false ∧ k ≠ '-' ∧ k ≠ '/') : Steady (· == k) := by
  obtain ⟨hk, hspace, hdash, hslash⟩ := h
  refine ofLetters false (fun c hc => ?_) (fun c hc => ?_) ?_ ?_
  · rw [beq_eq_false_iff_ne]
    rintro rfl
    rw [hk] at hc
    cases hc
  · rw [beq_eq_false_iff_ne]
    rintro rfl
    rw [hspace] at hc
    cases hc
  · rw [beq_eq_false_iff_ne]; exact hdash.symm
  · rw [beq_eq_false_iff_ne]; exact hslash.symm

theorem isDigit : Steady Char.isDigit := by
  refine ofLetters false (fun c hc => ?_) (eq_false_of_isSpace rfl) rfl rfl
  rw [← Bool.not_eq_true]
  intro hd
  rw [Text.isAlpha_of_isDigit hd] at hc
  cases hc

theorem isWordStart : Steady isWordStart :=
  ofLetters true (fun c hc => by simp [Lexeme.isWordStart, hc]) (eq_false_of_isSpace rfl)
    rfl rfl

theorem isWordChar : Steady isWordChar :=
  ofLetters true (fun c hc => by simp [Lexeme.isWordChar, Char.isAlphanum, hc])
    (eq_false_of_isSpace rfl) rfl rfl

theorem isParamChar : Steady isParamChar :=
  ofLetters true (fun c hc => by simp [Lexeme.isParamChar, Char.isAlphanum, hc])
    (eq_false_of_isSpace rfl) rfl rfl

/-- None of the places where texts stop has the property. -/
theorem head_of_stops (hp : Steady p) (h : stops cs = true) :
    cs.head?.any p = false := by
  cases cs with
  | nil => rfl
  | cons c cs =>
    simp only [stops, startsTrivia, isEmpty_cons, Bool.false_or, Bool.or_eq_true,
      head?_cons, Option.any_some] at h ⊢
    rcases h with hspace | hcomment
    · exact hp.space c hspace
    · obtain ⟨_, heq | heq⟩ := startsComment_iff.1 hcomment <;> cases heq
      · exact hp.dash
      · exact hp.slash

theorem map (hp : Steady p)
    (h : as.map Char.toLower = bs.map Char.toLower) : as.map p = bs.map p := by
  induction as generalizing bs with
  | nil => rw [map_eq_nil_iff.1 h.symm]
  | cons a as ih =>
    cases bs with
    | nil => cases h
    | cons b bs =>
      obtain ⟨hhead, htail⟩ := List.cons.inj h
      rw [map_cons, map_cons, hp.fold a b hhead, ih htail]

theorem any (hp : Steady p)
    (h : as.map Char.toLower = bs.map Char.toLower) : as.any p = bs.any p := by
  simpa using congrArg (List.any · id) (hp.map h)

theorem all (hp : Steady p)
    (h : as.map Char.toLower = bs.map Char.toLower) : as.all p = bs.all p := by
  simpa using congrArg (List.all · id) (hp.map h)

end Steady

namespace Near

variable {cs ds : List Char}

theorem head (h : Near cs ds) (hp : Steady p) : cs.head?.any p = ds.head?.any p := by
  cases h with
  | stop hc hd _ => rw [hp.head_of_stops hc, hp.head_of_stops hd]
  | cons hcd _ => exact hp.fold _ _ hcd

theorem append (hab : as.map Char.toLower = bs.map Char.toLower)
    (h : Near cs ds) : Near (as ++ cs) (bs ++ ds) := by
  induction as generalizing bs with
  | nil => rw [map_eq_nil_iff.1 hab.symm]; exact h
  | cons a as ih =>
    cases bs with
    | nil => cases hab
    | cons b bs =>
      obtain ⟨hhead, htail⟩ := List.cons.inj hab
      exact .cons hhead (ih htail)

/-- A text that starts like one without trivia has none. -/
theorem startsTrivia_eq_false (h : Near cs ds) (hne : cs ≠ []) (hc : startsTrivia cs = false) :
    startsTrivia ds = false := by
  cases h with
  | stop hs _ _ => simp [stops, hne, hc] at hs
  | @cons c d cs ds hcd hr =>
    rw [startsTrivia, Bool.or_eq_false_iff] at hc ⊢
    obtain ⟨hspace, hcomment⟩ := hc
    have hsame : c = d ∨ d.isAlpha = true := (Steady.toLower_eq_iff hcd).imp_right And.right
    constructor
    · rcases hsame with rfl | hd
      · exact hspace
      · cases hs : Text.isSpace d with
        | false => exact hs
        | true =>
          rw [Steady.eq_false_of_isSpace (p := Char.isAlpha) rfl d hs] at hd
          cases hd
    · rw [startsComment.eq_def]
      split
      -- the two characters that a comment starts with are no letters
      case' h_1 | h_2 =>
        next rest heq =>
        cases heq
        obtain rfl := hsame.resolve_right (by decide)
        cases hr with
        | stop _ hs hnone => simp [stops, startsTrivia, hnone] at hs; exact absurd hs (by decide)
        | @cons e _ es _ he _ =>
          rcases Steady.toLower_eq_iff he with rfl | ⟨_, h⟩
          · cases hcomment
          · cases h
      rfl

end Near

/-- A run of operator characters ends before trivia. -/
theorem operatorRun_of_startsTrivia (h : startsTrivia cs = true) : operatorRun cs = [] := by
  cases cs with
  | nil => rfl
  | cons c cs =>
    rw [startsTrivia, Bool.or_eq_true] at h
    rw [operatorRun, if_neg]
    rw [Bool.and_eq_true, Bool.not_eq_true']
    rintro ⟨hc, hcomment⟩
    rcases h with hspace | h
    · rw [Steady.eq_false_of_isSpace (p := isOperatorChar) rfl c hspace] at hc
      cases hc
    · rw [h] at hcomment
      cases hcomment

/-- A start of the text that does not depend on case, nor on what comes after trivia. -/
def StableStart (start : List Char → List Char) : Prop :=
  ∀ cs ds, Near cs ds → (start cs).map Char.toLower = (start ds).map Char.toLower ∧
    Near (cs.drop (start cs).length) (ds.drop (start ds).length)

namespace StableStart

theorem takeWhile (hp : Steady p) : StableStart (List.takeWhile p) := by
  intro cs ds h
  induction h with
  | @stop cs ds hc hd hcomment =>
    have hnil : ∀ {as : List Char}, stops as = true → as.takeWhile p = [] := by
      intro as ha
      cases as with
      | nil => rfl
      | cons a as =>
        have hhead : p a = false := hp.head_of_stops ha
        rw [takeWhile_cons_of_neg (by simp [hhead])]
    rw [hnil hc, hnil hd]
    exact ⟨rfl, .stop hc hd hcomment⟩
  | @cons c d cs ds hcd hr ih =>
    rw [takeWhile_cons, takeWhile_cons, hp.fold c d hcd]
    cases p d with
    | true => exact ⟨cons_eq_cons.2 ⟨hcd, ih.1⟩, ih.2⟩
    | false => exact ⟨rfl, .cons hcd hr⟩

theorem append {first second : List Char → List Char} (h₁ : StableStart first)
    (h₂ : StableStart second) :
    StableStart fun cs => first cs ++ second (cs.drop (first cs).length) := by
  intro cs ds h
  obtain ⟨hfirst, hrest⟩ := h₁ cs ds h
  obtain ⟨hsecond, hlast⟩ := h₂ _ _ hrest
  refine ⟨by rw [map_append, map_append, hfirst, hsecond], ?_⟩
  simpa only [length_append, drop_drop, Nat.add_comm] using hlast

theorem dot : Steady (· == '.') := Steady.char '.' (by decide)

theorem fraction : StableStart fraction := by
  have hnone : ∀ {as : List Char}, as.head?.any (· == '.') = false → Lexeme.fraction as = [] := by
    intro as ha
    rw [Lexeme.fraction.eq_def]
    split
    · cases ha
    · cases ha
    · rfl
  intro cs ds h
  have hhead := h.head dot
  cases hc : cs.head?.any (· == '.') with
  | false =>
    rw [hnone hc, hnone (hhead ▸ hc)]
    exact ⟨rfl, h⟩
  | true =>
    cases h with
    | stop hs _ _ => rw [dot.head_of_stops hs] at hc; cases hc
    | @cons c d cs ds hcd hr =>
      obtain rfl : c = '.' := by simpa using hc
      obtain rfl : d = '.' := by simpa using hhead.symm.trans hc
      have hsecond := hr.head dot
      cases hc₂ : cs.head?.any (· == '.') with
      | true =>
        have htwo : ∀ {as : List Char}, as.head?.any (· == '.') = true →
            Lexeme.fraction ('.' :: as) = [] := by
          intro as ha
          cases as with
          | nil => cases ha
          | cons a as => obtain rfl : a = '.' := by simpa using ha
                         rfl
        rw [htwo hc₂, htwo (hsecond ▸ hc₂)]
        exact ⟨rfl, .cons rfl hr⟩
      | false =>
        have hone : ∀ {as : List Char}, as.head?.any (· == '.') = false →
            Lexeme.fraction ('.' :: as) = '.' :: as.takeWhile Char.isDigit := by
          intro as ha
          cases as with
          | nil => rfl
          | cons a as =>
            have hne : a ≠ '.' := by simpa using ha
            rw [Lexeme.fraction.eq_def]
            split
            · next heq => cases heq; exact absurd rfl hne
            · next heq => cases heq; rfl
            · next h₁ h₂ => exact absurd rfl (h₂ _)
        rw [hone hc₂, hone (hsecond ▸ hc₂)]
        obtain ⟨htext, hrest⟩ := takeWhile Steady.isDigit cs ds hr
        exact ⟨congrArg (List.cons _) htext, hrest⟩

theorem isExponent : Steady fun c => c == 'e' || c == 'E' := by
  have hlower : ∀ c : Char, (c == 'e' || c == 'E') = (c.toLower == 'e') := by
    intro c
    cases hu : c.isUpper with
    | false =>
      rw [Text.toLower_eq_self hu]
      cases hE : c == 'E' with
      | false => rw [Bool.or_false]
      | true => rw [eq_of_beq hE] at hu; cases hu
    | true =>
      have hnat := Text.toNat_toLower hu
      have hrange := Text.isUpper_iff.1 hu
      rw [Bool.eq_iff_iff, Bool.or_eq_true, beq_iff_eq, beq_iff_eq, beq_iff_eq]
      constructor
      · rintro (rfl | rfl) <;> rfl
      · intro h
        rw [h, show 'e'.toNat = 101 from rfl] at hnat
        exact .inr (Char.toNat_inj.1 (by show c.toNat = 69; omega))
  refine ⟨fun c d hcd => ?_, Steady.eq_false_of_isSpace rfl, rfl, rfl⟩
  show (c == 'e' || c == 'E') = (d == 'e' || d == 'E')
  rw [hlower, hlower, hcd]

/-- The character stands before the start if there is one. -/
def leading (start : List Char → List Char) (c : Char) (cs : List Char) : List Char :=
  match start cs with
  | [] => []
  | found => c :: found

theorem led {start : List Char → List Char} (h : StableStart start) {c d : Char}
    (hcd : c.toLower = d.toLower) (hr : Near cs ds) :
    (leading start c cs).map Char.toLower = (leading start d ds).map Char.toLower ∧
      Near ((c :: cs).drop (leading start c cs).length)
        ((d :: ds).drop (leading start d ds).length) := by
  obtain ⟨htext, hrest⟩ := h cs ds hr
  unfold leading
  cases hds : start ds with
  | nil =>
    rw [hds] at htext
    rw [map_eq_nil_iff.1 htext]
    exact ⟨rfl, .cons hcd hr⟩
  | cons b bs =>
    rw [hds] at htext hrest
    cases hcs : start cs with
    | nil => rw [hcs] at htext; cases htext
    | cons a as =>
      rw [hcs] at htext hrest
      exact ⟨cons_eq_cons.2 ⟨hcd, htext⟩, hrest⟩

/-- The sign of an exponent. -/
def sign (cs : List Char) : List Char := (cs.take 1).filter fun c => c == '+' || c == '-'

/-- The sign and digits of an exponent, if there are digits. -/
def signedDigits (cs : List Char) : List Char :=
  match (cs.drop (sign cs).length).takeWhile Char.isDigit with
  | [] => []
  | digits => sign cs ++ digits

theorem signedDigits_of_stops (h : stops cs = true) : signedDigits cs = [] := by
  cases cs with
  | nil => rfl
  | cons c cs =>
    simp only [stops, startsTrivia, isEmpty_cons, Bool.false_or, Bool.or_eq_true,
      head?_cons, Option.any_some] at h
    rcases h with hspace | hcomment
    · have hsign : (c == '+' || c == '-') = false :=
        Steady.eq_false_of_isSpace (p := fun c => c == '+' || c == '-') rfl c hspace
      have hdigit := Steady.isDigit.space c hspace
      simp [signedDigits, sign, hsign, hdigit]
    · obtain ⟨_, heq | heq⟩ := startsComment_iff.1 hcomment <;> cases heq <;> rfl

theorem signedDigits_cons (c : Char) (cs : List Char) : signedDigits (c :: cs) =
    if c == '+' || c == '-' then leading (List.takeWhile Char.isDigit) c cs
    else (c :: cs).takeWhile Char.isDigit := by
  cases hc : c == '+' || c == '-' with
  | true => simp [signedDigits, sign, leading, hc]
  | false =>
    simp only [signedDigits, sign, take_succ_cons, take_zero, filter_cons, hc,
      filter_nil, Bool.false_eq_true, if_false, length_nil, drop_zero,
      nil_append]
    split
    · next heq => exact heq.symm
    · rfl

theorem signedDigits_stable : StableStart signedDigits := by
  intro cs ds h
  cases h with
  | stop hc hd hcomment =>
    rw [signedDigits_of_stops hc, signedDigits_of_stops hd]
    exact ⟨rfl, .stop hc hd hcomment⟩
  | @cons c d cs ds hcd hr =>
    have hsign : (c == '+' || c == '-') = (d == '+' || d == '-') := by
      rcases Steady.toLower_eq_iff hcd with rfl | ⟨hc, hd⟩
      · rfl
      · have hletter : ∀ x : Char, x.isAlpha = true → (x == '+' || x == '-') = false := by
          intro x hx
          rw [Bool.or_eq_false_iff, beq_eq_false_iff_ne, beq_eq_false_iff_ne]
          constructor <;> (rintro rfl; cases hx)
        rw [hletter c hc, hletter d hd]
    rw [signedDigits_cons, signedDigits_cons, hsign]
    cases d == '+' || d == '-' with
    | false => exact takeWhile Steady.isDigit _ _ (.cons hcd hr)
    | true => exact (takeWhile Steady.isDigit).led hcd hr

theorem exponent_cons (e : Char) (cs : List Char) : Lexeme.exponent (e :: cs) =
    if e == 'e' || e == 'E' then leading signedDigits e cs else [] := by
  rw [Lexeme.exponent, leading, signedDigits]
  show (if _ then (match (cs.drop (sign cs).length).takeWhile Char.isDigit with
    | [] => []
    | digits => e :: sign cs ++ digits) else []) = _
  cases (cs.drop (sign cs).length).takeWhile Char.isDigit with
  | nil => rfl
  | cons d ds =>
    cases hsign : sign cs with
    | nil => rfl
    | cons a as => rfl

theorem exponent : StableStart exponent := by
  intro cs ds h
  cases h with
  | @stop cs ds hc hd hcomment =>
    have hnil : ∀ {as : List Char}, stops as = true → Lexeme.exponent as = [] := by
      intro as ha
      cases as with
      | nil => rfl
      | cons a as =>
        have hhead : (a == 'e' || a == 'E') = false := isExponent.head_of_stops ha
        rw [exponent_cons, hhead]
        rfl
    rw [hnil hc, hnil hd]
    exact ⟨rfl, .stop hc hd hcomment⟩
  | @cons c d cs ds hcd hr =>
    rw [exponent_cons, exponent_cons, show _ = (d == 'e' || d == 'E') from isExponent.fold c d hcd]
    cases d == 'e' || d == 'E' with
    | false => exact ⟨rfl, .cons hcd hr⟩
    | true => exact signedDigits_stable.led hcd hr

end StableStart

/-! ## Scanners that only look as far as the next trivia -/

/-- What was scanned is as long in both texts, and was scanned in both or in none. -/
inductive SameExtent {α : Type} : Option (Lexeme α) → Option (Lexeme α) → Prop
  | none : SameExtent none none
  | some {x y : Lexeme α} (h : x.text.length = y.text.length) : SameExtent (some x) (some y)

theorem Near.word (h : Near cs ds) : SameExtent (word cs) (word ds) := by
  rw [Lexeme.word, Lexeme.word, h.head Steady.isWordStart]
  cases ds.head?.any isWordStart with
  | false => exact .none
  | true =>
    have htext := (StableStart.takeWhile Steady.isWordChar cs ds h).1
    exact .some (by simpa using congrArg List.length htext)

theorem Near.number (h : Near cs ds) : SameExtent (number cs) (number ds) := by
  have hdecimal := (StableStart.takeWhile Steady.isDigit).append StableStart.fraction
  obtain ⟨hdigits, -⟩ := hdecimal cs ds h
  obtain ⟨htext, hrest⟩ := hdecimal.append StableStart.exponent cs ds h
  rw [Lexeme.number, Lexeme.number]
  dsimp only at hdigits htext hrest ⊢
  rw [Steady.isDigit.any hdigits, hrest.head Steady.isWordStart]
  split
  · exact .some (by simpa using congrArg List.length htext)
  · exact .none

theorem drop_takeWhile (p : Char → Bool) (cs : List Char) :
    cs.drop (cs.takeWhile p).length = cs.dropWhile p := by
  rw [show cs.drop (cs.takeWhile p).length =
    (cs.takeWhile p ++ cs.dropWhile p).drop (cs.takeWhile p).length by
      rw [takeWhile_append_dropWhile], drop_left]

/-- A name without an exclamation mark after it. -/
theorem paramName_plain (spread : Bool) (sigil : List Char) (h : cs.head?.any isWordStart = true)
    (hrest : (cs.dropWhile isParamChar).head?.any (· == '!') = false) :
    paramName spread sigil cs = some ⟨⟨String.ofList (cs.takeWhile isParamChar), spread, false⟩,
      sigil ++ cs.takeWhile isParamChar, cs.dropWhile isParamChar⟩ := by
  rw [paramName, if_pos h]
  dsimp only
  split
  · next heq => rw [heq] at hrest; cases hrest
  · rfl

theorem paramName_bang {rest : List Char} (spread : Bool) (sigil : List Char)
    (h : cs.head?.any isWordStart = true) (hrest : cs.dropWhile isParamChar = '!' :: rest) :
    paramName spread sigil cs = if rest.head?.any (· == '=') then
      some ⟨⟨String.ofList (cs.takeWhile isParamChar), spread, false⟩,
        sigil ++ cs.takeWhile isParamChar, '!' :: rest⟩
      else some ⟨⟨String.ofList (cs.takeWhile isParamChar), spread, true⟩,
        sigil ++ cs.takeWhile isParamChar ++ ['!'], rest⟩ := by
  rw [paramName, if_pos h, hrest]
  rfl

theorem Near.paramName (h : Near cs ds) (spread : Bool) (sigil : List Char) :
    SameExtent (paramName spread sigil cs) (paramName spread sigil ds) := by
  obtain ⟨htext, hrest⟩ := StableStart.takeWhile Steady.isParamChar cs ds h
  rw [drop_takeWhile, drop_takeWhile] at hrest
  have hlength : (cs.takeWhile isParamChar).length = (ds.takeWhile isParamChar).length := by
    simpa using congrArg List.length htext
  have hbang : Steady (· == '!') := Steady.char '!' (by decide)
  have hequal : Steady (· == '=') := Steady.char '=' (by decide)
  have hstart := h.head Steady.isWordStart
  cases hd : ds.head?.any isWordStart with
  | false =>
    rw [Lexeme.paramName, Lexeme.paramName, hstart, hd]
    exact .none
  | true =>
    rw [hd] at hstart
    have hhead := hrest.head hbang
    cases hdb : (ds.dropWhile isParamChar).head?.any (· == '!') with
    | false =>
      rw [paramName_plain spread sigil hstart (hhead.trans hdb), paramName_plain spread sigil hd hdb]
      exact .some (by simp [hlength])
    | true =>
      rw [hdb] at hhead
      generalize hcs : cs.dropWhile isParamChar = crest at hrest hhead
      generalize hds : ds.dropWhile isParamChar = drest at hrest hdb
      cases hrest with
      | stop hs _ _ => rw [hbang.head_of_stops hs] at hhead; cases hhead
      | @cons c d crest drest _ hr =>
        obtain rfl : c = '!' := by simpa using hhead
        obtain rfl : d = '!' := by simpa using hdb
        rw [paramName_bang spread sigil hstart hcs, paramName_bang spread sigil hd hds,
          hr.head hequal]
        split
        · exact .some (by simp [hlength])
        · exact .some (by simp [hlength])

theorem Near.param (h : Near cs ds) : SameExtent (param cs) (param ds) := by
  have hdollar : Steady (· == '$') := Steady.char '$' (by decide)
  have hnone : ∀ {as : List Char}, as.head?.any (· == '$') = false → Lexeme.param as = none := by
    intro as ha
    rw [Lexeme.param.eq_def]
    split
    · cases ha
    · cases ha
    · rfl
  have hone : ∀ {as : List Char}, as.head?.any (· == '$') = false →
      Lexeme.param ('$' :: as) = Lexeme.paramName false ['$'] as := by
    intro as ha
    rw [Lexeme.param.eq_def]
    split
    · next heq => cases heq; cases ha
    · next heq => cases heq; rfl
    · next hne => exact absurd rfl (hne as)
  cases h with
  | @stop cs ds hc hd _ =>
    rw [hnone (hdollar.head_of_stops hc), hnone (hdollar.head_of_stops hd)]
    exact .none
  | @cons c d cs ds hcd hr =>
    have hhead : (c == '$') = (d == '$') := hdollar.fold c d hcd
    cases hd : d == '$' with
    | false =>
      rw [@hnone (c :: cs) (by simpa [hd] using hhead), @hnone (d :: ds) (by simpa using hd)]
      exact .none
    | true =>
      obtain rfl := eq_of_beq hd
      obtain rfl := eq_of_beq (hhead.trans hd)
      have hsecond := hr.head hdollar
      cases hds : ds.head?.any (· == '$') with
      | false =>
        rw [hone (hsecond.trans hds), hone hds]
        exact hr.paramName false _
      | true =>
        rw [hds] at hsecond
        cases hr with
        | stop hs _ _ => rw [hdollar.head_of_stops hs] at hsecond; cases hsecond
        | @cons c d cs ds _ hr =>
          obtain rfl : c = '$' := by simpa using hsecond
          obtain rfl : d = '$' := by simpa using hds
          exact hr.paramName true _

/-- What a parameter says, read off its text. -/
def paramOf (text : List Char) : Lexeme.Param :=
  ⟨String.ofList (text.filter isParamChar), (text.filter (· == '$')).length == 2, text.contains '!'⟩

theorem paramOf_append (sigil name stop : List Char) (hsigil : sigil.all (· == '$') = true)
    (hname : name.all isParamChar = true) (hstop : stop.all (· == '!') = true) :
    paramOf (sigil ++ name ++ stop) = ⟨String.ofList name, sigil.length == 2, !stop.isEmpty⟩ := by
  have hfilter : ∀ (as : List Char) (p q : Char → Bool), as.all q = true →
      (∀ c, q c = true → p c = false) → as.filter p = [] := by
    intro as p q has hpq
    rw [filter_eq_nil_iff]
    intro c hc
    simp [hpq c (all_eq_true.1 has c hc)]
  have hself : ∀ (as : List Char) (p : Char → Bool), as.all p = true → as.filter p = as :=
    fun as p has => filter_eq_self.2 (all_eq_true.1 has)
  simp only [paramOf, filter_append, Lexeme.Param.mk.injEq]
  refine ⟨?_, ?_, ?_⟩
  · rw [hfilter sigil _ _ hsigil (fun c hc => by rw [eq_of_beq hc]; decide), hself name _ hname,
      hfilter stop _ _ hstop (fun c hc => by rw [eq_of_beq hc]; decide)]
    simp
  · rw [hself sigil _ hsigil, hfilter name _ _ hname (fun c hc => ?_),
      hfilter stop _ _ hstop (fun c hc => by rw [eq_of_beq hc]; decide)]
    · simp
    · rw [beq_eq_false_iff_ne]
      rintro rfl
      cases hc
  · rw [contains_eq_mem, Bool.eq_iff_iff, decide_eq_true_iff]
    have hsigil' : '!' ∉ sigil := fun hmem => by
      have := all_eq_true.1 hsigil _ hmem
      cases this
    have hname' : '!' ∉ name := fun hmem => by
      have := all_eq_true.1 hname _ hmem
      cases this
    rw [mem_append, mem_append]
    cases stop with
    | nil => simp [hsigil', hname']
    | cons c cs =>
      rw [all_cons, Bool.and_eq_true, beq_iff_eq] at hstop
      simp [hstop.1]

theorem param_value {x : Lexeme Lexeme.Param} (h : param cs = some x) :
    x.value = paramOf x.text := by
  obtain ⟨rest, -, htext, -, hname, -⟩ := param_cases h
  rw [htext, Param.text, paramOf_append]
  · obtain ⟨⟨name, spread, required⟩, _, _⟩ := x
    cases spread <;> cases required <;> simp [Param.sigil, Param.mark]
  · rw [Param.sigil]; split <;> rfl
  · rw [hname]; exact all_takeWhile
  · rw [Param.mark]; split <;> rfl

end SqlTyping
