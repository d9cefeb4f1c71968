import SqlTyping.Proofs.Syntax.Rule

/-!
# Rules on tokens with spaces between them

`unwords` writes tokens with one space between them, and `Cursor.Before` says that such a text is
what is left of the input. `Rule.Ends` is how a rule ends on every cursor that stands before given
tokens. A rule accepts tokens if it succeeds and leads to later ones, and it refuses them if it
fails; there is one lemma for each combinator.
-/

namespace SqlTyping

open List

variable {α β : Type} {item : Rule (Option α)} {rules : List (Rule α)} {tokens : List String}
  {scan : Scanner α} {token label : String} {c : Cursor}

/-! ## Tokens -/

/-- The tokens, each after a space. -/
def spaced : List String → List Char
  | [] => []
  | token :: tokens => ' ' :: (token.toList ++ spaced tokens)

/-- The tokens with a space between them. -/
def unwords : List String → List Char
  | [] => []
  | token :: tokens => token.toList ++ spaced tokens

/-- A token that is not empty and is not taken for a blank or a comment. -/
def isSolid (token : String) : Bool :=
  match token.toList with
  | [] => false
  | c :: rest => !Text.isSpace c && !Lexeme.startsComment (c :: rest)

theorem isSolid_iff : isSolid token = true ↔ ∃ c rest, token.toList = c :: rest ∧
    Text.isSpace c = false ∧ Lexeme.startsComment (c :: rest) = false := by
  rw [isSolid]
  split
  · next hnil => simp [hnil]
  · next c rest hcons =>
    rw [hcons, Bool.and_eq_true, Bool.not_eq_true', Bool.not_eq_true']
    constructor
    · intro h
      exact ⟨c, rest, rfl, h⟩
    · rintro ⟨_, _, hcons', h⟩
      cases hcons'
      exact h

theorem spaced_eq_nil_or_cons (tokens : List String) :
    spaced tokens = [] ∨ ∃ rest, spaced tokens = ' ' :: rest := by
  cases tokens with
  | nil => exact .inl rfl
  | cons token tokens => exact .inr ⟨_, rfl⟩

theorem toList_intercalate_space (tokens : List String) :
    (" ".intercalate tokens).toList = unwords tokens := by
  rw [String.toList_intercalate]
  induction tokens with
  | nil => rfl
  | cons token tokens ih =>
    cases tokens with
    | nil => simp [unwords, spaced]
    | cons other tokens =>
      rw [map_cons, map_cons, intercalate_cons_cons, ← map_cons, ih]
      simp [unwords, spaced]

theorem length_le_length_unwords (hsolid : ∀ token ∈ tokens, isSolid token = true) :
    tokens.length ≤ (unwords tokens).length := by
  have hspaced : ∀ tokens : List String, tokens.length ≤ (spaced tokens).length := by
    intro tokens
    induction tokens with
    | nil => exact Nat.le_refl _
    | cons token tokens ih =>
      simp only [spaced, length_cons, length_append]
      omega
  cases tokens with
  | nil => exact Nat.le_refl _
  | cons token tokens =>
    obtain ⟨c, rest, hcons, -⟩ := isSolid_iff.1 (hsolid token (by simp))
    have := hspaced tokens
    simp only [unwords, hcons, length_cons, length_append]
    omega

theorem head?_spaced (p : Char → Bool) (hp : p ' ' = false) (tokens : List String) :
    (spaced tokens).head?.any p = false := by
  rcases spaced_eq_nil_or_cons tokens with h | ⟨rest, h⟩
  · rw [h]; rfl
  · rw [h]; exact hp

theorem Mark.skipFrom_unwords (hsolid : ∀ token ∈ tokens, isSolid token = true) (n : Nat) :
    Mark.skipFrom .between n (unwords tokens) = ⟨unwords tokens, n⟩ := by
  cases tokens with
  | nil => rfl
  | cons token tokens =>
    obtain ⟨c, rest, hcons, hspace, hcomment⟩ := isSolid_iff.1 (hsolid token (by simp))
    rw [unwords, hcons, cons_append, skipFrom_cons, if_neg (by rw [hspace]; decide)]
    rw [Lexeme.startsComment_append (head?_spaced _ rfl tokens), hcomment]

theorem Mark.skipFrom_spaced (hsolid : ∀ token ∈ tokens, isSolid token = true) (n : Nat) :
    (Mark.skipFrom .between n (spaced tokens)).rest = unwords tokens := by
  cases tokens with
  | nil => rfl
  | cons token tokens =>
    have hspace : spaced (token :: tokens) = ' ' :: unwords (token :: tokens) := rfl
    rw [hspace, skipFrom_cons (by simp [Lexeme.startsComment]), if_pos (by decide),
      skipFrom_unwords hsolid]

/-! ## Cursors before tokens -/

/-- The tokens are what is left of the text, and nothing was nested too deep. -/
structure Cursor.Before (tokens : List String) (c : Cursor) : Prop where
  rest_eq : c.mark.rest = unwords tokens ∨ c.mark.rest = spaced tokens
  solid : ∀ token ∈ tokens, isSolid token = true
  clear : c.tooDeep = none

namespace Cursor.Before

variable {tokens : List String} {c : Cursor}

theorem rest_skipTrivia (h : c.Before tokens) : c.mark.skipTrivia.rest = unwords tokens := by
  rw [Mark.skipTrivia]
  rcases h.rest_eq with hrest | hrest
  · rw [hrest, Mark.skipFrom_unwords h.solid]
  · rw [hrest, Mark.skipFrom_spaced h.solid]

theorem skipTrivia (h : c.Before tokens) :
    Cursor.Before tokens { c with mark := c.mark.skipTrivia } :=
  ⟨.inl h.rest_skipTrivia, h.solid, h.clear⟩

theorem length_le (h : c.Before tokens) : tokens.length ≤ c.mark.rest.length := by
  have hwords : (unwords tokens).length ≤ c.mark.rest.length := by
    rw [← h.rest_skipTrivia]
    exact c.mark.length_skipTrivia_le
  exact Nat.le_trans (length_le_length_unwords h.solid) hwords

end Cursor.Before

namespace Rule

/-! ## Combinators -/

/-- How a rule ends. -/
inductive Outcome (α : Type) where
  /-- It succeeds, and leads to the tokens `rest`; what it reads is `Q`. -/
  | reads (rest : List String) (Q : α → Prop)
  /-- It fails, and not since it went too deep. -/
  | fails

def Outcome.Holds : Outcome α → Option α → Cursor → Prop
  | .reads rest Q, result, c => ∃ a, result = some a ∧ c.Before rest ∧ Q a
  | .fails, result, c => result = none ∧ c.tooDeep = none

/-- The rule ends so on every cursor that stands before the tokens. -/
def Ends (rule : Rule α) (ctx : Context) (tokens : List String) (outcome : Outcome α) : Prop :=
  ∀ ⦃c : Cursor⦄, c.Before tokens → outcome.Holds (rule ctx c).1 (rule ctx c).2

abbrev Accepts (rule : Rule α) (ctx : Context) (tokens rest : List String)
    (Q : α → Prop := fun _ => True) : Prop :=
  rule.Ends ctx tokens (.reads rest Q)

abbrev Refuses (rule : Rule α) (ctx : Context) (tokens : List String) : Prop :=
  rule.Ends ctx tokens .fails

variable {rule : Rule α} {ctx : Context} {tokens rest : List String} {Q : α → Prop}
  {E : Outcome β} {next : α → Rule β}

theorem Accepts.run (h : rule.Accepts ctx tokens rest Q) (hc : c.Before tokens) :
    ∃ a c', rule ctx c = (some a, c') ∧ c'.Before rest ∧ Q a := by
  obtain ⟨a, ha, hrest, hq⟩ := h hc
  exact ⟨a, (rule ctx c).2, Prod.ext ha rfl, hrest, hq⟩

theorem Refuses.run (h : rule.Refuses ctx tokens) (hc : c.Before tokens) :
    ∃ c', rule ctx c = (none, c') ∧ Cursor.Before tokens { c' with mark := c.mark } := by
  obtain ⟨hnone, hclear⟩ := h hc
  exact ⟨(rule ctx c).2, Prod.ext hnone rfl, hc.rest_eq, hc.solid, hclear⟩

theorem Ends.pure {a : α} (h : Q a) : (pure a : Rule α).Accepts ctx tokens tokens Q :=
  fun _ hc => ⟨a, rfl, hc, h⟩

theorem Accepts.mono {P : α → Prop} (h : rule.Accepts ctx tokens rest Q) (hp : ∀ a, Q a → P a) :
    rule.Accepts ctx tokens rest P := by
  intro c hc
  obtain ⟨a, ha, hrest, hq⟩ := h hc
  exact ⟨a, ha, hrest, hp a hq⟩

theorem Accepts.bind (h : rule.Accepts ctx tokens rest Q)
    (hn : ∀ a, Q a → (next a).Ends ctx rest E) : (rule >>= next).Ends ctx tokens E := by
  intro c hc
  obtain ⟨a, c', hrun, hrest, hq⟩ := h.run hc
  rw [bind_some hrun]
  exact hn a hq hrest

theorem Refuses.bind (h : rule.Refuses ctx tokens) : (rule >>= next).Refuses ctx tokens := by
  intro c hc
  obtain ⟨c', hrun, hstay⟩ := h.run hc
  rw [bind_none hrun]
  exact ⟨rfl, hstay.clear⟩

theorem Accepts.attempt (h : rule.Accepts ctx tokens rest Q) :
    (Rule.attempt rule).Accepts ctx tokens rest Q := by
  intro c hc
  obtain ⟨a, c', hrun, hrest, hq⟩ := h.run hc
  rw [attempt_some hrun]
  exact ⟨a, rfl, hrest, hq⟩

theorem Refuses.attempt (h : rule.Refuses ctx tokens) : (Rule.attempt rule).Refuses ctx tokens := by
  intro c hc
  obtain ⟨c', hrun, hstay⟩ := h.run hc
  rw [attempt_none hrun]
  exact ⟨rfl, hstay.clear⟩

theorem Accepts.maybe {next : Option α → Rule β} (h : rule.Accepts ctx tokens rest Q)
    (hn : ∀ a, Q a → (next (some a)).Ends ctx rest E) :
    (Rule.maybe rule >>= next).Ends ctx tokens E := by
  intro c hc
  obtain ⟨a, c', hrun, hrest, hq⟩ := h.run hc
  rw [bind_some (maybe_some hrun)]
  exact hn a hq hrest

theorem Refuses.maybe {next : Option α → Rule β} (h : rule.Refuses ctx tokens)
    (hn : (next none).Ends ctx tokens E) : (Rule.maybe rule >>= next).Ends ctx tokens E := by
  intro c hc
  obtain ⟨c', hrun, hstay⟩ := h.run hc
  rw [bind_some (maybe_none hrun)]
  exact hn hstay

theorem Refuses.found {next : Bool → Rule β} (h : rule.Refuses ctx tokens)
    (hn : (next false).Ends ctx tokens E) : (Rule.found rule >>= next).Ends ctx tokens E := by
  rw [found_bind]
  exact h.maybe hn

theorem Refuses.reject : (Rule.reject : Rule α).Refuses ctx tokens := fun _ hc => ⟨rfl, hc.clear⟩

theorem Refuses.fail (label : String) : (Rule.fail label : Rule α).Refuses ctx tokens :=
  fun c hc => ⟨rfl, by rw [Rule.fail, Cursor.tooDeep_expect]; exact hc.clear⟩

theorem Ends.begin {next : Nat → Rule β} (h : ∀ start, (next start).Ends ctx tokens E) :
    (Rule.begin >>= next).Ends ctx tokens E :=
  fun _ hc => h _ hc.skipTrivia

theorem Ends.spanFrom {start : Nat} {next : Span → Rule β}
    (h : ∀ span, (next span).Ends ctx tokens E) :
    (Rule.spanFrom start >>= next).Ends ctx tokens E :=
  fun _ hc => h _ hc

theorem Ends.nested {rule : Rule β} (hdepth : ctx.depth < maxDepth)
    (h : rule.Ends { ctx with depth := ctx.depth + 1 } tokens E) :
    (Rule.nested rule).Ends ctx tokens E := by
  intro c hc
  rw [nested_of_lt hc.clear hdepth]
  exact h hc

theorem Refuses.orElse {rule : Rule β} {rules : List (Rule β)} (h : rule.Refuses ctx tokens)
    (hrules : (firstOf rules).Ends ctx tokens E) : (firstOf (rule :: rules)).Ends ctx tokens E :=
  h.maybe hrules

theorem Accepts.orElse (h : rule.Accepts ctx tokens rest Q) :
    (firstOf (rule :: rules)).Accepts ctx tokens rest Q :=
  h.maybe fun _ hq => .pure hq

theorem Refuses.firstOf (h : ∀ rule ∈ rules, rule.Refuses ctx tokens) :
    (Rule.firstOf rules).Refuses ctx tokens := by
  induction rules with
  | nil => exact .reject
  | cons rule rules ih =>
    exact (h rule (by simp)).orElse (ih fun rule hr => h rule (by simp [hr]))

/-- Which of the rules accepts does not matter if they all read the same. -/
theorem Accepts.firstOf (hmem : rule ∈ rules) (h : rule.Accepts ctx tokens rest Q)
    (hall : ∀ rule ∈ rules, rule.Refuses ctx tokens ∨ rule.Accepts ctx tokens rest Q) :
    (Rule.firstOf rules).Accepts ctx tokens rest Q := by
  induction rules with
  | nil => cases hmem
  | cons first rules ih =>
    rcases hall first (by simp) with hrefuses | haccepts
    · rcases mem_cons.1 hmem with rfl | hmem
      · exact h.orElse
      · exact hrefuses.orElse (ih hmem fun rule hr => hall rule (by simp [hr]))
    · exact haccepts.orElse

/-! ## Repetitions -/

theorem Accepts.manyWithin_nil (h : item.Accepts ctx tokens tokens (· = none)) (fuel : List Char) :
    (manyWithin item fuel).Accepts ctx tokens tokens (· = []) := by
  cases fuel with
  | nil =>
    refine h.bind ?_
    rintro _ rfl
    exact .pure rfl
  | cons _ fuel =>
    refine h.bind ?_
    rintro _ rfl
    exact .pure rfl

theorem Accepts.many_nil (h : item.Accepts ctx tokens tokens (· = none)) :
    (many item).Accepts ctx tokens tokens (· = []) :=
  fun c hc => h.manyWithin_nil c.mark.rest hc

theorem Refuses.maybe_none (h : rule.Refuses ctx tokens) :
    (Rule.maybe rule).Accepts ctx tokens tokens (· = none) := by
  intro c hc
  obtain ⟨c', hrun, hstay⟩ := h.run hc
  rw [Rule.maybe_none hrun]
  exact ⟨none, rfl, hstay, rfl⟩

theorem Refuses.star (h : rule.Refuses ctx tokens) :
    (Rule.star rule).Accepts ctx tokens tokens (· = []) :=
  h.maybe_none.many_nil

/-- One item with no separator after it. -/
theorem Accepts.separated {separator : String} (h : rule.Accepts ctx tokens rest Q)
    (hend : (punct separator).Refuses ctx rest) :
    (Rule.separated separator rule).Accepts ctx tokens rest fun list => ∃ a, list = [a] ∧ Q a := by
  refine h.attempt.bind fun first hq => ?_
  refine Accepts.bind (Accepts.many_nil ?_) ?_
  · exact hend.bind.maybe (.pure rfl)
  · rintro _ rfl
    exact .pure ⟨first, rfl, hq⟩

theorem Ends.many {E : Outcome (List α)}
    (h : ∀ fuel : List Char, tokens.length ≤ fuel.length →
      (manyWithin item fuel).Ends ctx tokens E) : (Rule.many item).Ends ctx tokens E :=
  fun _ hc => h _ hc.length_le hc

theorem Ends.grow {step : β → Rule (Option β)} {b : β}
    (h : ∀ fuel : List Char, tokens.length ≤ fuel.length →
      (growWithin step fuel b).Ends ctx tokens E) : (Rule.grow step b).Ends ctx tokens E :=
  fun _ hc => h _ hc.length_le hc

theorem Accepts.growWithin_stop {step : α → Rule (Option α)} {a : α}
    (h : (step a).Accepts ctx tokens tokens (· = none)) (fuel : List Char) :
    (growWithin step fuel a).Accepts ctx tokens tokens (· = a) := by
  cases fuel with
  | nil =>
    refine h.bind ?_
    rintro _ rfl
    exact .pure rfl
  | cons _ fuel =>
    refine h.bind ?_
    rintro _ rfl
    exact .pure rfl

theorem Accepts.growWithin_next {step : β → Rule (Option β)} {b : β} {P : β → Prop}
    (h : (step b).Accepts ctx tokens rest fun found => ∃ b', found = some b' ∧ P b')
    {fuel : List Char} (hfuel : rest.length < fuel.length)
    (hn : ∀ b', P b' → ∀ fuel : List Char, rest.length ≤ fuel.length →
      (growWithin step fuel b').Ends ctx rest E) :
    (growWithin step fuel b).Ends ctx tokens E := by
  cases fuel with
  | nil => cases hfuel
  | cons _ fuel =>
    refine h.bind ?_
    rintro _ ⟨b', rfl, hp⟩
    exact hn b' hp fuel (Nat.lt_succ_iff.1 hfuel)

/-! ## Terminals -/

theorem Accepts.terminal {a : α}
    (h : scan (unwords (token :: rest)) = some ⟨a, token.toList, spaced rest⟩) :
    (Rule.terminal label scan).Accepts ctx (token :: rest) rest (·.value = a) := by
  intro c hc
  rw [Rule.terminal, hc.rest_skipTrivia, h]
  exact ⟨_, rfl, ⟨.inr rfl, fun token ht => hc.solid token (by simp [ht]), hc.clear⟩, rfl⟩

theorem Refuses.terminal (h : scan (unwords tokens) = none) :
    (Rule.terminal label scan).Refuses ctx tokens := by
  intro c hc
  rw [Rule.terminal, hc.rest_skipTrivia, h]
  exact ⟨rfl, by rw [Cursor.tooDeep_expect]; exact hc.clear⟩

end Rule

end SqlTyping
