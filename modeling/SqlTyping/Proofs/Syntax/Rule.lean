import SqlTyping.Proofs.Syntax.Lexeme
import SqlTyping.Syntax.Rule

/-!
# What rules read

A mark is in a text if what is left there is the text from its offset on. `Rule.Notes` is a run with
its log: all that was expected in vain on the way, and where constructs are nested. A run leads from
marks in a text to such marks. `Rule.Local` says that nothing but the mark and the tolerance decides
what a rule reads.
-/

namespace SqlTyping

open List

variable {α β : Type} {text : String} {tolerant : Bool} {item : Rule (Option α)} {m : Mark}
  {b : Bool}

/-! ## Marks in a text -/

/-- What holds of a place and always of the next one holds after trivia. -/
theorem Mark.skipFrom_keeps {P : Mark → Prop}
    (hone : ∀ c rest n, P ⟨c :: rest, n⟩ → P ⟨rest, n + c.utf8Size⟩) (trivia : Trivia) (n : Nat)
    (rest : List Char) (h : P ⟨rest, n⟩) : P (Mark.skipFrom trivia n rest) := by
  fun_induction Mark.skipFrom trivia n rest with
  | case1 => exact h
  | case2 n rest ih => exact ih (hone _ _ _ (hone _ _ _ h))
  | case3 n rest ih => exact ih (hone _ _ _ (hone _ _ _ h))
  | case4 n c rest _ _ _ ih => exact ih (hone _ _ _ h)
  | case5 => exact h
  | case6 n c rest ih => exact ih (hone _ _ _ h)
  | case7 n rest outer ih => exact ih (hone _ _ _ (hone _ _ _ h))
  | case8 n rest ih => exact ih (hone _ _ _ (hone _ _ _ h))
  | case9 n outer rest ih => exact ih (hone _ _ _ (hone _ _ _ h))
  | case10 n outer c rest _ _ _ ih => exact ih (hone _ _ _ h)

theorem Mark.skipFrom_cons {c : Char} {rest : List Char}
    (hcomment : Lexeme.startsComment (c :: rest) = false) (n : Nat) :
    Mark.skipFrom .between n (c :: rest) =
      if Text.isSpace c then skipFrom .between (n + c.utf8Size) rest else ⟨c :: rest, n⟩ := by
  rw [Mark.skipFrom.eq_def]
  split
  all_goals simp_all [Lexeme.startsComment]

/-- Is the mark a place in the text? -/
def Mark.In (text : String) (m : Mark) : Prop := Text.dropBytes? m.offset text.toList = some m.rest

namespace Mark.In

theorem scan (h : m.In text) {x : Lexeme α} (hx : m.rest = x.text ++ x.rest) :
    Mark.In text ⟨x.rest, m.offset + x.size⟩ :=
  Text.dropBytes?_add (hx ▸ h)

theorem skipTrivia (h : m.In text) : m.skipTrivia.In text :=
  Mark.skipFrom_keeps (fun c _ _ h => Text.dropBytes?_add (a := [c]) h) _ _ _ h

end Mark.In

/-- Skipping trivia leaves an end of what was left. -/
theorem Mark.skipTrivia_isSuffix (m : Mark) : m.skipTrivia.rest <:+ m.rest :=
  skipFrom_keeps (P := fun n => n.rest <:+ m.rest) (fun c _ _ h => (suffix_cons c _).trans h) _ _ _
    suffix_rfl

theorem Mark.length_skipTrivia_le (m : Mark) : m.skipTrivia.rest.length ≤ m.rest.length :=
  m.skipTrivia_isSuffix.length_le

namespace Cursor

@[simp] theorem mark_expect (c : Cursor) (offset : Nat) (label : String) :
    (c.expect offset label).mark = c.mark := by
  unfold Cursor.expect
  split
  · rfl
  · split <;> rfl

@[simp] theorem tooDeep_expect (c : Cursor) (offset : Nat) (label : String) :
    (c.expect offset label).tooDeep = c.tooDeep := by
  unfold Cursor.expect
  split
  · rfl
  · split <;> rfl

end Cursor

namespace Rule

/-! ## Runs of combinators -/

section

variable {rule : Rule α} {next : α → Rule β} {ctx : Context} {c c' : Cursor} {a : α}

theorem bind_some (h : rule ctx c = (some a, c')) : (rule >>= next) ctx c = next a ctx c' := by
  show Rule.bind rule next ctx c = _
  rw [Rule.bind, h]

theorem bind_none (h : rule ctx c = (none, c')) : (rule >>= next) ctx c = (none, c') := by
  show Rule.bind rule next ctx c = _
  rw [Rule.bind, h]

theorem attempt_some (h : rule ctx c = (some a, c')) : attempt rule ctx c = (some a, c') := by
  rw [attempt, h]

theorem attempt_none (h : rule ctx c = (none, c')) :
    attempt rule ctx c = (none, { c' with mark := c.mark }) := by
  rw [attempt, h]

theorem maybe_some (h : rule ctx c = (some a, c')) : maybe rule ctx c = (some (some a), c') := by
  rw [maybe, h]

theorem maybe_none (h : rule ctx c = (none, c')) :
    maybe rule ctx c = (some none, { c' with mark := c.mark }) := by
  rw [maybe, h]

theorem bind_eq_some {b : β} (h : (rule >>= next) ctx c = (some b, c')) :
    ∃ a c₁, rule ctx c = (some a, c₁) ∧ next a ctx c₁ = (some b, c') := by
  cases hr : rule ctx c with
  | mk value c₁ =>
    cases value with
    | none => rw [bind_none hr] at h; cases h
    | some a => exact ⟨a, c₁, rfl, (bind_some hr).symm.trans h⟩

theorem maybe_eq_some {found : Option α} (h : maybe rule ctx c = (some found, c')) :
    (∃ a, found = some a ∧ rule ctx c = (some a, c')) ∨ found = none ∧ c'.mark = c.mark := by
  cases hr : rule ctx c with
  | mk value c₁ =>
    cases value with
    | none => rw [maybe_none hr] at h; cases h; exact .inr ⟨rfl, rfl⟩
    | some a => rw [maybe_some hr] at h; cases h; exact .inl ⟨a, rfl, rfl⟩

/-- To attempt a rule is to try it, and to fail if it finds nothing. -/
theorem attempt_eq (rule : Rule α) :
    attempt rule = maybe rule >>= fun found => found.elim reject Pure.pure := by
  funext ctx c
  cases hr : rule ctx c with
  | mk value c₁ =>
    cases value with
    | none => rw [attempt_none hr, bind_some (maybe_none hr)]; rfl
    | some a => rw [attempt_some hr, bind_some (maybe_some hr)]; rfl

theorem tooDeep_maybe (rule : Rule α) (ctx : Context) (c : Cursor) :
    (maybe rule ctx c).2.tooDeep = (rule ctx c).2.tooDeep := by
  rw [maybe]
  rcases rule ctx c with ⟨_ | _, _⟩ <;> rfl

theorem tooDeep_textOf (rule : Rule α) (ctx : Context) (c : Cursor) :
    (textOf rule ctx c).2.tooDeep = (rule ctx { c with mark := c.mark.skipTrivia }).2.tooDeep := by
  rw [textOf]
  rcases rule ctx { c with mark := c.mark.skipTrivia } with ⟨_ | _, _⟩ <;> rfl

theorem found_bind (rule : Rule α) (next : Bool → Rule β) :
    (found rule >>= next) = maybe rule >>= fun result => next result.isSome := by
  funext ctx c
  cases hr : rule ctx c with
  | mk value c' =>
    cases value with
    | none => rw [bind_some (maybe_none hr), bind_some (bind_some (maybe_none hr))]
    | some a => rw [bind_some (maybe_some hr), bind_some (bind_some (maybe_some hr))]

theorem nested_of_lt (hclear : c.tooDeep = none) (hdepth : ctx.depth < maxDepth) :
    nested rule ctx c = rule { ctx with depth := ctx.depth + 1 } c := by
  rw [nested, if_neg (by rw [hclear]; exact Bool.false_ne_true), if_neg (Nat.not_le.2 hdepth)]

/-- What is nested is run one level deeper, or fails, and the cursor knows why. -/
theorem nested_cases (rule : Rule α) (ctx : Context) (c : Cursor) :
    nested rule ctx c = rule { ctx with depth := ctx.depth + 1 } c ∧ c.tooDeep = none ∧
        ctx.depth < maxDepth ∨
      (nested rule ctx c).1 = none ∧ (nested rule ctx c).2.tooDeep ≠ none := by
  rw [nested]
  split
  · next hdeep => exact .inr ⟨rfl, Option.isSome_iff_ne_none.1 hdeep⟩
  · next hdeep =>
    split
    · exact .inr ⟨rfl, Option.some_ne_none _⟩
    · next hroom => exact .inl ⟨rfl, by simpa using hdeep, Nat.not_le.1 hroom⟩

end

/-! ## The log of a run -/

/-- What happens in a run. -/
inductive Note where
  /-- The label was expected at the offset, and was not there. -/
  | expected (offset : Nat) (label : String)
  /-- A nested construct starts. -/
  | entered
  /-- It is left again. -/
  | left

/-- The run of the rule from the cursor has the log. A terminal that fails notes what it expected, a
look-ahead that is forgotten notes nothing, and other rules note what their parts do. -/
inductive Notes : {α : Type} → Rule α → Context → Cursor → List Note → Prop
  | look {α : Type} {value : Context → Cursor → Option α} :
      Notes (fun ctx c => (value ctx c, c)) ctx c []
  | begin : Notes begin ctx c []
  | fail {label : String} : Notes (fail label) ctx c [.expected c.mark.skipTrivia.offset label]
  | read {label : String} (hscan : Scanner.Splits scan)
      (h : scan c.mark.skipTrivia.rest = some x) : Notes (terminal label scan) ctx c []
  | miss {label : String} (h : scan c.mark.skipTrivia.rest = none) :
      Notes (terminal label scan) ctx c [.expected c.mark.skipTrivia.offset label]
  | stop (h : Notes rule ctx c log) (hr : rule ctx c = (none, c')) :
      Notes (rule >>= andThen) ctx c log
  | next (h : Notes rule ctx c log) (hr : rule ctx c = (some a, c'))
      (h' : Notes (andThen a) ctx c' more) : Notes (rule >>= andThen) ctx c (log ++ more)
  | maybe (h : Notes rule ctx c log) : Notes (maybe rule) ctx c log
  | peek (h : Notes rule ctx c log) : Notes (peek rule) ctx c log
  | textOf (h : Notes rule ctx { c with mark := c.mark.skipTrivia } log) :
      Notes (textOf rule) ctx c log
  | nested (hclear : c.tooDeep = none) (hroom : ctx.depth < maxDepth)
      (h : Notes rule { ctx with depth := ctx.depth + 1 } c log) :
      Notes (nested rule) ctx c (.entered :: log ++ [.left])
  | blocked (h : c.tooDeep = none → maxDepth ≤ ctx.depth) : Notes (nested rule) ctx c []
  | fueled {α : Type} {repeated : List Char → Rule α} (h : Notes (repeated c.mark.rest) ctx c log) :
      Notes (fun ctx c => repeated c.mark.rest ctx c) ctx c log

/-- A run stays in its text. -/
theorem Notes.isIn {rule : Rule α} {ctx : Context} {c : Cursor} {log : List Note}
    (h : rule.Notes ctx c log) (hc : c.mark.In text) : (rule ctx c).2.mark.In text := by
  induction h with
  | look => exact hc
  | begin => exact hc.skipTrivia
  | fail => exact (Cursor.mark_expect ..).symm ▸ hc
  | read hscan h =>
    rw [terminal, h]
    exact hc.skipTrivia.scan (hscan _ _ h)
  | miss h =>
    rw [terminal, h]
    exact (Cursor.mark_expect ..).symm ▸ hc
  | stop _ hr ih =>
    rw [hr] at ih
    rw [bind_none hr]
    exact ih hc
  | next _ hr _ ih ih' =>
    rw [hr] at ih
    rw [bind_some hr]
    exact ih' (ih hc)
  | @maybe _ rule ctx c _ _ ih =>
    rw [Rule.maybe]
    revert ih
    rcases rule ctx c with ⟨_ | _, _⟩ <;> intro ih
    · exact hc
    · exact ih hc
  | peek => exact hc
  | @textOf _ rule ctx c _ _ ih =>
    rw [Rule.textOf]
    revert ih
    rcases rule ctx { c with mark := c.mark.skipTrivia } with ⟨_ | _, _⟩ <;>
      exact fun ih => ih hc.skipTrivia
  | nested hclear hroom _ ih =>
    rw [nested_of_lt hclear hroom]
    exact ih hc
  | blocked h =>
    rw [Rule.nested]
    split
    · exact hc
    · next hclear => rw [if_pos (h (by simpa using hclear))]; exact hc.skipTrivia
  | fueled _ ih => exact ih hc

/-! ## Rules that look at the mark only -/

variable {rule : Rule α} {next : α → Rule β}

/-- What the rule reads and where it leads is decided by the mark, and by the tolerance. It never
nests too deep. -/
def Local (rule : Rule α) : Prop :=
  ∀ ctx ctx' c c', ctx.tolerant = ctx'.tolerant → c.mark = c'.mark →
    (rule ctx c).1 = (rule ctx' c').1 ∧ (rule ctx c).2.mark = (rule ctx' c').2.mark ∧
      (rule ctx c).2.tooDeep = c.tooDeep

namespace Local

theorem pure (a : α) : (pure a : Rule α).Local := fun _ _ _ _ _ hm => ⟨rfl, hm, rfl⟩

theorem bind (h : rule.Local) (hn : ∀ a, (next a).Local) : (rule >>= next).Local := by
  intro ctx ctx' c c' ht hm
  obtain ⟨hvalue, hmark, hdeep⟩ := h ctx ctx' c c' ht hm
  rw [show (rule >>= next) = Rule.bind rule next from rfl, Rule.bind, Rule.bind]
  generalize rule ctx c = result at hvalue hmark hdeep
  generalize rule ctx' c' = result' at hvalue hmark
  obtain ⟨value, after⟩ := result
  obtain ⟨value', after'⟩ := result'
  cases hvalue
  cases value with
  | none => exact ⟨rfl, hmark, hdeep⟩
  | some a =>
    obtain ⟨hvalue, hmark, hdeep'⟩ := hn a ctx ctx' after after' ht hmark
    exact ⟨hvalue, hmark, hdeep'.trans hdeep⟩

theorem cond {yes no : Rule α} (hy : yes.Local) (hn : no.Local) :
    (if b = true then yes else no).Local := by
  split
  · exact hy
  · exact hn

theorem reject : (Rule.reject : Rule α).Local := fun _ _ _ _ _ hm => ⟨rfl, hm, rfl⟩

theorem isTolerant : Rule.isTolerant.Local := fun _ _ _ _ ht hm => ⟨congrArg some ht, hm, rfl⟩

theorem spanFrom (start : Nat) : (Rule.spanFrom start).Local := by
  intro _ _ c c' _ hm
  refine ⟨?_, hm, rfl⟩
  rw [Rule.spanFrom, Rule.spanFrom, Cursor.position, Cursor.position, hm]

theorem maybe (h : rule.Local) : (Rule.maybe rule).Local := by
  intro ctx ctx' c c' ht hm
  obtain ⟨hvalue, hmark, hdeep⟩ := h ctx ctx' c c' ht hm
  rw [Rule.maybe, Rule.maybe]
  generalize rule ctx c = result at hvalue hmark hdeep
  generalize rule ctx' c' = result' at hvalue hmark
  obtain ⟨value, after⟩ := result
  obtain ⟨value', after'⟩ := result'
  cases hvalue
  cases value with
  | none => exact ⟨rfl, hm, hdeep⟩
  | some a => exact ⟨rfl, hmark, hdeep⟩

theorem attempt (h : rule.Local) : (Rule.attempt rule).Local := by
  rw [attempt_eq]
  refine h.maybe.bind fun found => ?_
  cases found with
  | none => exact reject
  | some a => exact .pure a

theorem manyWithin (h : item.Local) (fuel : List Char) : (Rule.manyWithin item fuel).Local := by
  induction fuel with
  | nil => exact h.bind fun found => .pure _
  | cons _ fuel ih =>
    refine h.bind fun found => ?_
    cases found with
    | none => exact .pure _
    | some a => exact ih.bind fun _ => .pure _

theorem many (h : item.Local) : (Rule.many item).Local := by
  intro ctx ctx' c c' ht hm
  rw [Rule.many, Rule.many, hm]
  exact manyWithin h c'.mark.rest ctx ctx' c c' ht hm

theorem terminal (label : String) (scan : Scanner α) : (Rule.terminal label scan).Local := by
  intro ctx ctx' c c' _ hm
  rw [Rule.terminal, Rule.terminal, hm]
  cases scan c'.mark.skipTrivia.rest with
  | none =>
    refine ⟨rfl, ?_, Cursor.tooDeep_expect _ _ _⟩
    show (Cursor.expect c _ label).mark = (Cursor.expect c' _ label).mark
    rw [Cursor.mark_expect, Cursor.mark_expect, hm]
  | some x => exact ⟨rfl, rfl, rfl⟩

theorem punct (mark : String) : (Rule.punct mark).Local := (terminal mark _).bind fun _ => .pure _

theorem oneOf (words : List (String × α)) : (Rule.oneOf words).Local := by
  induction words with
  | nil => exact reject
  | cons entry words ih =>
    obtain ⟨word, a⟩ := entry
    have hword : (Rule.keyword word).Local := (terminal word _).bind fun _ => .pure _
    refine hword.maybe.bind fun found => ?_
    cases found with
    | none => exact ih
    | some span => exact .pure _

theorem separated (separator : String) (h : rule.Local) :
    (Rule.separated separator rule).Local := by
  refine h.attempt.bind fun _ => Local.bind (many ?_) fun _ => .pure _
  refine Local.bind (Local.maybe ?_) fun _ => .pure _
  refine (punct separator).bind fun _ => h.maybe.bind fun found => ?_
  cases found with
  | some a => exact .pure _
  | none => exact isTolerant.bind fun _ => .cond (.pure _) .reject

theorem parens (h : rule.Local) : (Rule.parens rule).Local :=
  (punct "(").bind fun _ => h.bind fun _ => (punct ")").bind fun _ => .pure _

end Local

end Rule

end SqlTyping
