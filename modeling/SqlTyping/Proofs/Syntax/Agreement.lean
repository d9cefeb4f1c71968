import SqlTyping.Proofs.Spelling.Likeness
import SqlTyping.Proofs.Spelling.Scanners

/-!
# Runs with more room and on respelled texts

Two bounds keep the grammar finite: how deep constructs may stand in each other, and `maxDepth`. A
run that comes to neither of them is not changed by more room, and not by the way in which the text
is spelled. `Rule.Agrees n` says so of a rule and of the same rule with other bounds, for texts with
less than `n` characters left: unless the first run nests too deep, the second one goes the same way.
Both fail, or both succeed with values that are alike. The first run has a log, so the cursor stays in
its text meanwhile. There is one instance for each combinator. A repetition may have more characters
before it on one side than on the other, so what is repeated has to read something.
-/

namespace SqlTyping

open Lexeme Likeness List

variable {ctx ctx' : Context} {c c' : Cursor} {γ δ : Type} {word : String}

variable {α β : Type} {n : Nat}

/-! ## Texts that are read alike -/

/-- The texts are the same, or one of them is the other one respelled. -/
inductive Rewritten : List Char → List Char → Prop
  | same (cs : List Char) : Rewritten cs cs
  | there {cs ds : List Char} (h : Respelled cs ds) (plain : '\\' ∉ cs) : Rewritten cs ds
  | back {cs ds : List Char} (h : Respelled cs ds) (plain : '\\' ∉ cs) : Rewritten ds cs

/-- Nothing is scanned in both texts, or the same, and what is left is read alike. -/
inductive Rescanned : Option (Lexeme α) → Option (Lexeme α) → Prop
  | none : Rescanned none none
  | some {x y : Lexeme α} (value : x.value = y.value) (rest : Rewritten x.rest y.rest) :
      Rescanned (some x) (some y)

namespace Rewritten

variable {cs ds : List Char}

theorem symm (h : Rewritten cs ds) : Rewritten ds cs := by
  cases h with
  | same => exact .same _
  | there h plain => exact .back h plain
  | back h plain => exact .there h plain

theorem skip (h : Rewritten cs ds) : Rewritten (skip cs) (skip ds) := by
  have hplain : ∀ {cs : List Char}, '\\' ∉ cs → '\\' ∉ Lexeme.skip cs := fun h hm =>
    h ((skip_isSuffix _).subset hm)
  cases h with
  | same => exact .same _
  | there h plain => exact .there h.skip (hplain plain)
  | back h plain => exact .back h.skip (hplain plain)

/-- Both texts have tokens left, or none of them. -/
theorem isEmpty_skip (h : Rewritten cs ds) :
    (Lexeme.skip cs).isEmpty = (Lexeme.skip ds).isEmpty := by
  have hrespelled : ∀ {cs ds : List Char}, Respelled cs ds →
      (Lexeme.skip cs).isEmpty = (Lexeme.skip ds).isEmpty := by
    intro cs ds h
    rcases h.skip.cases (startsTrivia_skip _) with ⟨hc, hd⟩ | ⟨x, text, rest, hx, ht, hd, -⟩
    · rw [hc, hd]
    · have hne := proper_first? _ x hx
      have hne' : text ≠ [] := fun h =>
        hne (length_eq_zero_iff.1 (by rw [ht.length_eq, h]; rfl))
      rw [splits_first? _ x hx, hd, isEmpty_eq_false_iff.2 (append_ne_nil_of_left_ne_nil hne _),
        isEmpty_eq_false_iff.2 (append_ne_nil_of_left_ne_nil hne' _)]
  cases h with
  | same => rfl
  | there h _ => exact hrespelled h
  | back h _ => exact (hrespelled h).symm

theorem scan_skip {scan : Scanner α} (hscan : scan.Matches Eq) (hsplits : scan.Splits)
    (h : Rewritten cs ds) : Rescanned (scan (Lexeme.skip cs)) (scan (Lexeme.skip ds)) := by
  have hrespelled : ∀ {cs ds : List Char}, Respelled cs ds → '\\' ∉ cs →
      Rescanned (scan (Lexeme.skip cs)) (scan (Lexeme.skip ds)) := by
    intro cs ds h hplain
    replace hplain : '\\' ∉ Lexeme.skip cs := fun hm => hplain ((skip_isSuffix _).subset hm)
    have hmatched := hscan _ _ h.skip (startsTrivia_skip _) hplain
    generalize hx : scan (Lexeme.skip cs) = x at hmatched
    generalize scan (Lexeme.skip ds) = y at hmatched
    cases hmatched with
    | none => exact .none
    | some hv hr =>
      refine .some hv (.there hr fun hm => hplain ?_)
      rw [hsplits _ _ hx]
      exact mem_append_right _ hm
  cases h with
  | same =>
    cases scan (Lexeme.skip cs) with
    | none => exact .none
    | some x => exact .some rfl (.same _)
  | there h plain => exact hrespelled h plain
  | back h plain =>
    have hback := hrespelled h plain
    generalize scan (Lexeme.skip cs) = x at hback ⊢
    generalize scan (Lexeme.skip ds) = y at hback ⊢
    cases hback with
    | none => exact .none
    | some hv hr => exact .some hv.symm hr.symm

end Rewritten

/-- The second text is read alike from the second place, with no less room for nesting. -/
structure Roomier (ctx : Context) (c : Cursor) (ctx' : Context) (c' : Cursor) : Prop where
  tolerant : ctx'.tolerant = ctx.tolerant
  depth : ctx'.depth ≤ ctx.depth
  rest : Rewritten c.mark.rest c'.mark.rest
  clear : c'.tooDeep = none

theorem Roomier.skip (h : Roomier ctx c ctx' c') :
    Roomier ctx { c with mark := c.mark.skipTrivia } ctx' { c' with mark := c'.mark.skipTrivia } := by
  refine ⟨h.tolerant, h.depth, ?_, h.clear⟩
  show Rewritten c.mark.skipTrivia.rest c'.mark.skipTrivia.rest
  rw [rest_skipTrivia, rest_skipTrivia]
  exact h.rest.skip

/-- Both runs fail, or both succeed with values that are alike. The second one does not nest too
deep. -/
inductive SameRun [Likeness α] : Option α × Cursor → Option α × Cursor → Prop
  | none {c c' : Cursor} (clear : c'.tooDeep = none) : SameRun (none, c) (none, c')
  | some {a b : α} {c c' : Cursor} (like : Like a b) (rest : Rewritten c.mark.rest c'.mark.rest)
      (clear : c'.tooDeep = none) : SameRun (some a, c) (some b, c')

namespace SameRun

variable [Likeness α] {x y : Option α × Cursor}

theorem clear (h : SameRun x y) : y.2.tooDeep = .none := by
  cases h with
  | none hclear => exact hclear
  | some _ _ hclear => exact hclear

theorem isSome (h : SameRun x y) : x.1.isSome = y.1.isSome := by
  cases h with
  | none _ => rfl
  | some _ _ _ => rfl

end SameRun

namespace Rule

variable [Likeness α] [Likeness β]

/-- Where the first rule does not nest too deep, the second one does the same. -/
class Agrees (n : Nat) (rule other : Rule α) : Prop where
  reads : ∀ {ctx c a c'}, rule ctx c = (some a, c') →
    c'.mark.rest.length ≤ c.mark.rest.length ∧ Like a a
  clear : ∀ {ctx c}, (rule ctx c).2.tooDeep = none → c.tooDeep = none
  same : ∀ {ctx c ctx' c'}, c.mark.rest.length < n → (rule ctx c).2.tooDeep = none →
    Roomier ctx c ctx' c' → SameRun (rule ctx c) (other ctx' c')
  notes : ∀ (ctx : Context) (c : Cursor), ∃ log, rule.Notes ctx c log

/-- What the rule reads is not empty. -/
class Consumes {α : Type} (rule : Rule α) : Prop where
  shorter : ∀ {ctx c a c'}, rule ctx c = (some a, c') → c'.mark.rest.length < c.mark.rest.length

/-- What the rule finds is not empty. -/
class Advances {α : Type} (rule : Rule (Option α)) : Prop where
  shorter : ∀ {ctx c a c'}, rule ctx c = (some (some a), c') →
    c'.mark.rest.length < c.mark.rest.length

variable {rule rule' : Rule α} {next next' : α → Rule β} {rules rules' : List (Rule α)}

/-- The rule reads respelled texts in the same way. -/
abbrev Stable (n : Nat) (rule : Rule α) : Prop := rule.Agrees n rule

namespace Agrees

theorem mono {k : Nat} (h : rule.Agrees n rule') (hk : k ≤ n) : rule.Agrees k rule' :=
  ⟨h.reads, h.clear, fun hlt => h.same (Nat.lt_of_lt_of_le hlt hk), h.notes⟩

theorem lower (h : rule.Agrees (n + 1) rule') : rule.Agrees n rule' := h.mono (Nat.le_succ n)

instance (priority := low) zero [h : rule.Agrees 1 rule'] : rule.Agrees 0 rule' := h.lower

/-- Nothing has to agree on texts that are shorter than the empty one. -/
theorem vacuous (h : rule.Agrees n rule') (other : Rule α) : rule.Agrees 0 other :=
  ⟨h.reads, h.clear, fun hlt => absurd hlt (Nat.not_lt_zero _), h.notes⟩

/-! ## Sequences -/

/-- What comes after the rule need only agree on the texts that the rule leaves. -/
theorem bindLeaving {k : α → Nat} (h : rule.Agrees n rule')
    (hlt : ∀ {ctx c a c'}, rule ctx c = (some a, c') → c.mark.rest.length < n →
      c'.mark.rest.length < k a)
    (hn : ∀ a b, Like a b → (next a).Agrees (k a) (next' b)) :
    (rule >>= next).Agrees n (rule' >>= next') where
  reads hrun := by
    obtain ⟨a, c₁, hr, hrun⟩ := bind_eq_some hrun
    obtain ⟨hle, hself⟩ := h.reads hr
    exact ((hn a a hself).reads hrun).imp_left (Nat.le_trans · hle)
  clear {ctx c} hclear := by
    cases hr : rule ctx c with
    | mk value c₁ =>
      cases value with
      | none =>
        rw [bind_none hr] at hclear
        exact h.clear (by rw [hr]; exact hclear)
      | some a =>
        rw [bind_some hr] at hclear
        exact h.clear (by rw [hr]; exact (hn a a (h.reads hr).2).clear hclear)
  same {ctx c ctx' c'} hc hclear hroom := by
    cases hr : rule ctx c with
    | mk value c₁ =>
      have hclear₁ : (rule ctx c).2.tooDeep = none := by
        cases value with
        | none =>
          rw [bind_none hr] at hclear
          rwa [hr]
        | some a =>
          rw [bind_some hr] at hclear
          rw [hr]
          exact (hn a a (h.reads hr).2).clear hclear
      have hsame := h.same hc hclear₁ hroom
      rw [hr] at hsame
      generalize hr' : rule' ctx' c' = y at hsame
      cases hsame with
      | none hclear' => rw [bind_none hr, bind_none hr']; exact .none hclear'
      | some hab hrest hclear' =>
        rw [bind_some hr] at hclear ⊢
        rw [bind_some hr']
        exact (hn _ _ hab).same (hlt hr hc) hclear ⟨hroom.tolerant, hroom.depth, hrest, hclear'⟩
  notes ctx c := by
    obtain ⟨log, hlog⟩ := h.notes ctx c
    cases hr : rule ctx c with
    | mk value c₁ =>
      cases value with
      | none => exact ⟨_, .stop hlog hr⟩
      | some a =>
        obtain ⟨more, hmore⟩ := (hn a a (h.reads hr).2).notes ctx c₁
        exact ⟨_, .next hlog hr hmore⟩

theorem step [h : rule.Agrees n rule'] (hn : ∀ a b, Like a b → (next a).Agrees n (next' b)) :
    (rule >>= next).Agrees n (rule' >>= next') :=
  h.bindLeaving (fun hr hc => Nat.lt_of_le_of_lt (h.reads hr).1 hc) hn

theorem each [rule.Agrees n rule'] (hn : ∀ p : Twins α, (next p.first).Agrees n (next' p.second)) :
    (rule >>= next).Agrees n (rule' >>= next') := step fun a b hab => hn ⟨a, b, hab⟩

instance bind [rule.Agrees n rule'] [hn : ∀ p : Twins α, (next p.first).Agrees n (next' p.second)] :
    (rule >>= next).Agrees n (rule' >>= next') := each hn

/-- What comes after a token has one character less to agree on. -/
theorem afterStep [h : rule.Agrees (n + 1) rule'] [hr : rule.Consumes]
    (hn : ∀ a b, Like a b → (next a).Agrees n (next' b)) :
    (rule >>= next).Agrees (n + 1) (rule' >>= next') :=
  h.bindLeaving (fun hrun hc => Nat.lt_of_lt_of_le (hr.shorter hrun) (Nat.le_of_lt_succ hc)) hn

instance (priority := high) after [rule.Agrees (n + 1) rule'] [rule.Consumes]
    [hn : ∀ p : Twins α, (next p.first).Agrees n (next' p.second)] :
    (rule >>= next).Agrees (n + 1) (rule' >>= next') := afterStep fun a b hab => hn ⟨a, b, hab⟩

theorem ofLike {a b : α} (h : Like a b) : (Pure.pure a : Rule α).Agrees n (Pure.pure b) where
  reads hrun := by cases hrun; exact ⟨Nat.le_refl _, self h⟩
  clear hclear := hclear
  same _ _ hroom := .some h hroom.rest hroom.clear
  notes _ _ := ⟨_, .look⟩

instance pure {a b : α} [h : Akin a b] : (Pure.pure a : Rule α).Agrees n (Pure.pure b) :=
  ofLike h.like

instance {f g : α → β} [h : ∀ p : Twins α, Akin (f p.first) (g p.second)] :
    (Pure.pure f : Rule (α → β)).Agrees n (Pure.pure g) :=
  ofLike fun a b hab => (h ⟨a, b, hab⟩).like

instance cond {b b' : Bool} {yes no yes' no' : Rule α} [hb : Akin b b'] [hy : yes.Agrees n yes']
    [hn : no.Agrees n no'] :
    (if b = true then yes else no).Agrees n (if b' = true then yes' else no') := by
  obtain rfl := hb.like
  split
  · exact hy
  · exact hn

instance reject : (Rule.reject : Rule α).Agrees n Rule.reject where
  reads hrun := by cases hrun
  clear hclear := hclear
  same _ _ hroom := .none hroom.clear
  notes _ _ := ⟨_, .look⟩

instance fail (label : String) : (Rule.fail label : Rule α).Agrees n (Rule.fail label) where
  reads hrun := by cases hrun
  clear {ctx c} hclear := by simpa [Rule.fail] using hclear
  same _ _ hroom := .none (by simpa using hroom.clear)
  notes _ _ := ⟨_, .fail⟩

/-! ## Rules that may fail -/

instance maybe [h : rule.Agrees n rule'] : (Rule.maybe rule).Agrees n (Rule.maybe rule') where
  reads hrun := by
    rcases maybe_eq_some hrun with ⟨a, rfl, hr⟩ | ⟨rfl, hmark⟩
    · exact (h.reads hr).imp_right .some
    · exact ⟨Nat.le_of_eq (congrArg (·.rest.length) hmark), .none⟩
  clear {ctx c} hclear := h.clear ((tooDeep_maybe rule ctx c).symm.trans hclear)
  same {ctx c ctx' c'} hc hclear hroom := by
    have hsame := h.same hc ((tooDeep_maybe rule ctx c).symm.trans hclear) hroom
    generalize hr : rule ctx c = x at hsame
    generalize hr' : rule' ctx' c' = y at hsame
    cases hsame with
    | none hclear' => rw [maybe_none hr, maybe_none hr']; exact .some .none hroom.rest hclear'
    | some hab hrest hclear' =>
      rw [maybe_some hr, maybe_some hr']
      exact .some (.some hab) hrest hclear'
  notes ctx c := (h.notes ctx c).imp fun _ => .maybe

/-- What comes after a rule that may find nothing, in either case. -/
theorem optionStep {rule rule' : Rule (Option α)} {next next' : Option α → Rule β}
    [rule.Agrees n rule'] (hsome : ∀ a b, Like a b → (next (some a)).Agrees n (next' (some b)))
    (hnone : (next none).Agrees n (next' none)) : (rule >>= next).Agrees n (rule' >>= next') := by
  refine step fun found found' h => ?_
  cases h with
  | none => exact hnone
  | some hab => exact hsome _ _ hab

instance (priority := low) optionCases {rule rule' : Rule (Option α)}
    {next next' : Option α → Rule β} [rule.Agrees n rule']
    [hsome : ∀ p : Twins α, (next (some p.first)).Agrees n (next' (some p.second))]
    [hnone : (next none).Agrees n (next' none)] : (rule >>= next).Agrees n (rule' >>= next') :=
  optionStep (fun a b hab => hsome ⟨a, b, hab⟩) hnone

instance (priority := low) pairCases [Likeness γ] {rule rule' : Rule (α × γ)}
    {next next' : α × γ → Rule β} [rule.Agrees n rule']
    [hn : ∀ (p : Twins α) (q : Twins γ),
      (next (p.first, q.first)).Agrees n (next' (p.second, q.second))] :
    (rule >>= next).Agrees n (rule' >>= next') :=
  step fun a b (h : Like a.1 b.1 ∧ Like a.2 b.2) => hn ⟨a.1, b.1, h.1⟩ ⟨a.2, b.2, h.2⟩

instance (priority := low) optionPairs [Likeness γ] {rule rule' : Rule (Option (α × γ))}
    {next next' : Option (α × γ) → Rule β} [rule.Agrees n rule']
    [hsome : ∀ (p : Twins α) (q : Twins γ),
      (next (some (p.first, q.first))).Agrees n (next' (some (p.second, q.second)))]
    [hnone : (next none).Agrees n (next' none)] : (rule >>= next).Agrees n (rule' >>= next') :=
  optionStep (fun _ _ (h : Like _ _ ∧ Like _ _) => hsome ⟨_, _, h.1⟩ ⟨_, _, h.2⟩) hnone

instance (priority := low) optionTriples [Likeness γ] [Likeness δ]
    {rule rule' : Rule (Option (α × γ × δ))} {next next' : Option (α × γ × δ) → Rule β}
    [rule.Agrees n rule']
    [hsome : ∀ (p : Twins α) (q : Twins γ) (r : Twins δ),
      (next (some (p.first, q.first, r.first))).Agrees n
        (next' (some (p.second, q.second, r.second)))]
    [hnone : (next none).Agrees n (next' none)] : (rule >>= next).Agrees n (rule' >>= next') :=
  optionStep (fun _ _ (h : Like _ _ ∧ Like _ _ ∧ Like _ _) =>
    hsome ⟨_, _, h.1⟩ ⟨_, _, h.2.1⟩ ⟨_, _, h.2.2⟩) hnone

instance attempt [rule.Agrees n rule'] : (Rule.attempt rule).Agrees n (Rule.attempt rule') := by
  rw [attempt_eq, attempt_eq]
  exact optionStep (fun _ _ => ofLike) .reject

instance maybeD {a b : α} [Akin a b] [rule.Agrees n rule'] :
    (Rule.maybeD a rule).Agrees n (Rule.maybeD b rule') := .bind

instance found [rule.Agrees n rule'] : (Rule.found rule).Agrees n (Rule.found rule') := .bind

instance (priority := high) boolCases {rule rule' : Rule Bool} {yes no yes' no' : Rule β}
    [rule.Agrees n rule'] [yes.Agrees n yes'] [no.Agrees n no'] :
    (rule >>= fun b => if b = true then yes else no).Agrees n
      (rule' >>= fun b => if b = true then yes' else no') :=
  step fun b b' hb => @cond _ _ _ b b' _ _ _ _ ⟨hb⟩ _ _

instance firstOf_nil : (Rule.firstOf [] : Rule α).Agrees n (Rule.firstOf []) := .reject

instance firstOf_cons [rule.Agrees n rule']
    [(Rule.firstOf rules).Agrees n (Rule.firstOf rules')] :
    (Rule.firstOf (rule :: rules)).Agrees n (Rule.firstOf (rule' :: rules')) := .optionCases

theorem firstOf (h : List.Forall₂ (Agrees n) rules rules') :
    (Rule.firstOf rules).Agrees n (Rule.firstOf rules') := by
  induction h with
  | nil => exact .reject
  | cons _ _ _ => exact firstOf_cons

/-- Where none of the rules succeeds, none of the others does. -/
theorem firstOf_eq_none (h : List.Forall₂ (Agrees n) rules rules')
    (hc : c.mark.rest.length < n)
    (hnone : (Rule.firstOf rules ctx c).1 = none)
    (hclear : (Rule.firstOf rules ctx c).2.tooDeep = none) (hroom : Roomier ctx c ctx' c') :
    ∀ other ∈ rules', (other ctx' c').1 = none := by
  induction h generalizing c with
  | nil => exact nofun
  | @cons rule other rules rules' hr htail ih =>
    rw [Rule.firstOf] at hnone hclear
    cases hrun : rule ctx c with
    | mk value c₁ =>
      cases value with
      | some a =>
        rw [bind_some (maybe_some hrun)] at hnone
        cases hnone
      | none =>
        rw [bind_some (maybe_none hrun)] at hnone hclear
        have hc₁ : c₁.tooDeep = none :=
          (firstOf htail).clear (c := { c₁ with mark := c.mark }) hclear
        have hsame := (hr.same hc (by rw [hrun]; exact hc₁) hroom).isSome
        rw [hrun] at hsame
        refine forall_mem_cons.2 ⟨by simpa using hsame.symm, ?_⟩
        exact ih (c := { c₁ with mark := c.mark }) hc hnone hclear
          ⟨hroom.tolerant, hroom.depth, hroom.rest, hroom.clear⟩

instance peek [h : rule.Agrees n rule'] : (Rule.peek rule).Agrees n (Rule.peek rule') where
  reads hrun := by cases hrun; exact ⟨Nat.le_refl _, rfl⟩
  clear hclear := h.clear hclear
  same hc hclear hroom :=
    have hsame := h.same hc hclear hroom
    .some hsame.isSome hroom.rest hsame.clear
  notes ctx c := (h.notes ctx c).imp fun _ => .peek

theorem foresee [h : rule.Agrees n rule'] (hl : rule.Local) :
    (Rule.foresee rule).Agrees n (Rule.foresee rule') where
  reads hrun := by cases hrun; exact ⟨Nat.le_refl _, rfl⟩
  clear hclear := hclear
  same {ctx c _ _} hc hclear hroom :=
    have hdeep := (hl ctx ctx c c rfl rfl).2.2
    .some (h.same hc (hdeep.trans hclear) hroom).isSome hroom.rest hroom.clear
  notes _ _ := ⟨_, .look⟩

/-- The run that must not nest too deep has one level less to go. -/
instance nested [h : rule.Agrees n rule'] : (Rule.nested rule).Agrees n (Rule.nested rule') where
  reads {ctx c a c'} hrun := by
    rcases nested_cases rule ctx c with ⟨heq, -, -⟩ | ⟨hnone, -⟩
    · exact h.reads (heq.symm.trans hrun)
    · rw [hrun] at hnone; cases hnone
  clear {ctx c} hclear := by
    rcases nested_cases rule ctx c with ⟨-, hc, -⟩ | ⟨-, hdeep⟩
    · exact hc
    · exact absurd hclear hdeep
  same {ctx c ctx' c'} hc hclear hroom := by
    rcases nested_cases rule ctx c with ⟨heq, -, hdepth⟩ | ⟨-, hdeep⟩
    · have hle := hroom.depth
      rw [heq] at hclear ⊢
      rw [nested_of_lt hroom.clear (by omega)]
      exact h.same hc hclear ⟨hroom.tolerant, Nat.succ_le_succ hle, hroom.rest, hroom.clear⟩
    · exact absurd hclear hdeep
  notes ctx c := by
    by_cases hblocked : c.tooDeep = none → maxDepth ≤ ctx.depth
    · exact ⟨_, .blocked hblocked⟩
    · obtain ⟨hclear, hroom⟩ := Classical.not_imp.1 hblocked
      exact (h.notes _ c).imp' _ fun _ => .nested hclear (Nat.not_le.1 hroom)

/-! ## Rules that only look or move -/

/-- Where a construct starts need not be related. -/
theorem startStep {next next' : Nat → Rule α}
    (h : ∀ start start', (next start).Agrees n (next' start')) :
    (Rule.begin >>= next).Agrees n (Rule.begin >>= next') where
  reads {_ c _ _} hrun :=
    ((h c.mark.skipTrivia.offset 0).reads (c := { c with mark := c.mark.skipTrivia }) hrun).imp_left
      (Nat.le_trans · (Mark.length_skipTrivia_le _))
  clear {_ c} hclear :=
    (h c.mark.skipTrivia.offset 0).clear (c := { c with mark := c.mark.skipTrivia }) hclear
  same hc hclear hroom :=
    (h _ _).same (Nat.lt_of_le_of_lt (Mark.length_skipTrivia_le _) hc) hclear hroom.skip
  notes ctx c := ((h c.mark.skipTrivia.offset 0).notes ctx _).imp fun _ => .next .begin rfl

instance (priority := high) start {next next' : Nat → Rule α}
    [h : ∀ start start', (next start).Agrees n (next' start')] :
    (Rule.begin >>= next).Agrees n (Rule.begin >>= next') := startStep h

instance (priority := high) position {next next' : Nat → Rule α}
    [h : ∀ stop stop', (next stop).Agrees n (next' stop')] :
    (Rule.position >>= next).Agrees n (Rule.position >>= next') where
  reads {_ c _ _} hrun := (h c.position 0).reads hrun
  clear {_ c} hclear := (h c.position 0).clear hclear
  same hc hclear hroom := (h _ _).same hc hclear hroom
  notes ctx c := ((h c.position 0).notes ctx c).imp fun _ => .next .look rfl

instance spanFrom (start start' : Nat) : (Rule.spanFrom start).Agrees n (Rule.spanFrom start') where
  reads hrun := by cases hrun; exact ⟨Nat.le_refl _, trivial⟩
  clear hclear := hclear
  same _ _ hroom := .some trivial hroom.rest hroom.clear
  notes _ _ := ⟨_, .look⟩

instance isTolerant : Rule.isTolerant.Agrees n Rule.isTolerant where
  reads hrun := by cases hrun; exact ⟨Nat.le_refl _, rfl⟩
  clear hclear := hclear
  same _ _ hroom := .some hroom.tolerant.symm hroom.rest hroom.clear
  notes _ _ := ⟨_, .look⟩

instance atEnd : Rule.atEnd.Agrees n Rule.atEnd where
  reads hrun := by cases hrun; exact ⟨Nat.le_refl _, rfl⟩
  clear hclear := hclear
  same {ctx c ctx' c'} _ _ hroom := by
    refine .some ?_ hroom.rest hroom.clear
    show c.atEnd = c'.atEnd
    rw [Cursor.atEnd, Cursor.atEnd, rest_skipTrivia, rest_skipTrivia]
    exact hroom.rest.isEmpty_skip
  notes _ _ := ⟨_, .look⟩

/-- How a text is written is not compared. -/
abbrev anyText : Likeness String := ⟨fun _ _ => True, id, fun _ => id⟩

theorem textOf [h : rule.Agrees n rule'] :
    @Agrees String anyText n (Rule.textOf rule) (Rule.textOf rule') := by
  refine @Agrees.mk _ anyText _ _ _ (fun {ctx c a c'} hrun => ?_) (fun {ctx c} hclear => ?_)
    (fun {ctx c ctx' c'} hc hclear hroom => ?_) fun ctx c => (h.notes ctx _).imp fun _ => .textOf
  · rw [Rule.textOf] at hrun
    split at hrun
    · cases hrun
    · next c₁ hr =>
      cases hrun
      exact ⟨Nat.le_trans (h.reads hr).1 (Mark.length_skipTrivia_le _), trivial⟩
  · exact h.clear (c := { c with mark := c.mark.skipTrivia })
      ((tooDeep_textOf rule ctx c).symm.trans hclear)
  · have hsame := h.same (Nat.lt_of_le_of_lt (Mark.length_skipTrivia_le _) hc)
      ((tooDeep_textOf rule ctx c).symm.trans hclear) hroom.skip
    rw [Rule.textOf, Rule.textOf]
    generalize rule ctx { c with mark := c.mark.skipTrivia } = x at hsame
    generalize rule' ctx' { c' with mark := c'.mark.skipTrivia } = y at hsame
    cases hsame with
    | none hclear' => exact @SameRun.none _ anyText _ _ hclear'
    | some _ hrest hclear' => exact @SameRun.some _ anyText _ _ _ _ trivial hrest hclear'

theorem textStep [rule.Agrees n rule'] {next next' : Option String → Rule β}
    (hsome : ∀ text text', (next (some text)).Agrees n (next' (some text')))
    (hnone : (next none).Agrees n (next' none)) :
    (Rule.maybe (Rule.textOf rule) >>= next).Agrees n (Rule.maybe (Rule.textOf rule') >>= next') :=
  have htext : @Agrees String anyText n (Rule.textOf rule) (Rule.textOf rule') := textOf
  have := @maybe _ _ anyText _ _ htext
  @optionStep _ _ _ anyText _ _ _ _ _ this (fun _ _ _ => hsome _ _) hnone

end Agrees

/-! ## Repetition -/

/-- More fuel than there is text changes nothing. -/
def Fueled {α : Type} (rule : List Char → Rule α) : Prop :=
  ∀ {ctx c} (fuel fuel' : List Char), c.mark.rest.length ≤ fuel.length →
    fuel.length ≤ fuel'.length → rule fuel' ctx c = rule fuel ctx c

/-- What comes after the rule matters only where the rule leads. -/
theorem bind_eq_bind {α β : Type} {rule : Rule α} {next next' : α → Rule β}
    (h : ∀ a c', rule ctx c = (some a, c') → next a ctx c' = next' a ctx c') :
    (rule >>= next) ctx c = (rule >>= next') ctx c := by
  cases hr : rule ctx c with
  | mk value c' =>
    cases value with
    | none => rw [bind_none hr, bind_none hr]
    | some a => rw [bind_some hr, bind_some hr, h a c' hr]

theorem fueled_manyWithin {α : Type} {item : Rule (Option α)} [ha : item.Advances] :
    Fueled (manyWithin item) := by
  intro ctx c fuel
  induction fuel generalizing c with
  | nil =>
    intro fuel' hc _
    cases fuel' with
    | nil => rfl
    | cons _ fuel' =>
      refine bind_eq_bind fun found c₁ hr => ?_
      cases found with
      | none => rfl
      | some a => exact absurd (ha.shorter hr) (by rw [length_nil] at hc; omega)
  | cons _ fuel ih =>
    intro fuel' hc hle
    cases fuel' with
    | nil => cases hle
    | cons _ fuel' =>
      rw [length_cons] at hc
      rw [length_cons, length_cons] at hle
      refine bind_eq_bind fun found c₁ hr => ?_
      cases found with
      | none => rfl
      | some a =>
        have hlt := ha.shorter hr
        show Rule.bind _ _ ctx c₁ = Rule.bind _ _ ctx c₁
        rw [Rule.bind, Rule.bind, ih fuel' (by omega) (by omega)]

theorem fueled_growWithin {α : Type} {step : α → Rule (Option α)} [ha : ∀ a, (step a).Advances]
    (a : α) : Fueled fun fuel => growWithin step fuel a := by
  intro ctx c fuel
  induction fuel generalizing c a with
  | nil =>
    intro fuel' hc _
    cases fuel' with
    | nil => rfl
    | cons _ fuel' =>
      refine bind_eq_bind fun found c₁ hr => ?_
      cases found with
      | none => rfl
      | some b => exact absurd ((ha a).shorter hr) (by rw [length_nil] at hc; omega)
  | cons _ fuel ih =>
    intro fuel' hc hle
    cases fuel' with
    | nil => cases hle
    | cons _ fuel' =>
      rw [length_cons] at hc
      rw [length_cons, length_cons] at hle
      refine bind_eq_bind fun found c₁ hr => ?_
      cases found with
      | none => rfl
      | some b =>
        have hlt := (ha a).shorter hr
        exact ih b fuel' (by omega) (by omega)

namespace Agrees

theorem manyWithin {item item' : Rule (Option α)} [item.Agrees n item'] (fuel : List Char) :
    (Rule.manyWithin item fuel).Agrees n (Rule.manyWithin item' fuel) := by
  induction fuel with
  | nil => exact .bind
  | cons _ fuel ih => exact .optionCases

theorem growWithin {step step' : α → Rule (Option α)}
    [h : ∀ p : Twins α, (step p.first).Agrees n (step' p.second)] (fuel : List Char) {a b : α}
    (hab : Like a b) : (Rule.growWithin step fuel a).Agrees n (Rule.growWithin step' fuel b) := by
  have hstep := h ⟨a, b, hab⟩
  have hakin : Akin a b := ⟨hab⟩
  induction fuel generalizing a b with
  | nil => exact .bind
  | cons _ fuel ih =>
    exact .optionStep (fun c d hcd => ih hcd (h ⟨c, d, hcd⟩) ⟨hcd⟩) .pure

/-- With fuel for both texts, both rules have enough. -/
theorem fueled {many many' : List Char → Rule α} (hf : Fueled many) (hf' : Fueled many')
    (h : ∀ fuel, (many fuel).Agrees n (many' fuel)) :
    Agrees n (fun ctx c => many c.mark.rest ctx c) (fun ctx c => many' c.mark.rest ctx c) where
  reads hrun := (h _).reads hrun
  clear hclear := (h _).clear hclear
  same {ctx c ctx' c'} hc hclear hroom := by
    let fuel := c.mark.rest ++ c'.mark.rest
    have hmany : many fuel ctx c = many c.mark.rest ctx c := hf _ _ (Nat.le_refl _) (by simp [fuel])
    have hmany' : many' fuel ctx' c' = many' c'.mark.rest ctx' c' :=
      hf' _ _ (Nat.le_refl _) (by simp [fuel])
    show SameRun (many c.mark.rest ctx c) (many' c'.mark.rest ctx' c')
    rw [← hmany, ← hmany']
    exact (h fuel).same hc ((congrArg (·.2.tooDeep) hmany).trans hclear) hroom
  notes ctx c := ((h _).notes ctx c).imp fun _ => .fueled

instance many {item item' : Rule (Option α)} [item.Agrees n item'] [item.Advances]
    [item'.Advances] : (Rule.many item).Agrees n (Rule.many item') :=
  fueled fueled_manyWithin fueled_manyWithin manyWithin

instance grow {step step' : α → Rule (Option α)}
    [∀ p : Twins α, (step p.first).Agrees n (step' p.second)] [∀ a, (step a).Advances]
    [∀ a, (step' a).Advances] {a b : α} [hab : Akin a b] :
    (Rule.grow step a).Agrees n (Rule.grow step' b) :=
  fueled (fueled_growWithin a) (fueled_growWithin b) fun fuel => growWithin fuel hab.like

end Agrees

/-! ## Words and marks -/

/-- The second value is found from the first one. -/
class Equals {α : Type} (a : α) (b : outParam α) : Prop where
  eq : a = b

instance {α : Type} (a : α) : Equals a a := ⟨rfl⟩

/-- A word or a mark that is not empty. -/
class Nonblank (word : String) : Prop where
  ne : word ≠ ""

/-- A literal is found to have a first letter. -/
instance {c : Char} {cs : List Char} [h : Equals word (String.ofList (c :: cs))] :
    Nonblank word := by
  refine ⟨fun hempty => ?_⟩
  have hcs := congrArg String.toList (h.eq.symm.trans hempty)
  simp at hcs

/-- A letter or an underscore. -/
class Letter (c : Char) : Prop where
  isLetter : (isWordStart c && isWordChar c) = true

class Letters (cs : List Char) : Prop where
  all : cs.all (fun c => isWordStart c && isWordChar c) = true

/-- A word as a whole. -/
class IsWord (word : String) : Prop where
  isWord : Lexeme.isWord word = true

instance : Letter 'A' := ⟨rfl⟩
instance : Letter 'B' := ⟨rfl⟩
instance : Letter 'C' := ⟨rfl⟩
instance : Letter 'D' := ⟨rfl⟩
instance : Letter 'E' := ⟨rfl⟩
instance : Letter 'F' := ⟨rfl⟩
instance : Letter 'G' := ⟨rfl⟩
instance : Letter 'H' := ⟨rfl⟩
instance : Letter 'I' := ⟨rfl⟩
instance : Letter 'J' := ⟨rfl⟩
instance : Letter 'K' := ⟨rfl⟩
instance : Letter 'L' := ⟨rfl⟩
instance : Letter 'M' := ⟨rfl⟩
instance : Letter 'N' := ⟨rfl⟩
instance : Letter 'O' := ⟨rfl⟩
instance : Letter 'P' := ⟨rfl⟩
instance : Letter 'R' := ⟨rfl⟩
instance : Letter 'S' := ⟨rfl⟩
instance : Letter 'T' := ⟨rfl⟩
instance : Letter 'U' := ⟨rfl⟩
instance : Letter 'V' := ⟨rfl⟩
instance : Letter 'W' := ⟨rfl⟩
instance : Letter 'X' := ⟨rfl⟩
instance : Letter 'Y' := ⟨rfl⟩
instance : Letter 'Z' := ⟨rfl⟩
instance : Letter '_' := ⟨rfl⟩

instance : Letters [] := ⟨rfl⟩

instance {c : Char} {cs : List Char} [hc : Letter c] [hs : Letters cs] : Letters (c :: cs) :=
  ⟨by rw [all_cons, hc.isLetter, hs.all, Bool.and_self]⟩

instance {c : Char} {cs : List Char} [h : Equals word (String.ofList (c :: cs))]
    [hcs : Letters (c :: cs)] : IsWord word := by
  have hall := all_eq_true.1 hcs.all
  simp only [Bool.and_eq_true] at hall
  refine ⟨?_⟩
  rw [h.eq, Lexeme.isWord, String.toList_ofList, Bool.and_eq_true]
  exact ⟨(hall c (.head _)).1, all_eq_true.2 fun d hd => (hall d hd).2⟩

theorem IsWord.nonblank [h : IsWord word] : Nonblank word := by
  refine ⟨?_⟩
  rintro rfl
  cases h.isWord

/-- One word after the other. -/
abbrev allOf (words : List String) : Rule Unit := words.forM fun word => do let _ ← keyword word

/-! ## Rules that read something -/

namespace Consumes

theorem terminal {α : Type} (label : String) {scan : Scanner α} (h : scan.Splits)
    (hp : scan.Proper) : (Rule.terminal label scan).Consumes where
  shorter {ctx c a c'} hrun := by
    rw [Rule.terminal] at hrun
    cases hx : scan c.mark.skipTrivia.rest with
    | none => rw [hx] at hrun; cases hrun
    | some x =>
      rw [hx] at hrun
      cases hrun
      have hle := c.mark.length_skipTrivia_le
      have hpos := length_pos_iff.2 (hp _ x hx)
      rw [h _ x hx, length_append] at hle
      show x.rest.length < _
      omega

instance reject : (Rule.reject : Rule α).Consumes where
  shorter hrun := by cases hrun

instance fail (label : String) : (Rule.fail label : Rule α).Consumes where
  shorter hrun := by cases hrun

instance cond {b : Bool} {yes no : Rule α} [hy : yes.Consumes] [hn : no.Consumes] :
    (if b = true then yes else no).Consumes := by
  split
  · exact hy
  · exact hn

theorem map {α β : Type} {rule : Rule α} [h : rule.Consumes] {f : α → β} :
    (rule >>= fun a => pure (f a)).Consumes where
  shorter hrun := by
    obtain ⟨a, c₁, hr, hrun⟩ := bind_eq_some hrun
    cases hrun
    exact h.shorter hr

instance start {next : Nat → Rule α} [h : ∀ start, (next start).Consumes] :
    (Rule.begin >>= next).Consumes where
  shorter {_ c _ _} hrun := Nat.lt_of_lt_of_le
    ((h c.mark.skipTrivia.offset).shorter (c := { c with mark := c.mark.skipTrivia }) hrun)
    (Mark.length_skipTrivia_le _)

/-- What comes later reads something. -/
instance later [h : Stable 0 rule] [hn : ∀ a, (next a).Consumes] : (rule >>= next).Consumes where
  shorter hrun := by
    obtain ⟨a, c₁, hr, hrun⟩ := bind_eq_some hrun
    exact Nat.lt_of_lt_of_le ((hn a).shorter hrun) (h.reads hr).1

instance bind [hr : Stable 0 rule] [h : rule.Consumes]
    [hn : ∀ p : Twins α, (next p.first).Agrees 0 (next p.second)] : (rule >>= next).Consumes where
  shorter hrun := by
    obtain ⟨a, c₁, hrule, hrun⟩ := bind_eq_some hrun
    have hle := ((hn ⟨a, a, (hr.reads hrule).2⟩).reads hrun).1
    exact Nat.lt_of_le_of_lt hle (h.shorter hrule)

instance maybeCases {next : Option α → Rule β} [hr : Stable 0 rule] [h : rule.Consumes]
    [hsome : ∀ p : Twins α, (next (some p.first)).Agrees 0 (next (some p.second))]
    [hnone : (next none).Consumes] : (Rule.maybe rule >>= next).Consumes where
  shorter hrun := by
    obtain ⟨found, c₁, hfound, hrun⟩ := bind_eq_some hrun
    rcases maybe_eq_some hfound with ⟨a, rfl, hrule⟩ | ⟨rfl, hmark⟩
    · have hle := ((hsome ⟨a, a, (hr.reads hrule).2⟩).reads hrun).1
      exact Nat.lt_of_le_of_lt hle (h.shorter hrule)
    · exact hmark ▸ hnone.shorter hrun

instance attempt [h : rule.Consumes] : (Rule.attempt rule).Consumes where
  shorter {ctx c a c'} hrun := by
    rw [Rule.attempt] at hrun
    split at hrun
    · next hr => cases hrun; exact h.shorter hr
    · cases hrun

instance foundCases {yes no : Rule β} [Stable 0 rule] [rule.Consumes] [hy : Stable 0 yes]
    [hn : no.Consumes] : (Rule.found rule >>= fun b => if b = true then yes else no).Consumes := by
  rw [found_bind]
  exact @maybeCases _ _ _ _ _ _ _ _ (fun _ => hy) hn

theorem firstOf (h : ∀ rule ∈ rules, Stable 0 rule ∧ rule.Consumes) :
    (Rule.firstOf rules).Consumes := by
  induction rules with
  | nil => exact .reject
  | cons rule rules ih =>
    obtain ⟨hagrees, hrule⟩ := h rule (.head _)
    have hrules := ih fun rule hm => h rule (.tail _ hm)
    exact .maybeCases

instance firstOf_nil : (Rule.firstOf [] : Rule α).Consumes := .reject

instance firstOf_cons [Stable 0 rule] [rule.Consumes]
    [(Rule.firstOf rules).Consumes] : (Rule.firstOf (rule :: rules)).Consumes := .maybeCases

end Consumes

namespace Advances

instance maybe [h : rule.Consumes] : (Rule.maybe rule).Advances where
  shorter hrun := by
    rcases maybe_eq_some hrun with ⟨b, -, hr⟩ | ⟨hnone, -⟩
    · exact h.shorter hr
    · cases hnone

/-- What the rule finds, it finds after it has read something. -/
instance maybeBind {next : Option α → Rule (Option β)} [hr : Stable 0 rule] [h : rule.Consumes]
    [hsome : ∀ p : Twins α, (next (some p.first)).Agrees 0 (next (some p.second))]
    [hnone : (next none).Advances] : (Rule.maybe rule >>= next).Advances where
  shorter hrun := by
    obtain ⟨found, c₁, hfound, hrun⟩ := bind_eq_some hrun
    rcases maybe_eq_some hfound with ⟨a, rfl, hrule⟩ | ⟨rfl, hmark⟩
    · have hle := ((hsome ⟨a, a, (hr.reads hrule).2⟩).reads hrun).1
      exact Nat.lt_of_le_of_lt hle (h.shorter hrule)
    · exact hmark ▸ hnone.shorter hrun

instance (priority := low) maybeTriples [Likeness γ] [Likeness δ]
    {rule : Rule (α × γ × δ)} {next : Option (α × γ × δ) → Rule (Option β)} [Stable 0 rule]
    [rule.Consumes]
    [hsome : ∀ (p : Twins α) (q : Twins γ) (r : Twins δ),
      (next (some (p.first, q.first, r.first))).Agrees 0
        (next (some (p.second, q.second, r.second)))]
    [(next none).Advances] : (Rule.maybe rule >>= next).Advances :=
  @maybeBind _ _ _ _ _ _ _ _
    (fun p => hsome ⟨_, _, p.like.1⟩ ⟨_, _, p.like.2.1⟩ ⟨_, _, p.like.2.2⟩) _

instance foundCases {yes no : Rule (Option β)} [Stable 0 rule] [rule.Consumes]
    [hy : Stable 0 yes] [hn : no.Advances] :
    (Rule.found rule >>= fun b => if b = true then yes else no).Advances := by
  rw [found_bind]
  exact @maybeBind _ _ _ _ _ _ _ _ (fun _ => hy) hn

instance stop : (pure none : Rule (Option α)).Advances where
  shorter hrun := by cases hrun

end Advances

namespace Agrees

/-- A token that may be missing, and what comes after it in either case. -/
theorem maybeAfterStep {next next' : Option α → Rule β} [h : rule.Agrees (n + 1) rule']
    [hr : rule.Consumes] (hsome : ∀ a b, Like a b → (next (some a)).Agrees n (next' (some b)))
    (hnone : (next none).Agrees (n + 1) (next' none)) :
    (Rule.maybe rule >>= next).Agrees (n + 1) (Rule.maybe rule' >>= next') := by
  refine bindLeaving (k := fun found => found.elim (n + 1) fun _ => n) .maybe ?_ fun _ _ hab => ?_
  · intro ctx c found c' hrun hc
    rcases maybe_eq_some hrun with ⟨a, rfl, hrule⟩ | ⟨rfl, hmark⟩
    · exact Nat.lt_of_lt_of_le (hr.shorter hrule) (Nat.le_of_lt_succ hc)
    · exact hmark ▸ hc
  · cases hab with
    | none => exact hnone
    | some hab => exact hsome _ _ hab

instance (priority := high) maybeAfter {next next' : Option α → Rule β}
    [rule.Agrees (n + 1) rule'] [rule.Consumes]
    [hsome : ∀ p : Twins α, (next (some p.first)).Agrees n (next' (some p.second))]
    [hnone : (next none).Agrees (n + 1) (next' none)] :
    (Rule.maybe rule >>= next).Agrees (n + 1) (Rule.maybe rule' >>= next') :=
  maybeAfterStep (fun a b hab => hsome ⟨a, b, hab⟩) hnone

instance (priority := high) foundAfter {yes no yes' no' : Rule β} [rule.Agrees (n + 1) rule']
    [rule.Consumes] [hy : yes.Agrees n yes'] [hn : no.Agrees (n + 1) no'] :
    (Rule.found rule >>= fun b => if b = true then yes else no).Agrees (n + 1)
      (Rule.found rule' >>= fun b => if b = true then yes' else no') := by
  rw [found_bind, found_bind]
  exact maybeAfterStep (fun _ _ _ => hy) hn

instance star [rule.Agrees n rule'] [rule.Consumes] [rule'.Consumes] :
    (Rule.star rule).Agrees n (Rule.star rule') := many

instance plus [rule.Agrees n rule'] [rule.Consumes] [rule'.Consumes] :
    (Rule.plus rule).Agrees n (Rule.plus rule') := .bind

/-! ## Terminals -/

theorem terminal (label : String) {scan : Scanner α} (hlike : ∀ a : α, Like a a)
    (h : scan.Matches Eq) (hs : scan.Splits) :
    Stable n (Rule.terminal label scan) where
  reads {ctx c a c'} hrun := by
    rw [Rule.terminal] at hrun
    cases hx : scan c.mark.skipTrivia.rest with
    | none => rw [hx] at hrun; cases hrun
    | some x =>
      rw [hx] at hrun
      cases hrun
      have hle := c.mark.length_skipTrivia_le
      rw [hs _ x hx, length_append] at hle
      refine ⟨?_, hlike _⟩
      show x.rest.length ≤ _
      omega
  clear {ctx c} hclear := ((Local.terminal label scan ctx ctx c c rfl rfl).2.2).symm.trans hclear
  same {ctx c ctx' c'} _ _ hroom := by
    have hscan := hroom.rest.scan_skip h hs
    rw [← rest_skipTrivia, ← rest_skipTrivia] at hscan
    rw [Rule.terminal, Rule.terminal]
    generalize scan c.mark.skipTrivia.rest = x at hscan
    generalize scan c'.mark.skipTrivia.rest = y at hscan
    cases hscan with
    | none => exact .none (by simpa using hroom.clear)
    | @some x y hv hr =>
      have hvalue : Like x.value y.value := hv ▸ hlike _
      exact .some hvalue hr hroom.clear
  notes _ c := by
    cases hx : scan c.mark.skipTrivia.rest with
    | none => exact ⟨_, .miss hx⟩
    | some x => exact ⟨_, .read hs hx⟩

instance keyword (word : String) [h : IsWord word] : Stable n (Rule.keyword word) :=
  have := terminal (n := n) word (fun _ => rfl) (matches_keyword h.isWord) (splits_keyword word)
  .bind

instance allOf_nil : Stable n (allOf []) := .pure

instance allOf_cons (word : String) (words : List String) [IsWord word] [Stable n (allOf words)] :
    Stable n (allOf (word :: words)) := .bind

instance keywords (words : List String) [Stable n (allOf words)] : Stable n (Rule.keywords words) :=
  .attempt

instance oneOf_nil : (Rule.oneOf [] : Rule (Spanned α)).Agrees n (Rule.oneOf []) := .reject

instance oneOf_cons (word : String) (a : α) (words : List (String × α)) [Akin a a] [IsWord word]
    [Stable n (Rule.oneOf words)] :
    Stable n (Rule.oneOf ((word, a) :: words)) := .optionCases

instance anyOf_nil : Stable n (Rule.anyOf []) := oneOf_nil

instance anyOf_cons (word : String) (words : List String) [IsWord word]
    [h : Stable n (Rule.anyOf words)] :
    Stable n (Rule.anyOf (word :: words)) :=
  @oneOf_cons _ _ _ word word _ _ _ h

theorem ofPunctuation {mark : String} (h : (punctuation mark).Matches Eq) :
    Stable n (Rule.punct mark) :=
  have := terminal (n := n) mark (fun _ => rfl) h (splits_punctuation mark)
  .bind

/-- Punctuation of one character, apart from the dot. -/
def isPunct (mark : String) : Bool :=
  match mark.toList with
  | [c] => isMark c && !Text.isSpace c && c != '-' && c != '/'
  | _ => false

theorem punct (mark : String) (hmark : isPunct mark = true) : Stable n (Rule.punct mark) := by
  rw [isPunct] at hmark
  split at hmark
  · next c hc =>
    simp only [Bool.and_eq_true, Bool.not_eq_true', bne_iff_ne, ne_eq] at hmark
    obtain ⟨⟨⟨hmark, hspace⟩, hdash⟩, hslash⟩ := hmark
    exact ofPunctuation (matches_punctuation hc hmark ⟨hspace, hdash, hslash⟩)
  · cases hmark

instance : Stable n (Rule.punct "(") := punct _ rfl
instance : Stable n (Rule.punct ")") := punct _ rfl
instance : Stable n (Rule.punct "[") := punct _ rfl
instance : Stable n (Rule.punct "]") := punct _ rfl
instance : Stable n (Rule.punct ",") := punct _ rfl
instance : Stable n (Rule.punct "*") := punct _ rfl
instance : Stable n (Rule.punct ":") := punct _ rfl
instance : Stable n (Rule.punct ";") := punct _ rfl
instance : Stable n (Rule.punct ".") := ofPunctuation matches_dot
instance : Stable n (Rule.punct "::") := ofPunctuation matches_two_colons

theorem operator : (Rule.terminal "operator" Lexeme.operator).Agrees n
    (Rule.terminal "operator" Lexeme.operator) :=
  terminal _ (fun _ => rfl) matches_operator splits_operator

instance operatorWhere (label : String) (allowed : String → Bool) :
    Stable n (Rule.operatorWhere label allowed) :=
  have := operator (n := n)
  .optionCases

instance symbol (op : String) : Stable n (Rule.symbol op) := .bind

instance number : Stable n Rule.number := terminal _ (fun _ => rfl) matches_number splits_number

instance string : Stable n Rule.string := terminal _ (fun _ => rfl) matches_string splits_string

theorem name (label : String) (reserved : Bool) :
    Stable n (Rule.terminal label (Lexeme.identifier reserved)) :=
  terminal _ (fun _ => ⟨rfl, rfl⟩) (matches_identifier _) (splits_identifier _)

instance identifier : Stable n Rule.identifier := name _ _

instance label : Stable n Rule.label := name _ _

instance param : Stable n Rule.param := terminal _ (fun _ => rfl) matches_param splits_param

end Agrees

namespace Consumes

instance keyword (word : String) [IsWord word] : (Rule.keyword word).Consumes :=
  have := terminal word (splits_keyword word) (proper_keyword IsWord.nonblank.ne)
  map

instance allOf (word : String) (words : List String) [IsWord word] [Stable 0 (allOf words)] :
    (Rule.allOf (word :: words)).Consumes :=
  have : Consumes (do let _ ← Rule.keyword word) := .bind
  .bind

instance keywords (words : List String) [Stable 0 (Rule.allOf words)] [(Rule.allOf words).Consumes] :
    (Rule.keywords words).Consumes := .attempt

instance oneOf_nil : (Rule.oneOf [] : Rule (Spanned α)).Consumes := .reject

instance oneOf_cons (word : String) (a : α) (words : List (String × α)) [Akin a a] [IsWord word]
    [(Rule.oneOf words).Consumes] : (Rule.oneOf ((word, a) :: words)).Consumes := .maybeCases

instance anyOf_nil : (Rule.anyOf []).Consumes := oneOf_nil

instance anyOf_cons (word : String) (words : List String) [IsWord word]
    [h : (Rule.anyOf words).Consumes] : (Rule.anyOf (word :: words)).Consumes :=
  @oneOf_cons _ _ word word _ _ _ h

instance punct (mark : String) [h : Nonblank mark] : (Rule.punct mark).Consumes :=
  have := terminal mark (splits_punctuation mark) (proper_punctuation h.ne)
  map

instance operatorWhere (label : String) (allowed : String → Bool) :
    (Rule.operatorWhere label allowed).Consumes :=
  have := terminal "operator" splits_operator proper_operator
  have := Agrees.operator (n := 0)
  .maybeCases

instance number : Rule.number.Consumes := terminal _ splits_number proper_number

instance string : Rule.string.Consumes := terminal _ splits_string proper_string

end Consumes

namespace Agrees

instance startsQuery : Stable n Rule.startsQuery :=
  foresee ((Local.many (Local.punct "(").maybe).bind fun _ => Local.oneOf _)

set_option synthInstance.maxSize 1000 in
instance separated [rule.Agrees n rule'] [Stable 0 rule] [Stable 0 rule'] :
    (Rule.separated "," rule).Agrees n (Rule.separated "," rule') :=
  have _stop : (Pure.pure (none : Option (Option α)).join : Rule (Option α)).Advances := .stop
  .bind

instance parens [rule.Agrees n rule'] : (Rule.parens rule).Agrees n (Rule.parens rule') := .bind

instance [rule.Agrees n rule'] : (Rule.parens rule).Agrees (n + 1) (Rule.parens rule') := .after

end Agrees

end Rule

end SqlTyping
