import SqlTyping.Proofs.Layout.Rules
import SqlTyping.Proofs.Nesting.Cover

/-!
# Rules that cover what they read

`Runs` follows a rule from a place on, of which it is known what has been covered up to there and
how many brackets have been opened. A rule covers what it reads if it leads from no cover at all to a
cover by the sketch of what it has read. How many brackets may be open around it depends on the depth
at which the rule is run, its room.
-/

namespace SqlTyping.Survey

open Lexeme List
open Fold (sketch)

variable {α β : Type} {S : Survey} {m m' : S.Spot} {mark : String} {d a k : Nat} {kind : TokenKind}
  {rule : Rule α} {c : Cursor} {x : α}

/-- Escapes do not change where the strings of the text end. -/
class IsPlain (S : Survey) : Prop where
  plain : Plain S.text.toList

theorem plain_rest [S.IsPlain] (i : Nat) : Plain (S.mark i).rest :=
  IsPlain.plain.suffix (drop_suffix i _)

/-! ## Room for brackets -/

/-- At most one bracket for each level around. -/
def here (d : Nat) : Nat := d

/-- One bracket more. -/
def inside (d : Nat) : Nat := d + 1

/-- As many brackets as there may be levels. -/
def anywhere (_ : Nat) : Nat := maxDepth

/-- One more bracket can be opened. -/
class Roomy (room : Nat → Nat) : Prop where
  le : ∀ d, d ≤ maxDepth → room d ≤ maxDepth

instance : Roomy here := ⟨fun _ hd => hd⟩

instance : Roomy anywhere := ⟨fun _ _ => Nat.le_refl _⟩

/-- What is nested is read one level deeper, and not too deep. -/
theorem Ensures.guarded {Q : α → S.Spot → Prop} (h : d < maxDepth → S.Ensures rule (d + 1) m Q) :
    S.Ensures (Rule.nested rule) d m Q := by
  by_cases hd : d < maxDepth
  · exact .nested (h hd)
  · intro c result c' hc hrun
    rw [Rule.nested] at hrun
    split at hrun
    · cases hrun
      exact ⟨Nat.le_of_eq hc.deep.symm, no_result⟩
    · next hclear =>
      rw [if_pos (Nat.le_of_not_lt hd)] at hrun
      cases hrun
      have hzero : c.deep = 0 := Cursor.deep_eq_zero.2 (by simpa using hclear)
      have heq := hc.deep
      exact ⟨by omega, no_result⟩

/-- A cursor is at one spot only. -/
theorem Spot.eq_of_at (h : c.At m) (h' : c.At m') : m = m' := by
  have hlen := h.length
  have hlen' := h'.length
  have hdeep := h.deep
  have hdeep' := h'.deep
  obtain ⟨index, _, deep⟩ := m
  obtain ⟨index', _, deep'⟩ := m'
  obtain rfl : index = index' := by dsimp only at hlen hlen'; omega
  obtain rfl : deep = deep' := by dsimp only at hdeep hdeep'; omega
  rfl

theorem Ensures.and {Q Q' : α → S.Spot → Prop} (h : S.Ensures rule d m Q)
    (h' : S.Ensures rule d m Q') : S.Ensures rule d m fun x m' => Q x m' ∧ Q' x m' := by
  intro c result c' hc hrun
  obtain ⟨hdeep, hread⟩ := h hc hrun
  refine ⟨hdeep, fun x hx => ?_⟩
  obtain ⟨m₁, hm₁, hq⟩ := hread x hx
  obtain ⟨m₂, hm₂, hq'⟩ := (h' hc hrun).2 x hx
  obtain rfl := Spot.eq_of_at hm₁ hm₂
  exact ⟨m₁, hm₁, hq, hq'⟩

/-! ## Runs from a covered stretch -/

/-- Where the text is covered by `s` from some place on and `e` brackets have been opened since, the
rule closes them, and `Q` holds of what it has read and of a sketch that covers all of it. -/
def Runs (S : Survey) (room : Nat → Nat) (e : Nat) (s : Sketch) (rule : Rule α)
    (Q : α → Sketch → Prop) : Prop :=
  ∀ d a (m : S.Spot) i, d ≤ maxDepth → a ≤ room d → S.Crosses a i (a + e) m.index (S.reach s) →
    S.Ensures rule d m fun x m' => ∃ t, S.Crosses a i a m'.index (S.reach t) ∧ Q x t

/-- `Q` holds of what the rule reads and of a sketch that covers it. -/
abbrev Gives (S : Survey) (room : Nat → Nat) (rule : Rule α) (Q : α → Sketch → Prop) : Prop :=
  S.Runs room 0 .empty rule Q

/-- What was read shows all that the other sketch does. -/
abbrev Shows (S : Survey) (of : α → Sketch) (x : α) (t : Sketch) : Prop := S.reach t ≤ S.reach (of x)

/-- What the rule reads is covered by the sketch of it. -/
abbrev Covers (S : Survey) (room : Nat → Nat) (rule : Rule α) (of : α → Sketch) : Prop :=
  S.Gives room rule (S.Shows of)

/-- What the rule reads holds neither parameters nor brackets that stay open. -/
class Passes (S : Survey) (room : Nat → Nat) (rule : Rule α) : Prop where
  covers : S.Covers room rule fun _ => .empty

variable {room room' : Nat → Nat} {e : Nat} {s : Sketch} {rule : Rule α} {next : α → Rule β}
  {Q Q' : α → Sketch → Prop} {P : β → Sketch → Prop} {of : α → Sketch}

namespace Runs

theorem mono (h : S.Runs room e s rule Q) (hq : ∀ x t, Q x t → Q' x t) :
    S.Runs room e s rule Q' := by
  intro d a m i hd ha hcross
  refine (h d a m i hd ha hcross).mono fun x m' hread => ?_
  obtain ⟨t, ht, hqt⟩ := hread
  exact ⟨t, ht, hq x t hqt⟩

/-- A rule that can go on from a larger cover can go on from a smaller one. -/
theorem weaken {s' : Sketch} (h : S.Runs room e s' rule Q) (hs : S.reach s ≤ S.reach s') :
    S.Runs room e s rule Q :=
  fun d a m i hd ha hcross => h d a m i hd ha (hcross.mono hs)

theorem narrow (h : S.Runs room' e s rule Q) (hroom : ∀ d, room d ≤ room' d) :
    S.Runs room e s rule Q :=
  fun d a m i hd ha hcross => h d a m i hd (ha.trans (hroom d)) hcross

theorem pure (h : Q x s) : S.Runs room 0 s (pure x) Q :=
  fun _ _ _ _ _ _ hcross => .pure ⟨s, hcross, h⟩

theorem cond {test : Bool} {yes no : Rule α} (hy : S.Runs room e s yes Q)
    (hn : S.Runs room e s no Q) : S.Runs room e s (if test = true then yes else no) Q := by
  cases test with
  | false => exact hn
  | true => exact hy

theorem reject : S.Runs room e s (Rule.reject : Rule α) Q := fun _ _ _ _ _ _ _ => .reject

theorem fail (label : String) : S.Runs room e s (Rule.fail label : Rule α) Q :=
  fun _ _ _ _ _ _ _ => .fail label

theorem attempt (h : S.Runs room e s rule Q) : S.Runs room e s (Rule.attempt rule) Q :=
  fun d a m i hd ha hcross => (h d a m i hd ha hcross).attempt

/-- A rule that replaces a value over and over keeps the value covered. -/
theorem grow {step : α → Rule (Option α)}
    (hstep : ∀ x, S.Runs room 0 (of x) (step x) fun result t => S.Shows of (result.getD x) t) :
    S.Runs room 0 (of x) (Rule.grow step x) (S.Shows of) := by
  have hwithin : ∀ (fuel : List Char) (x : α),
      S.Runs room 0 (of x) (Rule.growWithin step fuel x) (S.Shows of) := by
    intro fuel
    induction fuel with
    | nil =>
      intro x d a m i hd ha hcross
      exact (hstep x d a m i hd ha hcross).bind fun result m' hread => .pure hread
    | cons _ fuel ih =>
      intro x d a m i hd ha hcross
      refine (hstep x d a m i hd ha hcross).bind fun result m' hread => ?_
      obtain ⟨t, ht, hshows⟩ := hread
      cases result with
      | none => exact .pure ⟨t, ht, hshows⟩
      | some y => exact ih y d a m' i hd ha (ht.mono hshows)
  exact fun d a m i hd ha hcross c result c' hc hrun =>
    hwithin c.mark.rest x d a m i hd ha hcross hc hrun

end Runs

/-! ## One rule after the other -/

namespace Gives

theorem bind (h : S.Gives room' rule Q) (hroom : ∀ d, room d + e ≤ room' d)
    (hn : ∀ x t, Q x t → S.Runs room e (s.both t) (next x) P) :
    S.Runs room e s (rule >>= next) P := by
  intro d a m i hd ha hcross
  have hle := hroom d
  refine (h d (a + e) m m.index hd (by omega) (.refl _ _)).bind fun x m' hread => ?_
  obtain ⟨t, ht, hqt⟩ := hread
  exact hn x t hqt d a m' i hd ha (hcross.trans ht)

theorem maybeCases {next : Option α → Rule β} (h : S.Gives room' rule Q)
    (hroom : ∀ d, room d + e ≤ room' d)
    (hsome : ∀ x t, Q x t → S.Runs room e (s.both t) (next (some x)) P)
    (hnone : S.Runs room e s (next none) P) : S.Runs room e s (Rule.maybe rule >>= next) P := by
  intro d a m i hd ha hcross
  have hle := hroom d
  refine (h d (a + e) m m.index hd (by omega) (.refl _ _)).maybeCases
    (fun x m' hread => ?_) fun m' hindex hdeep => ?_
  · obtain ⟨t, ht, hqt⟩ := hread
    exact hsome x t hqt d a m' i hd ha (hcross.trans ht)
  · exact hnone d a m' i hd ha (by rwa [hindex])

theorem firstOf {rules : List (Rule α)} (h : ∀ rule ∈ rules, S.Gives room rule Q) :
    S.Gives room (Rule.firstOf rules) Q := by
  intro d a m i hd ha hcross
  refine Ensures.firstOf fun rule hmem m' hindex _ => ?_
  exact h rule hmem d a m' i hd ha (by rwa [hindex])

/-- In brackets that are no level of nesting. -/
theorem inner {P : α → Sketch → Prop} (h : S.Gives here rule Q) (hzero : ∀ x t, Q x t → P x t)
    (hinner : ∀ x t, Q x t → P x t.inner) : S.Gives inside rule P := by
  intro d a m i hd ha hcross
  cases a with
  | zero =>
    refine (h d 0 m i hd (Nat.zero_le _) hcross).mono fun x m' hread => ?_
    obtain ⟨t, ht, hqt⟩ := hread
    exact ⟨t, ht, hzero x t hqt⟩
  | succ a =>
    refine (h d a m m.index hd (Nat.le_of_succ_le_succ ha) (.refl _ _)).mono fun x m' hread => ?_
    obtain ⟨t, ht, hqt⟩ := hread
    exact ⟨t.inner, (hcross.trans ht.shift).mono (by simp; rfl), hinner x t hqt⟩

/-- `Q` holds of the next value if there is one; otherwise nothing has been covered. -/
def Item (S : Survey) (Q : α → Sketch → Prop) : Option α → Sketch → Prop
  | none, t => S.reach t ≤ ⊥
  | some x, t => Q x t

theorem many {item : Rule (Option α)} {P : List α → Sketch → Prop}
    (h : S.Gives room item (Item S Q)) (hnil : ∀ t, S.reach t ≤ ⊥ → P [] t)
    (hone : ∀ x t, Q x t → P [x] t)
    (hcons : ∀ x rest t u, Q x t → P rest u → P (x :: rest) (t.both u)) :
    S.Gives room (Rule.many item) P := by
  have hwithin : ∀ fuel : List Char, S.Gives room (Rule.manyWithin item fuel) P := by
    intro fuel
    induction fuel with
    | nil =>
      intro d a m i hd ha hcross
      refine (h d a m i hd ha hcross).bind fun result m' hread => .pure ?_
      obtain ⟨t, ht, hitem⟩ := hread
      cases result with
      | none => exact ⟨t, ht, hnil t hitem⟩
      | some x => exact ⟨t, ht, hone x t hitem⟩
    | cons _ fuel ih =>
      intro d a m i hd ha hcross
      refine (h d a m i hd ha hcross).bind fun result m' hread => ?_
      obtain ⟨t, ht, hitem⟩ := hread
      cases result with
      | none => exact .pure ⟨t, ht, hnil t hitem⟩
      | some x =>
        refine (ih d a m' m'.index hd ha (.refl _ _)).bind fun rest m'' hrest => .pure ?_
        obtain ⟨u, hu, hlist⟩ := hrest
        exact ⟨t.both u, ht.trans hu, hcons x rest t u hitem hlist⟩
  exact fun d a m i hd ha hcross c result c' hc hrun =>
    hwithin c.mark.rest d a m i hd ha hcross hc hrun

theorem star {P : List α → Sketch → Prop} (h : S.Gives room rule Q)
    (hnil : ∀ t, S.reach t ≤ ⊥ → P [] t) (hone : ∀ x t, Q x t → P [x] t)
    (hcons : ∀ x rest t u, Q x t → P rest u → P (x :: rest) (t.both u)) :
    S.Gives room (Rule.star rule) P := by
  refine many (Q := Q) (fun d a m i hd ha hcross => ?_) hnil hone hcons
  refine (h d a m i hd ha hcross).maybe.mono fun result m' htried => ?_
  cases result with
  | none => exact ⟨.empty, by rwa [htried.1], le_rfl⟩
  | some x => exact htried

end Gives

namespace Covers

theorem mono {of' : α → Sketch} (h : S.Covers room rule of)
    (hle : ∀ x, S.reach (of x) ≤ S.reach (of' x)) : S.Covers room rule of' :=
  Runs.mono h fun x _ ht => le_trans ht (hle x)

/-- Outside of a bracket there is more room. -/
theorem out (h : S.Covers inside rule of) : S.Covers here rule of := Runs.narrow h Nat.le_succ

/-- The first part of a rule. -/
theorem first (h : S.Covers room rule of) (hn : ∀ x, S.Runs room 0 (of x) (next x) P) :
    S.Runs room 0 .empty (rule >>= next) P :=
  Gives.bind h (fun _ => Nat.le_refl _) fun x _ ht => (hn x).weaken (by simpa using ht)

/-- A further part of a rule. -/
theorem add (h : S.Covers room rule of) (hn : ∀ x, S.Runs room 0 (s.both (of x)) (next x) P) :
    S.Runs room 0 s (rule >>= next) P :=
  Gives.bind h (fun _ => Nat.le_refl _) fun x _ ht => (hn x).weaken (reach_both_le ht)

/-- A part in a bracket. -/
theorem addIn (h : S.Covers inside rule of) (hn : ∀ x, S.Runs here 1 (s.both (of x)) (next x) P) :
    S.Runs here 1 s (rule >>= next) P :=
  Gives.bind h (fun _ => Nat.le_refl _) fun x _ ht => (hn x).weaken (reach_both_le ht)

/-- The first part in a bracket. -/
theorem firstIn (h : S.Covers inside rule of) (hn : ∀ x, S.Runs here 1 (of x) (next x) P) :
    S.Runs here 1 .empty (rule >>= next) P :=
  h.addIn fun x => (hn x).weaken (by simp)

/-- A part that may be missing at the start of a rule. -/
theorem firstCases {next : Option α → Rule β} (h : S.Covers room rule of)
    (hsome : ∀ x, S.Runs room 0 (of x) (next (some x)) P)
    (hnone : S.Runs room 0 .empty (next none) P) :
    S.Runs room 0 .empty (Rule.maybe rule >>= next) P :=
  Gives.maybeCases h (fun _ => Nat.le_refl _)
    (fun x _ ht => (hsome x).weaken (by simpa using ht)) hnone

/-- A further part that may be missing. -/
theorem addCases {next : Option α → Rule β} (h : S.Covers room rule of)
    (hsome : ∀ x, S.Runs room 0 (s.both (of x)) (next (some x)) P)
    (hnone : S.Runs room 0 s (next none) P) : S.Runs room 0 s (Rule.maybe rule >>= next) P :=
  Gives.maybeCases h (fun _ => Nat.le_refl _) (fun x _ ht => (hsome x).weaken (reach_both_le ht))
    hnone

theorem maybe (h : S.Covers room rule of) : S.Covers room (Rule.maybe rule) (sketch.opt of) := by
  intro d a m i hd ha hcross
  refine (h d a m i hd ha hcross).maybe.mono fun result m' htried => ?_
  cases result with
  | none => exact ⟨.empty, by rwa [htried.1], le_rfl⟩
  | some x => exact htried

theorem maybeD {fallback : α} (h : S.Covers room rule of) :
    S.Covers room (Rule.maybeD fallback rule) of :=
  h.firstCases (fun _ => .pure le_rfl) (.pure bot_le)

theorem attempt (h : S.Covers room rule of) : S.Covers room (Rule.attempt rule) of := Runs.attempt h

/-- In brackets that are no level of nesting. -/
theorem inner (h : S.Covers here rule of) : S.Covers inside rule fun x => (of x).inner :=
  Gives.inner h (fun _ _ ht => ht.trans (reach_le_inner _)) fun _ _ ht => reach_inner_le ht

/-- What is nested is a level of its own. -/
theorem nested (h : S.Covers here rule of) : S.Covers inside (Rule.nested rule) of :=
  fun d a m i _ ha hcross => .guarded fun hlt => h (d + 1) a m i hlt ha hcross

theorem star (h : S.Covers room rule of) : S.Covers room (Rule.star rule) (sketch.all of) :=
  Gives.star h (fun _ ht => ht) (fun _ _ ht => by simpa [Fold.all] using ht)
    fun _ _ _ _ ht hu => sup_le_sup ht hu

theorem plus (h : S.Covers room rule of) : S.Covers room (Rule.plus rule) (sketch.all of) :=
  h.attempt.first fun _ => h.star.add fun _ => .pure le_rfl

end Covers

theorem Runs.pass [h : S.Passes room rule] (hn : ∀ x, S.Runs room 0 s (next x) P) :
    S.Runs room 0 s (rule >>= next) P :=
  h.covers.add fun x => (hn x).weaken (by simp)

theorem Runs.passIn [h : S.Passes (fun d => room d + 1) rule]
    (hn : ∀ x, S.Runs room 1 s (next x) P) : S.Runs room 1 s (rule >>= next) P :=
  Gives.bind h.covers (fun _ => Nat.le_refl _) fun x _ ht => (hn x).weaken (reach_both_bot ht)

theorem Runs.passCases {next : Option α → Rule β} [h : S.Passes room rule]
    (hsome : ∀ x, S.Runs room 0 s (next (some x)) P) (hnone : S.Runs room 0 s (next none) P) :
    S.Runs room 0 s (Rule.maybe rule >>= next) P :=
  h.covers.addCases (fun x => (hsome x).weaken (by simp)) hnone

theorem Runs.foundCases {yes no : Rule β} [S.Passes room rule] (hy : S.Runs room 0 s yes P)
    (hn : S.Runs room 0 s no P) :
    S.Runs room 0 s (Rule.found rule >>= fun test => if test = true then yes else no) P := by
  rw [Rule.found_bind]
  exact .passCases (fun _ => hy) hn

namespace Passes

theorem each [S.Passes room rule] (hn : ∀ x, S.Passes room (next x)) :
    S.Passes room (rule >>= next) := ⟨.pass fun x => (hn x).covers⟩

instance bind [S.Passes room rule] [hn : ∀ x, S.Passes room (next x)] :
    S.Passes room (rule >>= next) := each hn

instance pure {x : α} : S.Passes room (Pure.pure x) := ⟨.pure le_rfl⟩

theorem branch {test : Bool} {yes no : Rule α} [hy : S.Passes room yes] (hn : S.Passes room no) :
    S.Passes room (if test = true then yes else no) := ⟨.cond hy.covers hn.covers⟩

instance cond {test : Bool} {yes no : Rule α} [S.Passes room yes] [hn : S.Passes room no] :
    S.Passes room (if test = true then yes else no) := branch hn

instance reject : S.Passes room (Rule.reject : Rule α) := ⟨.reject⟩

instance fail (label : String) : S.Passes room (Rule.fail label : Rule α) := ⟨.fail label⟩

instance attempt [h : S.Passes room rule] : S.Passes room (Rule.attempt rule) := ⟨h.covers.attempt⟩

instance maybe [h : S.Passes room rule] : S.Passes room (Rule.maybe rule) :=
  ⟨h.covers.maybe.mono fun result => by cases result <;> exact le_rfl⟩

instance found [S.Passes room rule] : S.Passes room (Rule.found rule) := .bind

instance maybeD {fallback : α} [S.Passes room rule] : S.Passes room (Rule.maybeD fallback rule) :=
  .bind

theorem optionStep {rule : Rule (Option α)} {next : Option α → Rule β} [S.Passes room rule]
    (hsome : ∀ x, S.Passes room (next (some x))) (hnone : S.Passes room (next none)) :
    S.Passes room (rule >>= next) := by
  refine @bind _ _ _ _ _ _ _ fun found => ?_
  cases found with
  | none => exact hnone
  | some x => exact hsome x

instance (priority := low) optionCases {rule : Rule (Option α)} {next : Option α → Rule β}
    [S.Passes room rule] [hsome : ∀ x, S.Passes room (next (some x))]
    [hnone : S.Passes room (next none)] : S.Passes room (rule >>= next) := optionStep hsome hnone

instance firstOf_nil : S.Passes room (Rule.firstOf [] : Rule α) := reject

instance firstOf_cons {rules : List (Rule α)} [S.Passes room rule]
    [S.Passes room (Rule.firstOf rules)] : S.Passes room (Rule.firstOf (rule :: rules)) :=
  .optionCases

instance star [h : S.Passes room rule] : S.Passes room (Rule.star rule) :=
  ⟨h.covers.star.mono fun list => (reach_all_empty list).le⟩

instance many {item : Rule (Option α)} [h : S.Passes room item] : S.Passes room (Rule.many item) :=
  ⟨Gives.many (Q := S.Shows fun _ => .empty)
    (Runs.mono h.covers fun result _ ht => by cases result <;> exact ht) (fun _ ht => ht)
    (fun _ _ ht => ht) fun _ _ _ _ ht hu => sup_le ht hu⟩

end Passes

/-! ## Rules that only look or move -/

/-- A rule that stays where it is. -/
theorem Ensures.still {Q : α → S.Spot → Prop} (h : ∀ ctx c, (rule ctx c).2 = c) (hq : ∀ x, Q x m) :
    S.Ensures rule d m Q := by
  intro c result c' hc hrun
  obtain rfl : c = c' := by rw [← h ⟨S.tolerant, d⟩ c, hrun]
  exact ⟨Nat.le_of_eq hc.deep.symm, fun x _ => ⟨m, hc, hq x⟩⟩

theorem Passes.ensures [h : S.Passes here rule] (hd : d ≤ maxDepth) (ha : a ≤ d) :
    S.Ensures rule d m fun _ m' => S.Crosses a m.index a m'.index ⊥ := by
  refine (h.covers d a m m.index hd ha (.refl _ _)).mono fun x m' hread => ?_
  obtain ⟨t, ht, hle⟩ := hread
  exact ht.mono hle

theorem passes_of_still (h : ∀ ctx c, (rule ctx c).2 = c) : S.Passes room rule :=
  ⟨fun _ _ _ _ _ _ hcross => .still h fun _ => ⟨.empty, hcross, le_rfl⟩⟩

instance : S.Passes room Rule.position := passes_of_still fun _ _ => rfl

instance : S.Passes room Rule.isTolerant := passes_of_still fun _ _ => rfl

instance : S.Passes room Rule.atEnd := passes_of_still fun _ _ => rfl

instance {start : Nat} : S.Passes room (Rule.spanFrom start) := passes_of_still fun _ _ => rfl

theorem passes_peek {Q : α → Nat → S.Spot → Prop} (h : S.Lays 0 k rule Q) :
    S.Passes room (Rule.peek rule) := by
  refine ⟨fun d a m i hd ha hcross c result c' hc hrun => ?_⟩
  cases hr : rule ⟨S.tolerant, d⟩ c with
  | mk value c₁ =>
    rw [Rule.peek, hr] at hrun
    cases hrun
    have hdeep := (h d m (Nat.zero_le _) hc hr).1
    exact ⟨hdeep, fun _ _ => ⟨⟨m.index, m.le, c₁.deep⟩, ⟨hc.mark, rfl⟩, .empty, hcross, le_rfl⟩⟩

instance (word : String) [Rule.Nonblank word] : S.Passes room (Rule.peek (Rule.keyword word)) :=
  passes_peek (Lays.keyword word)

instance (mark : String) [Rule.Nonblank mark] : S.Passes room (Rule.peek (Rule.punct mark)) :=
  passes_peek (Lays.punct mark)

/-- The span begins where it is said to. -/
theorem Runs.spanFrom {start : Nat} {next : Span → Rule β}
    (hn : ∀ stop, S.Runs room 0 s (next ⟨start, stop⟩) P) :
    S.Runs room 0 s (Rule.spanFrom start >>= next) P :=
  fun d a m i hd ha hcross c _ _ hc hrun => hn (max c.position start) d a m i hd ha hcross hc hrun

theorem tokens_of_skipTrivia (h : c.At m) (h' : Cursor.At { c with mark := c.mark.skipTrivia } m') :
    (S.mark m.index).tokens = (S.mark m'.index).tokens := by
  rw [← h'.mark, h.mark, Mark.tokens_skipTrivia]

theorem ensures_begin : S.Ensures Rule.begin d m fun start m' =>
    start = S.offset m'.index ∧ ∀ a, S.Crosses a m.index a m'.index ⊥ := by
  intro c result c' hc hrun
  obtain ⟨m', hto, hm'⟩ := hc.skipTrivia
  have htokens := tokens_of_skipTrivia hc hm'
  cases hrun
  refine ⟨Nat.le_of_eq hc.deep.symm, fun start hstart => ⟨m', hm', ?_, .silent hto.1 htokens⟩⟩
  cases hstart
  exact congrArg Mark.offset hm'.mark

instance : S.Passes room Rule.begin := by
  refine ⟨fun d a m i hd ha hcross => ?_⟩
  refine ensures_begin.mono fun start m' hread => ⟨.empty, ?_, le_rfl⟩
  exact (hcross.trans (hread.2 a)).mono (by simp)

/-- Of what is read for its text only, the brackets count. -/
theorem Covers.textOf (h : S.Gives here rule fun _ _ => True) :
    S.Covers inside (Rule.textOf rule) .frame := by
  intro d a m i hd ha hcross c result c' hc hrun
  obtain ⟨m₁, hto, hm₁⟩ := hc.skipTrivia
  have htokens := tokens_of_skipTrivia hc hm₁
  cases hr : rule ⟨S.tolerant, d⟩ { c with mark := c.mark.skipTrivia } with
  | mk value c₁ =>
    rw [Rule.textOf, hr] at hrun
    obtain ⟨hdeep, hread⟩ := h d 0 m₁ m₁.index hd (Nat.zero_le _) (.refl _ _) hm₁ hr
    have hdeep₁ : c.deep = m₁.deep := hm₁.deep
    have hdeep₀ := hc.deep
    cases value with
    | none =>
      cases hrun
      exact ⟨by omega, no_result⟩
    | some x =>
      cases hrun
      obtain ⟨m₂, hm₂, t, ht, -⟩ := hread x rfl
      have hmark : c.mark.skipTrivia.rest = S.text.toList.drop m₁.index :=
        congrArg Mark.rest hm₁.mark
      have hlen₁ : m₁.index + c.mark.skipTrivia.rest.length = S.text.length := hm₁.length
      have hlen₂ : m₂.index + c'.mark.rest.length = S.text.length := hm₂.length
      have hlen : c.mark.skipTrivia.rest.length - c'.mark.rest.length = m₂.index - m₁.index := by
        omega
      have hle : a ≤ maxDepth + 1 := ha.trans (Nat.succ_le_succ hd)
      have hframe := (ht.among hle).mono (between_le_frame ht.le)
      refine ⟨by omega, fun words hwords => ⟨m₂, hm₂, .frame words, ?_, le_rfl⟩⟩
      cases hwords
      rw [hlen, hmark]
      exact ((hcross.trans (.silent hto.1 htokens a)).trans hframe).mono (by simp)

/-! ## Terminals -/

theorem startsTrivia_of_skipTrivia {i j : Nat} (h : (S.mark i).skipTrivia = S.mark j) :
    startsTrivia (S.mark j).rest = false := h ▸ Mark.startsTrivia_skipTrivia _

theorem passes_terminal [S.IsPlain] (label : String) {scan : Scanner α} (hs : scan.Splits)
    (h : Silent scan) : S.Passes room (Rule.terminal label scan) := by
  refine ⟨fun d a m i hd ha hcross => ?_⟩
  refine (Lays.ensures_terminal label hs).mono fun token m' hread => ?_
  obtain ⟨j, x, hle, hlen, hskip, hx, (hafter : _ = (S.mark j).after x), -⟩ := hread
  have htokens : (S.mark m.index).tokens = (S.mark m'.index).tokens := by
    rw [← Mark.tokens_skipTrivia, hskip, hafter]
    exact h _ x (startsTrivia_of_skipTrivia hskip) (plain_rest j) hx
  exact ⟨.empty, (hcross.trans (.silent (by omega) htokens a)).mono (by simp), le_rfl⟩

/-- A token that starts at `j` and nothing else. -/
theorem Stretch.token {i j : Nat} (hle : i ≤ j ∧ j < k ∧ k ≤ S.text.length)
    (htokens : (S.mark i).tokens = ⟨kind, S.offset j⟩ :: (S.mark k).tokens)
    (hopened : S.opened j + (if kind = .opening then 1 else 0) ≤ S.opened k) :
    S.Stretch i k [⟨kind, S.offset j⟩] where
  le := by omega
  tokens_eq := htokens
  offsets := by
    intro token hmem
    obtain rfl := mem_singleton.1 hmem
    exact ⟨offset_le hle.1, offset_lt hle.2.1 hle.2.2⟩
  opened := by
    have hmono : S.opened i ≤ S.opened j := opened_le hle.1
    have hcount : Token.openings [⟨kind, S.offset j⟩] = if kind = .opening then 1 else 0 := by
      rw [Token.openings_cons, Token.openings, countP_nil, Nat.zero_add]
    omega

theorem ensures_bracket {c : Char} (hmark : mark.toList = [c]) (hc : isMark c = true)
    (hkind : bracketKind? c = some kind) (hopening : kind = .opening → isOpening c = true) :
    S.Ensures (Rule.punct mark) d m fun _ m' =>
      ∃ offset, S.Stretch m.index m'.index [⟨kind, offset⟩] := by
  refine (Lays.ensures_terminal mark (splits_punctuation mark)).bind fun token m' hread => .pure ?_
  obtain ⟨j, x, hle, hlen, hskip, hx, (hafter : _ = (S.mark j).after x), -⟩ := hread
  obtain ⟨rest, (hrest : S.text.toList.drop j = _), rfl⟩ := punctuation_cases hx
  rw [hmark] at hrest
  rw [hmark, length_singleton] at hlen
  refine ⟨S.offset j, .token ⟨hle, by omega, m'.le⟩ ?_ ?_⟩
  · rw [← Mark.tokens_skipTrivia, hskip,
      tokens_bracket hmark hc (startsTrivia_of_skipTrivia hskip) hx, hkind, ← hafter]
    rfl
  · have hadd : S.opened m'.index = S.opened j + [c].countP isOpening := by
      rw [← hlen, opened_add, hrest]
      rfl
    rw [hadd]
    split
    · next hkind => simp [hopening hkind]
    · exact Nat.le_add_right _ _

/-- A bracket is opened. -/
theorem Runs.opening [Roomy room] {next : Span → Rule β} (hmark : mark = "(" ∨ mark = "[")
    (hn : ∀ span, S.Runs room 1 s (next span) P) :
    S.Runs room 0 s (Rule.punct mark >>= next) P := by
  intro d a m i hd ha hcross
  have hread : S.Ensures (Rule.punct mark) d m fun _ m' =>
      ∃ offset, S.Stretch m.index m'.index [⟨.opening, offset⟩] := by
    rcases hmark with rfl | rfl
    · exact ensures_bracket (c := '(') rfl rfl rfl fun _ => rfl
    · exact ensures_bracket (c := '[') rfl rfl rfl fun _ => rfl
  refine hread.bind fun span m' hstretch => hn span d a m' i hd ha ?_
  obtain ⟨offset, hstretch⟩ := hstretch
  have hroom : a ≤ maxDepth := ha.trans (Roomy.le d hd)
  have hopen : S.Crosses a m.index (a + 1) m'.index ⊥ :=
    ⟨_, hstretch, .opening (Nat.lt_succ_of_le hroom) .nil, by simp⟩
  exact (hcross.trans hopen).mono (by simp)

theorem ensures_closing (hmark : mark = ")" ∨ mark = "]") (a : Nat) :
    S.Ensures (Rule.punct mark) d m fun _ m' =>
      S.Crosses (a + 1) m.index a m'.index ⊥ := by
  have hread : S.Ensures (Rule.punct mark) d m fun _ m' =>
      ∃ offset, S.Stretch m.index m'.index [⟨.closing, offset⟩] := by
    rcases hmark with rfl | rfl
    · exact ensures_bracket (c := ')') rfl rfl rfl (by simp)
    · exact ensures_bracket (c := ']') rfl rfl rfl (by simp)
  refine hread.mono fun span m' hstretch => ?_
  obtain ⟨offset, hstretch⟩ := hstretch
  exact ⟨_, hstretch, .closing .nil, by simp⟩

/-- The bracket is closed. -/
theorem Runs.closing {next : Span → Rule β} (hmark : mark = ")" ∨ mark = "]")
    (hn : ∀ span, S.Runs room 0 s (next span) P) :
    S.Runs room 1 s (Rule.punct mark >>= next) P := by
  intro d a m i hd ha hcross
  refine (ensures_closing hmark a).bind fun span m' hclose => hn span d a m' i hd ha ?_
  exact (hcross.trans hclose).mono (by simp)

/-- The bracket is closed at the end. -/
theorem Runs.close {Q : Span → Sketch → Prop} (hmark : mark = ")" ∨ mark = "]")
    (hq : ∀ span, Q span s) : S.Runs room 1 s (Rule.punct mark) Q := by
  intro d a m i hd ha hcross
  refine (ensures_closing hmark a).mono fun span m' hclose => ?_
  exact ⟨s, (hcross.trans hclose).mono (by simp), hq span⟩

theorem Covers.parens [Roomy room] (h : S.Covers (fun d => room d + 1) rule of) :
    S.Covers room (Rule.parens rule) of :=
  Runs.opening (.inl rfl) fun _ => Gives.bind h (fun _ => Nat.le_refl _) fun _ _ ht =>
    .closing (.inl rfl) fun _ => .pure (by simpa using ht)

instance [Roomy room] [h : S.Passes (fun d => room d + 1) rule] :
    S.Passes room (Rule.parens rule) := ⟨h.covers.parens⟩

theorem covers_param : S.Covers room Rule.param fun token =>
    .param ⟨token.value.name, token.value.required, token.value.spread, [], token.span⟩ := by
  intro d a m i hd ha hcross
  refine (Lays.ensures_terminal _ splits_param).mono fun token m' hread => ?_
  obtain ⟨j, x, hle, hlen, hskip, hx, (hafter : _ = (S.mark j).after x), hspan, -⟩ := hread
  have hpos := length_pos_iff.2 (proper_param _ x hx)
  have htokens : (S.mark m.index).tokens = ⟨.param, S.offset j⟩ :: (S.mark m'.index).tokens := by
    rw [← Mark.tokens_skipTrivia, hskip, tokens_param (startsTrivia_of_skipTrivia hskip) hx, hafter]
    rfl
  have hstretch : S.Stretch m.index m'.index [⟨.param, S.offset j⟩] :=
    .token ⟨hle, by omega, m'.le⟩ htokens (opened_le (by omega))
  have hparam : S.Crosses a m.index a m'.index (S.reach (.param
      ⟨token.value.name, token.value.required, token.value.spread, [], token.span⟩)) := by
    refine ⟨_, hstretch, .param .nil, fun offset hmem => ?_⟩
    obtain ⟨-, rfl⟩ := Token.mk.inj (mem_singleton.1 hmem)
    exact congrArg Span.start hspan
  exact ⟨_, (hcross.trans hparam).mono (by simp), le_rfl⟩

section Plain

variable [S.IsPlain]

instance (word : String) [h : Rule.IsWord word] : S.Passes room (Rule.keyword word) :=
  have : S.Passes room (Rule.terminal word (Lexeme.keyword word)) :=
    passes_terminal word (splits_keyword word) (silent_keyword h.isWord)
  .bind

instance : S.Passes room ([].forM fun word => do let _ ← Rule.keyword word) := .pure

instance (word : String) (words : List String) [Rule.IsWord word]
    [S.Passes room (words.forM fun word => do let _ ← Rule.keyword word)] :
    S.Passes room ((word :: words).forM fun word => do let _ ← Rule.keyword word) := .bind

instance (words : List String)
    [S.Passes room (words.forM fun word => do let _ ← Rule.keyword word)] :
    S.Passes room (Rule.keywords words) := .attempt

instance : S.Passes room (Rule.oneOf [] : Rule (Spanned α)) := .reject

instance oneOf_cons (word : String) (x : α) (words : List (String × α)) [Rule.IsWord word]
    [S.Passes room (Rule.oneOf words)] : S.Passes room (Rule.oneOf ((word, x) :: words)) :=
  .optionCases

instance : S.Passes room (Rule.anyOf []) := .reject

instance (word : String) (words : List String) [Rule.IsWord word]
    [h : S.Passes room (Rule.anyOf words)] : S.Passes room (Rule.anyOf (word :: words)) :=
  @oneOf_cons _ _ _ _ word word _ _ h

theorem passes_punct (h : Silent (punctuation mark)) : S.Passes room (Rule.punct mark) :=
  have : S.Passes room (Rule.terminal mark (punctuation mark)) :=
    passes_terminal mark (splits_punctuation mark) h
  .bind

instance : S.Passes room (Rule.punct ",") :=
  passes_punct (silent_punctuation (c := ',') rfl rfl rfl)

instance : S.Passes room (Rule.punct "*") :=
  passes_punct (silent_punctuation (c := '*') rfl rfl rfl)

instance : S.Passes room (Rule.punct ":") :=
  passes_punct (silent_punctuation (c := ':') rfl rfl rfl)

instance : S.Passes room (Rule.punct ";") :=
  passes_punct (silent_punctuation (c := ';') rfl rfl rfl)

instance : S.Passes room (Rule.punct ".") := passes_punct silent_dot

instance : S.Passes room (Rule.punct "::") := passes_punct silent_colons

instance (label : String) (allowed : String → Bool) :
    S.Passes room (Rule.operatorWhere label allowed) :=
  have : S.Passes room (Rule.terminal "operator" Lexeme.operator) :=
    passes_terminal _ splits_operator silent_operator
  .optionCases

instance (op : String) : S.Passes room (Rule.symbol op) := .bind

instance : S.Passes room Rule.number := passes_terminal _ splits_number silent_number

instance : S.Passes room Rule.string := passes_terminal _ splits_string silent_string

instance : S.Passes room Rule.identifier :=
  passes_terminal _ (splits_identifier _) (silent_identifier _)

instance : S.Passes room Rule.label := passes_terminal _ (splits_identifier _) (silent_identifier _)

/-! ## Lists -/

/-- The first item of a list, and what comes after it. -/
theorem ensures_separated (h : S.Covers room rule of) (hd : d ≤ maxDepth) (ha : a ≤ room d)
    {F : α → S.Spot → Prop} (hfirst : S.Ensures rule d m F) :
    S.Ensures (Rule.separated "," rule) d m fun list m' => ∃ first rest, ∃ m₁ : S.Spot,
      list = first :: rest ∧ F first m₁ ∧
        S.Crosses a m₁.index a m'.index (S.reach (sketch.all of rest)) := by
  refine hfirst.attempt.bind fun first m₁ hF => Ensures.bind (Q := fun rest m' =>
    S.Crosses a m₁.index a m'.index (S.reach (sketch.all of rest))) ?_ fun rest m' hrest =>
      .pure ⟨first, rest, m₁, rfl, hF, hrest⟩
  have hmany {next : Rule (Option α)} (hnext : S.Gives room next (Gives.Item S (S.Shows of))) :
      S.Covers room (Rule.many (do return (← Rule.maybe next).join)) (sketch.all of) := by
    refine Gives.many (Q := S.Shows of) ?_ (fun _ ht => ht)
      (fun _ _ ht => by simpa [Fold.all] using ht) fun _ _ _ _ ht hu => sup_le_sup ht hu
    refine Gives.maybeCases hnext (fun _ => Nat.le_refl _) (fun result t ht => ?_) (.pure le_rfl)
    cases result with
    | none => exact .pure (by simpa [Gives.Item] using ht)
    | some x => exact .pure (by simpa [Gives.Item] using ht)
  refine (hmany ?_ d a m₁ m₁.index hd ha (.refl _ _)).mono fun rest m' hread => ?_
  · exact .pass fun _ => h.firstCases (fun _ => .pure le_rfl)
      (.pass fun _ => .cond (.pure le_rfl) .reject)
  · obtain ⟨t, ht, hle⟩ := hread
    exact ht.mono hle

theorem Covers.separated (h : S.Covers room rule of) :
    S.Covers room (Rule.separated "," rule) (sketch.all of) := by
  intro d a m i hd ha hcross
  refine (ensures_separated h hd ha (h d a m i hd ha hcross)).mono fun list m' hread => ?_
  obtain ⟨first, rest, m₁, rfl, ⟨t, ht, hle⟩, hrest⟩ := hread
  exact ⟨t.both (sketch.all of rest), ht.trans hrest,
    sup_le_sup hle (le_refl (S.reach (sketch.all of rest)))⟩

instance [h : S.Passes room rule] : S.Passes room (Rule.separated "," rule) :=
  ⟨h.covers.separated.mono fun list => (reach_all_empty list).le⟩

end Plain

end SqlTyping.Survey
