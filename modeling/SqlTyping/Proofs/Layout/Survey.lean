import SqlTyping.Proofs.Layout.Grouping
import SqlTyping.Proofs.Syntax.Rule

/-!
# Surveys of a text

A survey is a text and the way it is read. A layout fits between two places of the text if its spans
lie there, one in the other as its nodes do, and its operators group as their levels say. `Ensures`
says what holds of what a rule reads and of the place it leads to.
-/

namespace SqlTyping

open List

variable {c : Cursor} {i j : Nat} {S : Survey}

/-- A text to be read, and whether it is being typed. -/
structure Survey where
  text : String
  tolerant : Bool

namespace Survey

variable {α β : Type} {S : Survey}

/-! ## Places -/

/-- The offset of the character with the given index. -/
def offset (S : Survey) (i : Nat) : Nat := Text.byteSize (S.text.toList.take i)

def mark (S : Survey) (i : Nat) : Mark := ⟨S.text.toList.drop i, S.offset i⟩

def span (S : Survey) (i j : Nat) : Span := ⟨S.offset i, S.offset j⟩

theorem offset_add (i k : Nat) :
    S.offset (i + k) = S.offset i + Text.byteSize ((S.text.toList.drop i).take k) := by
  rw [offset, offset, take_add, Text.byteSize_append]

theorem offset_le (h : i ≤ j) : S.offset i ≤ S.offset j := by
  obtain ⟨k, rfl⟩ := Nat.exists_eq_add_of_le h
  rw [offset_add]
  omega

theorem offset_lt (h : i < j) (hj : j ≤ S.text.length) : S.offset i < S.offset j := by
  have hnext : S.offset i < S.offset (i + 1) := by
    rw [← String.length_toList] at hj
    rw [offset_add, drop_eq_getElem_cons (by omega), take_succ_cons, Text.byteSize]
    have hpos := (S.text.toList[i]).utf8Size_pos
    omega
  have hrest : S.offset (i + 1) ≤ S.offset j := offset_le h
  omega

/-- A state in which rules are run: a place in the text, and whether nesting has gone too deep on
the way, which is 0 as long as it has not. -/
structure Spot (S : Survey) where
  index : Nat
  le : index ≤ S.text.length
  deep : Nat

/-- The second spot comes after the first one, at least `k` characters later. -/
abbrev Spot.To (k : Nat) (m m' : S.Spot) : Prop := m.index + k ≤ m'.index ∧ m.deep ≤ m'.deep

end Survey

def Cursor.deep (c : Cursor) : Nat := if c.tooDeep.isSome then 1 else 0

@[simp] theorem Cursor.deep_eq_zero : c.deep = 0 ↔ c.tooDeep = none := by
  rw [Cursor.deep]
  cases c.tooDeep <;> simp

@[simp] theorem Cursor.deep_expect (c : Cursor) (offset : Nat) (label : String) :
    (c.expect offset label).deep = c.deep := by
  rw [Cursor.deep, Cursor.tooDeep_expect, Cursor.deep]

structure Cursor.At {S : Survey} (c : Cursor) (m : S.Spot) : Prop where
  mark : c.mark = S.mark m.index
  deep : c.deep = m.deep

namespace Cursor.At

variable {S : Survey} {c : Cursor} {m : S.Spot}

theorem length (h : c.At m) : m.index + c.mark.rest.length = S.text.length := by
  have hle := m.le
  rw [h.mark, Survey.mark, length_drop, String.length_toList]
  omega

theorem isIn (h : c.At m) : c.mark.In S.text := by
  rw [h.mark]
  exact Text.dropBytes?_eq_some_iff.2 ⟨_, (take_append_drop _ _).symm, rfl⟩

end Cursor.At

/-- A cursor in the text is at a spot. -/
theorem Cursor.exists_at (h : c.mark.In S.text) : ∃ m : S.Spot, c.At m := by
  obtain ⟨before, htext, hoffset⟩ := Text.dropBytes?_eq_some_iff.1 h
  have hle : before.length ≤ S.text.length := by
    rw [← String.length_toList, htext, length_append]
    omega
  refine ⟨⟨before.length, hle, c.deep⟩, ?_, rfl⟩
  rw [Survey.mark, Survey.offset, htext, drop_left, take_left, ← hoffset]

theorem Cursor.At.skipTrivia {m : S.Spot} (h : c.At m) :
    ∃ m' : S.Spot, m.To 0 m' ∧ Cursor.At { c with mark := c.mark.skipTrivia } m' := by
  obtain ⟨m', hm'⟩ := exists_at (c := { c with mark := c.mark.skipTrivia }) h.isIn.skipTrivia
  have hlen := h.length
  have hlen' : m'.index + c.mark.skipTrivia.rest.length = S.text.length := hm'.length
  have hle := c.mark.length_skipTrivia_le
  have hdeep := h.deep
  have hdeep' : c.deep = m'.deep := hm'.deep
  exact ⟨m', by omega, hm'⟩

/-! ## Layouts that fit -/

/-- The layout lies between two places. Only the name of a column in text that is being typed may be
empty. -/
inductive Layout.Fits (S : Survey) (deep : Nat) : (lo hi : Nat) → Layout → Prop where
  | empty {lo hi : Nat} : Layout.Fits S deep lo hi .empty
  | both {lo hi : Nat} {first second : Layout} (left : Layout.Fits S deep lo hi first)
      (right : Layout.Fits S deep lo hi second) : Layout.Fits S deep lo hi (first.both second)
  | node {lo hi i j : Nat} {part : Part} {inside : Layout} (grouped : part.Grouped deep)
      (bounds : lo ≤ i ∧ i ≤ j ∧ j ≤ hi)
      (nonempty : i < j ∨ S.tolerant = true ∧ part = .columnName ⟨"", false, S.span i j⟩)
      (within : Layout.Fits S deep i j inside) :
      Layout.Fits S deep lo hi (.node part (S.span i j) inside)

namespace Layout.Fits

variable {α : Type} {S : Survey} {deep deep' lo hi lo' hi' : Nat} {layout : Layout}

theorem mono (h : layout.Fits S deep lo hi) (hb : lo' ≤ lo ∧ hi ≤ hi' ∧ deep ≤ deep') :
    layout.Fits S deep' lo' hi' := by
  induction h generalizing lo' hi' with
  | empty => exact .empty
  | both _ _ ihleft ihright => exact .both (ihleft hb) (ihright hb)
  | node grouped bounds nonempty _ ih =>
    exact .node (grouped.mono hb.2.2) (by omega) nonempty (ih (by omega))

theorem group (hb : lo ≤ i ∧ i < j ∧ j ≤ hi) (h : layout.Fits S deep i j) :
    (Layout.group (S.span i j) layout).Fits S deep lo hi :=
  .node trivial (by omega) (.inl hb.2.1) h

theorem leaf (hb : lo ≤ i ∧ i < j ∧ j ≤ hi) :
    (Layout.leaf (S.span i j)).Fits S deep lo hi := group hb .empty

theorem exists_of_leaf {span : Span} (h : (Layout.leaf span).Fits S deep lo hi) :
    ∃ i j, span = S.span i j ∧ lo ≤ i ∧ i < j ∧ j ≤ hi := by
  cases h with
  | @node _ _ i j _ _ _ bounds nonempty _ =>
    rcases nonempty with hlt | ⟨-, hpart⟩
    · exact ⟨i, j, rfl, bounds.1, hlt, bounds.2.2⟩
    · cases hpart

theorem all {of : α → Layout} {list : List α} :
    (Layout.all of list).Fits S deep lo hi ↔ ∀ a ∈ list, (of a).Fits S deep lo hi := by
  induction list with
  | nil => exact ⟨fun _ => nofun, fun _ => .empty⟩
  | cons a rest ih =>
    rw [forall_mem_cons, ← ih]
    constructor
    · intro h
      cases h with
      | both left right => exact ⟨left, right⟩
    · rintro ⟨left, right⟩
      exact .both left right

end Layout.Fits

/-! ## What a rule ensures -/

namespace Survey

variable {α β : Type} {S : Survey} {b k d : Nat} {rule : Rule α} {next : α → Rule β} {m : S.Spot}

/-- From the spot, at the given depth, the rule leads to a spot where `Q` holds of what it has read,
if it succeeds. -/
def Ensures (S : Survey) (rule : Rule α) (d : Nat) (m : S.Spot) (Q : α → S.Spot → Prop) : Prop :=
  ∀ ⦃c result c'⦄, c.At m → rule ⟨S.tolerant, d⟩ c = (result, c') →
    m.deep ≤ c'.deep ∧ ∀ a, result = some a → ∃ m' : S.Spot, c'.At m' ∧ Q a m'

/-- The result of a rule that may fail. A failure does not move, but nesting may have gone too deep
in it. -/
def Tried (S : Survey) (Q : α → S.Spot → Prop) (m : S.Spot) : Option α → S.Spot → Prop
  | none, m' => m'.index = m.index ∧ m.deep ≤ m'.deep
  | some a, m' => Q a m'

/-- The result of one step of a repetition: `Q` holds of the last value, or some text has been read
and the invariant `I` holds of the next one. -/
def Grows (S : Survey) (I Q : α → S.Spot → Prop) (a : α) (m : S.Spot) : Option α → S.Spot → Prop
  | none, m' => Q a m'
  | some next, m' => m.To 1 m' ∧ I next m'

variable {Q : α → S.Spot → Prop} {P : β → S.Spot → Prop}

/-- A rule that fails has read nothing. -/
theorem no_result {P : α → Prop} (a : α) (h : none = some a) : P a := nomatch h

namespace Ensures

theorem mono {Q' : α → S.Spot → Prop} (h : S.Ensures rule d m Q) (hq : ∀ a m', Q a m' → Q' a m') :
    S.Ensures rule d m Q' := by
  intro c result c' hc hrun
  obtain ⟨hdeep, hread⟩ := h hc hrun
  refine ⟨hdeep, fun a ha => ?_⟩
  obtain ⟨m', hm', hqa⟩ := hread a ha
  exact ⟨m', hm', hq a m' hqa⟩

/-- What is ensured is ensured of some run. -/
theorem withRun (h : S.Ensures rule d m Q) : S.Ensures rule d m fun a m' => Q a m' ∧
      ∃ c c', c.At m ∧ c'.At m' ∧ rule ⟨S.tolerant, d⟩ c = (some a, c') := by
  intro c result c' hc hrun
  obtain ⟨hdeep, hread⟩ := h hc hrun
  refine ⟨hdeep, fun a ha => ?_⟩
  obtain ⟨m', hm', hqa⟩ := hread a ha
  exact ⟨m', hm', hqa, c, c', hc, hm', ha ▸ hrun⟩

theorem pure {a : α} (h : Q a m) : S.Ensures (pure a) d m Q := by
  intro c result c' hc hrun
  cases hrun
  refine ⟨Nat.le_of_eq hc.deep.symm, fun _ ha => ?_⟩
  cases ha
  exact ⟨m, hc, h⟩

theorem bind (h : S.Ensures rule d m Q) (hn : ∀ a m', Q a m' → S.Ensures (next a) d m' P) :
    S.Ensures (rule >>= next) d m P := by
  intro c result c' hc hrun
  cases hr : rule ⟨S.tolerant, d⟩ c with
  | mk value c₁ =>
    obtain ⟨hdeep, hread⟩ := h hc hr
    cases value with
    | none =>
      rw [Rule.bind_none hr] at hrun
      cases hrun
      exact ⟨hdeep, no_result⟩
    | some a =>
      rw [Rule.bind_some hr] at hrun
      obtain ⟨m₁, hm₁, hqa⟩ := hread a rfl
      obtain ⟨hdeep', hread'⟩ := hn a m₁ hqa hm₁ hrun
      have heq := hm₁.deep
      exact ⟨by omega, hread'⟩

theorem cond {test : Bool} {yes no : Rule α} (hy : test = true → S.Ensures yes d m Q)
    (hn : test = false → S.Ensures no d m Q) : S.Ensures (if test = true then yes else no) d m Q := by
  cases test with
  | false => exact hn rfl
  | true => exact hy rfl

theorem reject : S.Ensures (Rule.reject : Rule α) d m Q := by
  intro c result c' hc hrun
  cases hrun
  exact ⟨Nat.le_of_eq hc.deep.symm, no_result⟩

theorem fail (label : String) : S.Ensures (Rule.fail label : Rule α) d m Q := by
  intro c result c' hc hrun
  cases hrun
  refine ⟨?_, no_result⟩
  rw [Cursor.deep_expect, hc.deep]

theorem maybe (h : S.Ensures rule d m Q) : S.Ensures (Rule.maybe rule) d m (S.Tried Q m) := by
  intro c result c' hc hrun
  cases hr : rule ⟨S.tolerant, d⟩ c with
  | mk value c₁ =>
    obtain ⟨hdeep, hread⟩ := h hc hr
    cases value with
    | none =>
      rw [Rule.maybe_none hr] at hrun
      cases hrun
      refine ⟨hdeep, fun _ ha => ?_⟩
      cases ha
      exact ⟨⟨m.index, m.le, c₁.deep⟩, ⟨hc.mark, rfl⟩, rfl, hdeep⟩
    | some a =>
      rw [Rule.maybe_some hr] at hrun
      cases hrun
      refine ⟨hdeep, fun _ ha => ?_⟩
      cases ha
      exact hread a rfl

theorem maybeCases {next : Option α → Rule β} (h : S.Ensures rule d m Q)
    (hsome : ∀ a m', Q a m' → S.Ensures (next (some a)) d m' P)
    (hnone : ∀ m' : S.Spot, m'.index = m.index → m.deep ≤ m'.deep → S.Ensures (next none) d m' P) :
    S.Ensures (Rule.maybe rule >>= next) d m P := by
  refine h.maybe.bind fun result m' htried => ?_
  cases result with
  | none => exact hnone m' htried.1 htried.2
  | some a => exact hsome a m' htried

theorem attempt (h : S.Ensures rule d m Q) : S.Ensures (Rule.attempt rule) d m Q := by
  rw [Rule.attempt_eq]
  exact h.maybeCases (fun _ _ hq => .pure hq) fun _ _ _ => .reject

theorem firstOf {rules : List (Rule α)}
    (h : ∀ rule ∈ rules, ∀ m' : S.Spot, m'.index = m.index → m.deep ≤ m'.deep →
      S.Ensures rule d m' Q) : S.Ensures (Rule.firstOf rules) d m Q := by
  induction rules generalizing m with
  | nil => exact .reject
  | cons rule rules ih =>
    refine (h rule (.head _) m rfl (Nat.le_refl _)).maybeCases (fun _ _ hq => .pure hq)
      fun m₁ hindex hdeep => ih fun rule hmem m₂ hindex' hdeep' => ?_
    exact h rule (.tail _ hmem) m₂ (hindex'.trans hindex) (Nat.le_trans hdeep hdeep')

/-- What is nested is read one level deeper. -/
theorem nested (h : S.Ensures rule (d + 1) m Q) : S.Ensures (Rule.nested rule) d m Q := by
  intro c result c' hc hrun
  rw [Rule.nested] at hrun
  split at hrun
  · cases hrun
    exact ⟨Nat.le_of_eq hc.deep.symm, no_result⟩
  · next hclear =>
    split at hrun
    · cases hrun
      have hzero : c.deep = 0 := Cursor.deep_eq_zero.2 (by simpa using hclear)
      have heq := hc.deep
      exact ⟨by omega, no_result⟩
    · exact h hc hrun

/-- The invariant holds of what a repetition has made so far, and each step reads something. -/
theorem grow {step : α → Rule (Option α)} {I : α → S.Spot → Prop} {a : α}
    (hstep : ∀ a m, I a m → S.Ensures (step a) d m (S.Grows I Q a m)) (ha : I a m) :
    S.Ensures (Rule.grow step a) d m Q := by
  -- the fuel lasts, since as many characters are left
  have hfuel : ∀ (fuel : List Char) (a : α) (m : S.Spot), I a m →
      S.text.length ≤ m.index + fuel.length → S.Ensures (Rule.growWithin step fuel a) d m Q := by
    intro fuel
    induction fuel with
    | nil =>
      intro a m ha hlen
      refine (hstep a m ha).bind fun result m₁ hgrows => ?_
      cases result with
      | none => exact .pure hgrows
      | some next =>
        have hle := m₁.le
        have hto := hgrows.1
        simp only [length_nil] at hlen
        omega
    | cons _ fuel ih =>
      intro a m ha hlen
      refine (hstep a m ha).bind fun result m₁ hgrows => ?_
      cases result with
      | none => exact .pure hgrows
      | some next =>
        have hto := hgrows.1
        rw [length_cons] at hlen
        exact ih next m₁ hgrows.2 (by omega)
  intro c result c' hc hrun
  have hlen := hc.length
  exact hfuel c.mark.rest a m ha (by omega) hc hrun

/-! ## Rules that only look or move -/

theorem isTolerant {next : Bool → Rule β} (h : S.Ensures (next S.tolerant) d m P) :
    S.Ensures (Rule.isTolerant >>= next) d m P := fun _ _ _ hc hrun => h hc hrun

theorem position {next : Nat → Rule β} (h : S.Ensures (next (S.offset m.index)) d m P) :
    S.Ensures (Rule.position >>= next) d m P := by
  intro c result c' hc hrun
  have hpos : Rule.position ⟨S.tolerant, d⟩ c = (some (S.offset m.index), c) := by
    rw [Rule.position, Cursor.position, hc.mark, Survey.mark]
  rw [Rule.bind_some hpos] at hrun
  exact h hc hrun

theorem begin {next : Nat → Rule β}
    (h : ∀ m' : S.Spot, m.To 0 m' → S.Ensures (next (S.offset m'.index)) d m' P) :
    S.Ensures (Rule.begin >>= next) d m P := by
  intro c result c' hc hrun
  obtain ⟨m₁, hto, hm₁⟩ := hc.skipTrivia
  have hstart : Rule.begin ⟨S.tolerant, d⟩ c =
      (some (S.offset m₁.index), { c with mark := c.mark.skipTrivia }) := by
    have hmark : c.mark.skipTrivia = S.mark m₁.index := hm₁.mark
    rw [Rule.begin, hmark, Survey.mark]
  rw [Rule.bind_some hstart] at hrun
  obtain ⟨hdeep, hread⟩ := h m₁ hto hm₁ hrun
  exact ⟨by omega, hread⟩

theorem spanFrom {next : Span → Rule β} (hi : i ≤ m.index)
    (h : S.Ensures (next (S.span i m.index)) d m P) :
    S.Ensures (Rule.spanFrom (S.offset i) >>= next) d m P := by
  intro c result c' hc hrun
  have hspan : Rule.spanFrom (S.offset i) ⟨S.tolerant, d⟩ c = (some (S.span i m.index), c) := by
    have hle : S.offset i ≤ S.offset m.index := offset_le hi
    rw [Rule.spanFrom, Cursor.position, hc.mark, Survey.mark, Nat.max_eq_left hle, Survey.span]
  rw [Rule.bind_some hspan] at hrun
  exact h hc hrun

end Ensures

end Survey

end SqlTyping
