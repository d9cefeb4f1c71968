import SqlTyping.Proofs.Layout.Survey
import SqlTyping.Proofs.Nesting.Sketch
import Mathlib.Order.BoundedOrder.Lattice
import Mathlib.Data.Set.Lattice

/-!
# How far a sketch reaches

A stretch of text is covered by a sketch if the sketch accounts for its parameters, and if there are
never more brackets open in it than the deepest nesting and the slack of the sketch allow. Stretches
that follow one another are covered by both of their sketches.
-/

namespace SqlTyping

open Lexeme List
open Fold (sketch)

variable {s t : Sketch} {α : Type} {i j : Nat}

/-! ## Open brackets -/

namespace Token

def openings (tokens : List Token) : Nat := tokens.countP (·.kind = .opening)

theorem openings_cons (kind : TokenKind) (offset : Nat) (rest : List Token) :
    openings (⟨kind, offset⟩ :: rest) = openings rest + if kind = .opening then 1 else 0 := by
  simp [openings, countP_cons]

/-- The tokens lead from `a` open brackets to `b` open ones, and never more than `bound` are open on
the way. -/
inductive Walks (bound : Nat) : (a : Nat) → List Token → (b : Nat) → Prop where
  | nil {a : Nat} : Walks bound a [] a
  | opening {a b offset : Nat} {rest : List Token} (lt : a < bound)
      (next : Walks bound (a + 1) rest b) : Walks bound a (⟨.opening, offset⟩ :: rest) b
  | closing {a b offset : Nat} {rest : List Token} (next : Walks bound a rest b) :
      Walks bound (a + 1) (⟨.closing, offset⟩ :: rest) b
  | param {a b offset : Nat} {rest : List Token} (next : Walks bound a rest b) :
      Walks bound a (⟨.param, offset⟩ :: rest) b

namespace Walks

variable {bound bound' a b c : Nat} {first second : List Token}

theorem mono (h : Walks bound a first b) (hle : bound ≤ bound') : Walks bound' a first b := by
  induction h with
  | nil => exact .nil
  | opening lt _ ih => exact .opening (Nat.lt_of_lt_of_le lt hle) ih
  | closing _ ih => exact .closing ih
  | param _ ih => exact .param ih

theorem append (h : Walks bound a first b) (h' : Walks bound b second c) :
    Walks bound a (first ++ second) c := by
  induction h with
  | nil => exact h'
  | opening lt _ ih => exact .opening lt (ih h')
  | closing _ ih => exact .closing (ih h')
  | param _ ih => exact .param (ih h')

/-- The same walk among `k` more open brackets. -/
theorem shift (h : Walks bound a first b) (k : Nat) : Walks (bound + k) (a + k) first (b + k) := by
  induction h with
  | nil => exact .nil
  | @opening a _ _ _ lt _ ih =>
    rw [Nat.add_right_comm] at ih
    exact .opening (Nat.add_lt_add_right lt k) ih
  | @closing a _ _ _ _ ih =>
    rw [Nat.add_right_comm]
    exact .closing ih
  | param _ ih => exact .param ih

/-- No more brackets are open than have been opened. -/
theorem own (h : Walks bound a first b) : Walks (a + openings first) a first b := by
  induction h with
  | nil => exact .nil
  | opening _ _ ih =>
    rw [openings_cons, if_pos rfl]
    exact .opening (by omega) (ih.mono (by omega))
  | closing _ ih =>
    rw [openings_cons, if_neg (by decide)]
    exact .closing (ih.mono (by omega))
  | param _ ih =>
    rw [openings_cons, if_neg (by decide)]
    exact .param ih

end Walks

end Token

/-! ## The reach of a sketch -/

namespace Sketch

/-- The number of brackets that open before an offset of the text. -/
def openedBefore (text : String) (offset : Nat) : Nat :=
  (Text.splitBytes offset text.toList).1.countP isOpening

/-- How many brackets may be open beyond the levels of nesting. -/
def slack (text : String) : Sketch → Nat
  | empty | param _ => 0
  | both first second => max (first.slack text) (second.slack text)
  | inner inside => inside.slack text + 1
  | frame words => words.toList.countP isOpening
  | dropped span => openedBefore text span.stop - openedBefore text span.start

/-- The offset lies where the words stand in the text. -/
def Quotes (text words : String) (offset : Nat) : Prop :=
  ∃ before after, text.toList = before ++ words.toList ++ after ∧ Text.byteSize before ≤ offset ∧
    offset < Text.byteSize before + Text.byteSize words.toList

/-- A parameter of the sketch starts at the offset, or the offset lies in text that the sketch does
not keep. -/
def Accounts (text : String) (offset : Nat) : Sketch → Prop
  | empty => False
  | both first second => first.Accounts text offset ∨ second.Accounts text offset
  | param ref => ref.span.start = offset
  | inner inside => inside.Accounts text offset
  | frame words => Quotes text words offset
  | dropped span => span.start ≤ offset ∧ offset < span.stop

end Sketch

/-- A number of brackets, and offsets of parameters. -/
abbrev Reach := ℕ × Set ℕ

namespace Survey

variable {S : Survey}

/-- What the sketch allows in the text. -/
def reach (S : Survey) (sketch : Sketch) : Reach :=
  (sketch.slack S.text, {offset | sketch.Accounts S.text offset})

@[simp] theorem reach_empty : S.reach .empty = ⊥ := rfl

@[simp] theorem reach_both (first second : Sketch) :
    S.reach (first.both second) = S.reach first ⊔ S.reach second := rfl

theorem reach_both_assoc (s t u : Sketch) :
    S.reach ((s.both t).both u) = S.reach (s.both (t.both u)) :=
  sup_assoc (S.reach s) (S.reach t) (S.reach u)

theorem reach_le_left (s t : Sketch) : S.reach s ≤ S.reach (s.both t) := by
  rw [reach_both]
  exact le_sup_left

theorem reach_le_right (s t : Sketch) : S.reach t ≤ S.reach (s.both t) := by
  rw [reach_both]
  exact le_sup_right

theorem reach_sup_le {r : Reach} (hs : S.reach s ≤ r) (ht : S.reach t ≤ r) :
    S.reach (s.both t) ≤ r := sup_le hs ht

theorem reach_both_le {u : Sketch} (h : S.reach t ≤ S.reach u) :
    S.reach (s.both t) ≤ S.reach (s.both u) := sup_le_sup_left h (S.reach s)

theorem reach_both_bot (h : S.reach t ≤ ⊥) : S.reach (s.both t) ≤ S.reach s :=
  reach_sup_le le_rfl (h.trans bot_le)

theorem reach_le_inner (s : Sketch) : S.reach s ≤ S.reach s.inner := ⟨Nat.le_succ _, subset_rfl⟩

theorem reach_inner_le (h : S.reach s ≤ S.reach t) :
    S.reach s.inner ≤ S.reach t.inner := ⟨Nat.succ_le_succ h.1, h.2⟩

theorem reach_all_append {of : α → Sketch} (first second : List α) :
    S.reach (sketch.all of (first ++ second)) =
      S.reach (sketch.all of first) ⊔ S.reach (sketch.all of second) := by
  induction first with
  | nil => rw [nil_append, Fold.all, reach_empty, bot_sup_eq]
  | cons x first ih =>
    rw [cons_append, Fold.all, Fold.all, reach_both, reach_both, ih, sup_assoc]

theorem reach_all_empty (list : List α) : S.reach (sketch.all (fun _ => .empty) list) = ⊥ := by
  induction list with
  | nil => rfl
  | cons x rest ih => rw [Fold.all, reach_both, ih, reach_empty, bot_sup_eq]

/-! ## Stretches of the text -/

/-- The number of brackets that open before the character with the given index. -/
def opened (S : Survey) (i : Nat) : Nat := (S.text.toList.take i).countP isOpening

theorem opened_add (i k : Nat) :
    S.opened (i + k) = S.opened i + ((S.text.toList.drop i).take k).countP isOpening := by
  rw [opened, opened, take_add, countP_append]

theorem opened_le (h : i ≤ j) : S.opened i ≤ S.opened j := by
  obtain ⟨k, rfl⟩ := Nat.exists_eq_add_of_le h
  rw [opened_add]
  omega

theorem openedBefore_offset (i : Nat) : Sketch.openedBefore S.text (S.offset i) = S.opened i := by
  have hsplit := Text.splitBytes_byteSize (S.text.toList.take i) (S.text.toList.drop i)
  rw [take_append_drop] at hsplit
  rw [Sketch.openedBefore, offset, hsplit, opened]

/-- All that may stand between two places: the brackets that open there, and any parameters. -/
def between (S : Survey) (i j : Nat) : Reach :=
  (S.opened j - S.opened i, {offset | S.offset i ≤ offset ∧ offset < S.offset j})

theorem between_le_frame (hle : i ≤ j) :
    S.between i j ≤ S.reach (.frame (String.ofList ((S.text.toList.drop i).take (j - i)))) := by
  obtain ⟨k, rfl⟩ := Nat.exists_eq_add_of_le hle
  rw [Nat.add_sub_cancel_left]
  have hwords : (String.ofList ((S.text.toList.drop i).take k)).toList =
      (S.text.toList.drop i).take k := String.toList_ofList
  constructor
  · show S.opened (i + k) - S.opened i ≤ List.countP isOpening (String.ofList _).toList
    rw [opened_add, Nat.add_sub_cancel_left, hwords]
  · rintro offset ⟨hstart, hstop⟩
    refine ⟨S.text.toList.take i, S.text.toList.drop (i + k), ?_, hstart, ?_⟩
    · rw [hwords, ← take_add, take_append_drop]
    · rw [hwords]
      rwa [offset_add] at hstop

theorem between_le_dropped {i' j' : Nat} (hstart : i' ≤ i) (hstop : j ≤ j') :
    S.between i j ≤ S.reach (.dropped (S.span i' j')) := by
  have hopened : S.opened i' ≤ S.opened i := opened_le hstart
  have hopened' : S.opened j ≤ S.opened j' := opened_le hstop
  have hoffset : S.offset i' ≤ S.offset i := offset_le hstart
  have hoffset' : S.offset j ≤ S.offset j' := offset_le hstop
  constructor
  · show S.opened j - S.opened i ≤ Sketch.openedBefore S.text (S.offset j') -
      Sketch.openedBefore S.text (S.offset i')
    rw [openedBefore_offset, openedBefore_offset]
    omega
  · rintro offset ⟨hle, hlt⟩
    exact ⟨hoffset.trans hle, hlt.trans_le hoffset'⟩

/-- The tokens stand between two places. -/
structure Stretch (S : Survey) (i j : Nat) (tokens : List Token) : Prop where
  le : i ≤ j
  tokens_eq : (S.mark i).tokens = tokens ++ (S.mark j).tokens
  offsets : ∀ token ∈ tokens, S.offset i ≤ token.offset ∧ token.offset < S.offset j
  opened : S.opened i + Token.openings tokens ≤ S.opened j

namespace Stretch

variable {i j k : Nat} {first second : List Token}

theorem silent (hle : i ≤ j) (h : (S.mark i).tokens = (S.mark j).tokens) : S.Stretch i j [] :=
  ⟨hle, h, nofun, opened_le hle⟩

theorem trans (h : S.Stretch i j first) (h' : S.Stretch j k second) :
    S.Stretch i k (first ++ second) where
  le := h.le.trans h'.le
  tokens_eq := by rw [h.tokens_eq, h'.tokens_eq, append_assoc]
  offsets := by
    intro token hmem
    have hij : S.offset i ≤ S.offset j := offset_le h.le
    have hjk : S.offset j ≤ S.offset k := offset_le h'.le
    rcases mem_append.1 hmem with hfirst | hsecond
    · have hbounds := h.offsets token hfirst
      omega
    · have hbounds := h'.offsets token hsecond
      omega
  opened := by
    have hfirst := h.opened
    have hsecond := h'.opened
    rw [Token.openings, countP_append, ← Token.openings, ← Token.openings]
    omega

end Stretch

/-! ## Covered stretches -/

/-- From place `i`, where `a` brackets are open, to place `j`, where `b` are open, the text is as the
reach says. -/
def Crosses (S : Survey) (a i b j : Nat) (r : Reach) : Prop :=
  ∃ tokens, S.Stretch i j tokens ∧ Token.Walks (maxDepth + 1 + r.1) a tokens b ∧
    ∀ offset, ⟨.param, offset⟩ ∈ tokens → offset ∈ r.2

namespace Crosses

variable {a b c i j k : Nat} {r r' : Reach}

theorem mono (h : S.Crosses a i b j r) (hle : r ≤ r') : S.Crosses a i b j r' := by
  obtain ⟨tokens, hstretch, hwalks, hparams⟩ := h
  exact ⟨tokens, hstretch, hwalks.mono (Nat.add_le_add_left hle.1 _), fun offset hmem =>
    hle.2 (hparams offset hmem)⟩

theorem le (h : S.Crosses a i b j r) : i ≤ j := by
  obtain ⟨tokens, hstretch, -⟩ := h
  exact hstretch.le

theorem trans (h : S.Crosses a i b j r) (h' : S.Crosses b j c k r') :
    S.Crosses a i c k (r ⊔ r') := by
  obtain ⟨first, hfirst, hwalks, hparams⟩ := h.mono (le_sup_left (b := r'))
  obtain ⟨second, hsecond, hwalks', hparams'⟩ := h'.mono (le_sup_right (a := r))
  refine ⟨first ++ second, hfirst.trans hsecond, hwalks.append hwalks', fun offset hmem => ?_⟩
  rcases mem_append.1 hmem with hmem | hmem
  · exact hparams offset hmem
  · exact hparams' offset hmem

/-- A stretch without tokens. -/
theorem silent (hle : i ≤ j) (h : (S.mark i).tokens = (S.mark j).tokens) (a : Nat) :
    S.Crosses a i a j ⊥ := ⟨[], .silent hle h, .nil, fun _ hmem => nomatch hmem⟩

theorem refl (a i : Nat) : S.Crosses a i a i ⊥ := silent (Nat.le_refl i) rfl a

/-- Among brackets that are no level of nesting, the slack is larger. -/
theorem shift (h : S.Crosses a i b j r) : S.Crosses (a + 1) i (b + 1) j (r.1 + 1, r.2) := by
  obtain ⟨tokens, hstretch, hwalks, hparams⟩ := h
  exact ⟨tokens, hstretch, hwalks.shift 1, hparams⟩

/-- Balanced text, of which only the place is known. -/
theorem among (h : S.Crosses 0 i 0 j r) (ha : a ≤ maxDepth + 1) :
    S.Crosses a i a j (S.between i j) := by
  obtain ⟨tokens, hstretch, hwalks, -⟩ := h
  have hopened := hstretch.opened
  have hown := hwalks.own.shift a
  rw [Nat.zero_add, Nat.zero_add] at hown
  refine ⟨tokens, hstretch, hown.mono ?_, fun offset hmem => hstretch.offsets _ hmem⟩
  rw [between]
  omega

end Crosses

end Survey

end SqlTyping
