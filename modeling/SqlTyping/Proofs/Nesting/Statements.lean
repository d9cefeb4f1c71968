import SqlTyping.Proofs.Layout.Names
import SqlTyping.Proofs.Nesting.Queries
import SqlTyping.Syntax.Parse

/-!
# Statements cover what they read

The predicate after the columns of a conflict target is read and dropped. Where it stands is known
from the columns before it and from what comes after it.
-/

namespace SqlTyping.Grammar

open Rule Survey Sketch
open Fold (sketch)

variable {α : Type} {S : Survey} [S.IsPlain]

theorem covers_spreadRows : S.Covers here spreadRows .param :=
  .pass fun _ => covers_paramRef.first fun _ =>
    .cond (.pure le_rfl) (.fail _)

omit [S.IsPlain] in
theorem reach_rowsOnly {query : Query} {values : Values} (h : rowsOnly? query = some values) :
    S.reach (sketch.query id () query) ≤ S.reach (sketch.values () values) := by
  unfold rowsOnly? at h
  split at h
  · obtain rfl := Option.some.inj h
    simp [Fold.query, Fold.with?, Fold.setExpr, Fold.order, Fold.expr?]
  · cases h

/-- The last of the names ends before the place that the rule leads to. -/
theorem ensures_identList {d a : Nat} {m : S.Spot} (hd : d ≤ maxDepth) (ha : a ≤ d) :
    S.Ensures identList d m fun names m' => S.Crosses a m.index a m'.index ⊥ ∧
      ∃ j ≤ m'.index, (names.getLast?.map (·.span.stop)).getD 0 = S.offset j := by
  refine ((Passes.ensures hd ha).and (lays_identList d m (Nat.zero_le _))).mono
    fun names m' hread => ⟨hread.1, ?_⟩
  have hfits := Layout.Fits.all.1 hread.2.2.1
  cases hlast : names.getLast? with
  | none => exact ⟨0, Nat.zero_le _, rfl⟩
  | some name =>
    obtain ⟨i, j, hspan, -, -, hj⟩ := (hfits name (List.mem_of_getLast? hlast)).exists_of_leaf
    exact ⟨j, hj, congrArg Span.stop hspan⟩

namespace Covered

variable {g : Grammar} (h : g.Covered S)

include h

/-! ## Statements that change rows -/

theorem returning : S.Covers here g.returning (sketch.items ()) := .foundCases h.items (.pure le_rfl)

/-- An assignment starts where its span does. -/
theorem ensures_assignment {d a : Nat} {m : S.Spot} (hd : d ≤ maxDepth) (ha : a ≤ d) :
    S.Ensures g.assignment d m fun x m' =>
      S.Crosses a m.index a m'.index (S.reach (sketch.assignment () x)) ∧
        ∃ k, m.index ≤ k ∧ x.span.start = S.offset k := by
  refine ensures_begin.bind fun start m₁ hbegin => ?_
  obtain ⟨rfl, hcross⟩ := hbegin
  have hrest : S.Gives here (do
      let columns ← assignedColumns
      let _ ← symbol "="
      let value ← g.expr
      return { columns, value, span := ← spanFrom (S.offset m₁.index) }) fun x t =>
        S.Shows (sketch.assignment ()) x t ∧ x.span.start = S.offset m₁.index :=
    .pass fun _ => .pass fun _ => h.expr.out.first fun _ =>
      .spanFrom fun _ => .pure ⟨le_rfl, rfl⟩
  refine (hrest d a m₁ m.index hd ha (hcross a)).mono fun x m' hread => ?_
  obtain ⟨t, ht, hshows, hstart⟩ := hread
  exact ⟨ht.mono hshows, m₁.index, (hcross 0).le, hstart⟩

theorem assignment : S.Covers here g.assignment (sketch.assignment ()) := by
  intro d a m i hd ha hcross
  refine (h.ensures_assignment hd ha).mono fun x m' hread => ⟨sketch.assignment () x, ?_, le_rfl⟩
  exact (hcross.trans hread.1).mono (by simp)

theorem insertSource : S.Covers here g.insertSource (sketch.insertSource ()) := by
  have hrows : S.Covers here g.plainRows (sketch.values ()) :=
    h.values.first fun _ => .pass fun _ => .cond (.pure le_rfl) (.fail _)
  exact .foundCases (.pure le_rfl) <| covers_spreadRows.firstCases (fun _ => .pure le_rfl) <|
    hrows.firstCases (fun _ => .pure le_rfl) <| h.query.out.first fun _ => .pure le_rfl

/-- Whatever comes next, the target and the text up to there cover what has been read. -/
theorem ensures_conflictTarget {d a : Nat} {m : S.Spot} (hd : d ≤ maxDepth) (ha : a ≤ d) :
    S.Ensures g.conflictTarget d m fun target m' => ∀ k, m'.index ≤ k →
      S.Crosses a m.index a m'.index (S.reach (ofTarget target (S.offset k))) := by
  have hindex (m₁ : S.Spot) : S.Ensures (found g.indexPredicate) d m₁ fun _ m₂ =>
      S.Crosses a m₁.index a m₂.index (S.between m₁.index m₂.index) := by
    have hpredicate : S.Covers here g.indexPredicate (sketch.expr ()) := .pass fun _ => h.expr.out
    refine (hpredicate d 0 m₁ m₁.index hd (Nat.zero_le _) (.refl _ _)).maybeCases
      (fun _ m₂ hread => .pure ?_) fun m₂ hsame _ => .pure ?_
    · obtain ⟨t, ht, -⟩ := hread
      exact ht.among (by omega)
    · rw [hsame]
      exact (Crosses.refl _ _).mono bot_le
  have hconstraint : S.Passes here (do
      if ← found (keywords ["ON", "CONSTRAINT"]) then
        return some (ConflictTarget.constraint (← ident))
      else return none) := .bind
  refine (ensures_identList hd ha).maybeCases (fun names m₁ hnames => ?_) fun m₁ hsame _ => ?_
  · refine (hindex m₁).bind fun _ m₂ hpredicate => .pure fun k hk => ?_
    obtain ⟨hcross, j, hj, hlast⟩ := hnames
    refine (hcross.trans hpredicate).mono (sup_le bot_le ?_)
    show _ ≤ S.reach (.dropped ⟨_, S.offset k⟩)
    rw [hlast]
    exact between_le_dropped hj hk
  · refine (Passes.ensures hd ha).mono fun target m₂ hcross k _ => ?_
    rw [← hsame]
    exact hcross.mono bot_le

theorem onConflict (into : ObjectName) : S.Covers here g.onConflict (sketch.conflict into ()) := by
  intro d a m i hd ha hcross
  refine ensures_begin.bind fun start m₁ hbegin => ?_
  obtain ⟨rfl, hskip⟩ := hbegin
  refine (Passes.ensures hd ha).bind fun _ m₂ hwords => ?_
  refine (h.ensures_conflictTarget hd ha).bind fun target m₃ htarget => ?_
  refine (Passes.ensures hd ha).bind fun _ m₄ hdo => ?_
  have hread : ∀ k, m₄.index ≤ k →
      S.Crosses a i a m₄.index (S.reach (ofTarget target (S.offset k))) := by
    intro k hk
    have hstart := (hcross.trans (hskip a)).trans hwords
    refine ((hstart.trans (htarget k (hdo.le.trans hk))).trans hdo).mono ?_
    simp
  have hle : m₁.index ≤ m₄.index := hwords.le.trans ((htarget _ le_rfl).le.trans hdo.le)
  rw [found_bind]
  refine (Passes.ensures hd ha).maybeCases (fun _ m₅ hnothing => ?_) fun m₅ hsame _ => ?_
  · have hle₅ := hnothing.le
    refine .spanFrom (by omega) (.pure ⟨ofTarget target (S.offset m₅.index), ?_, ?_⟩)
    · exact ((hread _ hle₅).trans hnothing).mono (by simp)
    · exact reach_le_left _ .empty
  · refine (Passes.ensures hd ha).bind fun _ m₆ hset => ?_
    refine (ensures_separated h.assignment hd ha (h.ensures_assignment hd ha)).bind
      fun assignments m₇ hassignments => ?_
    obtain ⟨first, rest, mf, rfl, ⟨hfirst, k, hk, hstart⟩, hrest⟩ := hassignments
    refine (h.selection.out d a m₇ m₇.index hd ha (.refl _ _)).bind fun selection m₈ hread₈ => ?_
    obtain ⟨t, ht, hshows⟩ := hread₈
    rw [hsame] at hset
    have hle₆ := hset.le
    have hfirstle := hfirst.le
    have hrestle := hrest.le
    have hlast := ht.le
    refine .spanFrom (by omega) (.pure ⟨(ofTarget target (S.offset k)).both
      ((sketch.assignments () (first :: rest)).both (sketch.expr? () selection)), ?_, ?_⟩)
    · have hall := ((((hread k (by omega)).trans hset).trans hfirst).trans hrest).trans
        (ht.mono hshows)
      refine hall.mono ?_
      rw [Fold.assignments_eq]
      simp [Fold.all, sup_assoc]
    · rw [← hstart]
      exact le_rfl

theorem insert (start : Nat) (withClause : Option With) :
    S.Runs here 0 (sketch.with? () withClause) (g.insert start withClause)
      (S.Shows (sketch.insert ())) := by
  have hconflict (into : ObjectName) :
      S.Covers here (maybe g.onConflict) (sketch.conflict? into ()) := by
    rw [Fold.conflict?_eq]
    exact (h.onConflict into).maybe
  refine .pass fun _ => .pass fun into => .pass fun _ => .pass fun _ =>
    h.insertSource.add fun _ => (hconflict into).add fun _ => h.returning.add fun _ =>
    .spanFrom fun _ => .pure ?_
  exact ((reach_both_assoc (Sketch.both _ _) _ _).trans (reach_both_assoc _ _ _)).le

theorem assignments : S.Covers here (separated "," g.assignment) (sketch.assignments ()) := by
  rw [Fold.assignments_eq]
  exact h.assignment.separated

theorem update (start : Nat) (withClause : Option With) :
    S.Runs here 0 (sketch.with? () withClause) (g.update start withClause)
      (S.Shows (sketch.update ())) :=
  .pass fun _ => .pass fun _ =>
    .pass fun _ => h.assignments.add fun _ =>
    (h.fromClause "FROM").add fun _ => h.selection.out.add fun _ =>
    h.returning.add fun _ => .spanFrom fun _ => .pure
      (by simp only [Shows, Fold.update, reach_both, sup_assoc, le_refl])

theorem delete (start : Nat) (withClause : Option With) :
    S.Runs here 0 (sketch.with? () withClause) (g.delete start withClause)
      (S.Shows (sketch.delete ())) :=
  .pass fun _ => .pass fun _ =>
    (h.fromClause "USING").add fun _ => h.selection.out.add fun _ =>
    h.returning.add fun _ => .spanFrom fun _ => .pure
      ((reach_both_assoc (Sketch.both _ _) _ _).trans (reach_both_assoc _ _ _)).le

/-! ## With clauses -/

omit [S.IsPlain] in
theorem maybeWith : S.Covers here (maybe g.withClause) (sketch.with? ()) := by
  rw [Fold.with?_eq]
  exact h.withClause.maybe

omit [S.IsPlain] in
theorem nestedChange {change : Nat → Option With → Rule α} {of : α → Sketch}
    (hc : ∀ start withClause,
      S.Runs here 0 (sketch.with? () withClause) (change start withClause) (S.Shows of)) :
    S.Covers here (g.nestedChange change) of :=
  .pass fun start => h.maybeWith.first fun withClause => hc start withClause

theorem cteBody (isRecursive : Bool) (name : Ident) :
    S.Covers inside g.cteBody (sketch.cteBody isRecursive name ()) := by
  refine (h.nestedChange h.insert).inner.firstCases (fun _ => .pure le_rfl) ?_
  refine (h.nestedChange h.update).inner.firstCases (fun _ => .pure le_rfl) ?_
  refine (h.nestedChange h.delete).inner.firstCases (fun _ => .pure le_rfl) ?_
  refine h.query.first fun query => ?_
  split
  · next values hvalues => exact .pure (reach_rowsOnly hvalues)
  · exact .pure le_rfl

theorem ctes : S.Covers here g.ctes (sketch.withClause ()) := by
  have hone (isRecursive : Bool) : S.Covers here g.cte (sketch.cte isRecursive ()) :=
    .pass fun _ => .pass fun name => .pass fun _ => .pass fun _ => .pass fun _ =>
      Covers.first (Covers.parens (h.cteBody isRecursive name)) fun _ =>
        .spanFrom fun _ => .pure le_rfl
  have hall (isRecursive : Bool) :
      S.Covers here (separated "," g.cte) (sketch.ctes isRecursive ()) := by
    rw [Fold.ctes_eq]
    exact (hone isRecursive).separated
  exact .pass fun _ => .pass fun _ => .pass fun isRecursive => (hall isRecursive).first fun _ =>
    .spanFrom fun _ => .pure le_rfl

theorem fullQuery : S.Covers here g.fullQuery (sketch.query id ()) := by
  have hwith : S.Covers here (maybe g.ctes) (sketch.with? ()) := by
    rw [Fold.with?_eq]
    exact h.ctes.maybe
  exact .pass fun start => hwith.first fun withClause => h.queryBody start withClause

end Covered

/-! ## The whole grammar -/

theorem covered_within (n : Nat) : (within n).Covered S := by
  induction n with
  | zero =>
    exact ⟨fun _ => .reject, .reject, .reject, .reject, .reject, .reject⟩
  | succ n ih =>
    exact ⟨fun min => ih.operators ih.signed min, ih.signed, ih.fullQuery.nested, ih.innerArray,
      ih.joins, ih.ctes⟩

end SqlTyping.Grammar
