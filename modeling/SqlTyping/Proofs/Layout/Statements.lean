import SqlTyping.Proofs.Layout.Queries
import SqlTyping.Syntax.Parse

/-!
# Layouts of statements

Statements that change rows, `WITH` clauses, and the whole grammar. The grammar for `n` constructs
around each other lays out what it reads where less than `n` characters are left
(`Grammar.laid_within`).
-/

namespace SqlTyping

open Rule Survey Layout
open Fold (layout params)

variable {S : Survey} {b d : Nat}

namespace Grammar

/-! ## Rules without expressions -/

theorem lays_assignedColumn : S.Lays 0 1 assignedColumn (S.laid ofIdent) :=
  .reads fun _ => lays_ident.add fun _ => (lays_dotted lays_ident).maybe.add fun second =>
    .done (by cases second <;> simp [opt])

theorem lays_assignedColumns : S.Lays 0 1 assignedColumns (S.laid (.all ofIdent)) :=
  .reads fun _ => lays_identList.addCases (fun _ => .done (by simp +contextual))
    (lays_assignedColumn.add fun _ => .done (by simp +contextual [all]))

theorem lays_spreadRows : S.Lays 0 1 spreadRows (S.laid ofParam fun ref => [ref]) :=
  .reads fun _ => .keyword "VALUES" <| lays_paramRef.add fun _ =>
    .cond (.done (by simp +contextual)) (.fail _)

theorem lays_insertAlias : S.Lays 0 1 insertAlias (S.laid ofIdent) :=
  .reads fun _ => .keyword "AS" lays_ident.rest

theorem lays_targetAlias (next : String) : S.Lays 0 1 (targetAlias next) (S.laid ofIdent) :=
  .reads fun _ => lays_asName.add fun _ => .cond (.done (by simp +contextual)) (.fail _)

/-- The table that is changed, and its alias. -/
def ofChanged : ObjectName × Option Ident → Layout
  | (table, asName) => (ofName table).both (opt ofIdent asName)

theorem lays_changedTable (next : String) : S.Lays 0 1 (changedTable next) (S.laid ofChanged) :=
  .reads fun _ => .look fun _ => lays_objectName.add fun _ => .look fun _ =>
    (lays_targetAlias next).maybe.add fun _ =>
    .done (by simp +contextual [ofChanged])

namespace Laid

variable {g : Grammar}

/-! ## Statements that change rows -/

theorem returning (h : g.Laid S (b + 1)) : S.Lays b 0 g.returning (S.kept (·.items ())) := by
  simp only [Fold.items_eq, kept_all]
  exact .reads fun _ => .ifFound
    (h.selectItem.separated ",").rest (.nil rfl rfl)

theorem assignment (h : g.Laid S (b + 1)) : S.Lays b 1 g.assignment (S.kept (·.assignment ())) :=
  .begin fun _ => lays_assignedColumns.add fun _ => .look fun _ =>
    h.expr.add fun _ => .spanned (fun _ => rfl) (by simp +contextual)

theorem assignments (h : g.Laid S (b + 1)) :
    S.Lays b 1 (separated "," g.assignment) (S.kept (·.assignments ())) := by
  simp only [Fold.assignments_eq, kept_all]
  exact h.assignment.separated ","

theorem plainRows (h : g.Laid S (b + 1)) : S.Lays b 1 g.plainRows (S.kept (·.values ())) :=
  .reads fun _ => h.values.add fun _ => .look fun _ =>
    .cond (.done (by simp +contextual)) (.fail _)

theorem insertSource (h : g.Laid S b) : S.Lays b 0 g.insertSource (S.kept (·.insertSource ())) :=
  .reads fun _ => .ifFound (.nil rfl rfl) <|
    lays_spreadRows.addCases
      (fun _ => .done (by simp +contextual [Fold.insertSource])) <|
    (h.past.plainRows.past (Nat.le_refl _)).addCases
      (fun _ => .done (by simp +contextual [Fold.insertSource])) <|
    h.query.add fun _ => .done (by simp +contextual [Fold.insertSource])

theorem conflictTarget (h : g.Laid S (b + 1)) :
    S.Lays b 0 g.conflictTarget (S.laid (.opt ofTarget)) := by
  have hpredicate : S.Lays b 1 g.indexPredicate (S.kept (·.expr ())) :=
    .reads fun _ => .keyword "WHERE" h.expr.rest
  exact .reads fun _ => lays_identList.addCases
    (fun _ => hpredicate.found.pass fun _ => .done (by simp +contextual [opt, ofTarget])) <|
    .ifFound
      (lays_ident.add fun _ => .done (by simp +contextual [opt, ofTarget])) (.nil rfl rfl)

theorem onConflict (h : g.Laid S (b + 1)) (into : ObjectName) :
    S.Lays b 1 g.onConflict (S.kept (·.conflict into ())) :=
  .begin fun _ => .skip fun _ => h.conflictTarget.add fun _ =>
    .keyword "DO" <| .ifFound
      (.spanned (fun _ => rfl) (by simp +contextual)) <|
    .skip fun _ => h.assignments.add fun _ => h.selection.add fun _ =>
    .spanned (fun _ => rfl) (by simp +contextual)

/-! What is read of a statement after its `WITH` clause. -/

section

variable {withClause : Option With} {j start : Nat}

theorem insert (h : g.Laid S (b + 1)) :
    S.Reads b j start (layout.with? () withClause) (params.with? () withClause)
      (g.insert start withClause) 1 (S.kept (·.insert ())) :=
  .skip fun _ => lays_objectName.add fun into =>
    lays_insertAlias.maybe.add fun _ => (lays_identList.maybeD rfl rfl).add fun _ =>
    h.insertSource.add fun _ => (h.onConflict into).maybe.add fun _ => h.returning.add fun _ =>
    .spanned (fun _ => rfl)
      (by simp +contextual [Fold.conflict?_eq])

theorem update (h : g.Laid S (b + 1)) :
    S.Reads b j start (layout.with? () withClause) (params.with? () withClause)
      (g.update start withClause) 1 (S.kept (·.update ())) :=
  .keyword "UPDATE" <| (lays_changedTable "set").add fun _ =>
    .keyword "SET" <| h.assignments.add fun _ =>
    (h.fromClause "FROM").add fun _ => h.selection.add fun _ => h.returning.add fun _ =>
    .spanned (fun _ => rfl) (by simp +contextual [ofChanged])

theorem delete (h : g.Laid S (b + 1)) :
    S.Reads b j start (layout.with? () withClause) (params.with? () withClause)
      (g.delete start withClause) 1 (S.kept (·.delete ())) :=
  .skip fun _ => (lays_changedTable "using").add fun _ =>
    (h.fromClause "USING").add fun _ => h.selection.add fun _ =>
    h.returning.add fun _ => .spanned (fun _ => rfl) (by simp +contextual [ofChanged])

end

/-! ## With clauses -/

theorem nestedChange {α : Type} {change : Nat → Option With → Rule α} {of : α → Layout}
    {refs : α → List ParamRef} (h : g.Laid S b) (hchange : ∀ {j start withClause},
      S.Reads b j start (layout.with? () withClause) (params.with? () withClause)
        (change start withClause) 1 (S.laid of refs)) :
    S.Lays b 1 (g.nestedChange change) (S.laid of refs) :=
  .begin fun _ => h.withClause.maybe.add fun _ => hchange.weaken
    (by simp +contextual [Fold.with?_eq])

/-- A list of rows that is a whole query lies where the query does. -/
theorem makes_rowsOnly {query : Query} {values : Values} (h : rowsOnly? query = some values) :
    S.Makes (layout.query id () query) query.params (layout.values () values)
      (params.values () values) := by
  unfold rowsOnly? at h
  split at h
  · cases h
    intro deep lo hi hfits hrefs
    cases hfits with
    | node _ bounds _ hinside =>
      cases hinside with
      | both _ hrest =>
        cases hrest with
        | both hbody _ =>
          exact ⟨hbody.mono (by omega), (stands_append.1 (stands_append.1 hrefs).2).1⟩
  · cases h

theorem cteBody (h : g.Laid S b) (isRecursive : Bool) (name : Ident) :
    S.Lays b 1 g.cteBody (S.kept (·.cteBody isRecursive name ())) := by
  refine .reads fun _ => (h.nestedChange h.past.insert).addCases
    (fun _ => .done (by simp +contextual [Fold.cteBody])) <|
    (h.nestedChange h.past.update).addCases
      (fun _ => .done (by simp +contextual [Fold.cteBody])) <|
    (h.nestedChange h.past.delete).addCases
      (fun _ => .done (by simp +contextual [Fold.cteBody])) <|
    h.query.add fun query => ?_
  split
  · next values hvalues =>
    exact .done fun _ _ _ hread hrefs =>
      makes_rowsOnly hvalues _ _ _ (fits_both.1 hread).2 (stands_append.1 hrefs).2
  · exact .done (by simp +contextual [Fold.cteBody])

theorem cte (h : g.Laid S (b + 1)) (isRecursive : Bool) :
    S.Lays b 1 g.cte (S.kept (·.cte isRecursive ())) :=
  .begin fun _ => lays_ident.add fun name => (lays_identList.maybeD rfl rfl).add fun _ =>
    .keyword "AS" <| .look fun _ =>
    (Lays.parens (b := b) (h.cteBody isRecursive name)).add fun _ =>
    .spanned (fun _ => rfl) (by simp +contextual)

theorem ctes (h : g.Laid S (b + 1)) : S.Lays b 1 g.ctes (S.kept (·.withClause ())) :=
  .begin fun _ => .keyword "WITH" <| .look fun isRecursive =>
    ((h.cte isRecursive).separated ",").add fun _ =>
    .spanned (fun _ => rfl) (by simp +contextual [Fold.ctes_eq])

theorem fullQuery (h : g.Laid S (b + 1)) : S.Lays b 1 g.fullQuery (S.kept (·.query id ())) :=
  .begin fun _ => h.ctes.maybe.add fun _ => h.queryBody.weaken
    (by simp +contextual [Fold.with?_eq])

end Laid

/-! ## The whole grammar -/

/-- A grammar lays out what it reads where less characters are left than it has room for. -/
theorem laid_within {n b : Nat} (h : S.text.length < n + b) : (within n).Laid S b := by
  induction n generalizing b with
  | zero =>
    -- no spot is that far
    have hfar : ∀ m : S.Spot, ¬ b ≤ m.index := by
      intro m hm
      have hle := m.le
      omega
    exact {
      agrees := agrees_within (Nat.zero_le _) (Nat.zero_le _)
      level := fun _ _ m hm => absurd hm (hfar m)
      unary := fun _ m hm => absurd hm (hfar m)
      query := fun _ m hm => absurd hm (hfar m)
      arrayElements := fun _ m hm => absurd hm (hfar m)
      joined := fun _ m hm => absurd hm (hfar m)
      withClause := fun _ m hm => absurd hm (hfar m) }
  | succ n ih =>
    have hlaid : (within n).Laid S (b + 1) := ih (by omega)
    have hagrees : (within n).Agrees (min n (S.text.length + 1)) (ofText S.text) :=
      agrees_within (Nat.min_le_left _ _) (Nat.min_le_right _ _)
    exact {
      agrees := agrees_within (Nat.zero_le _) (Nat.zero_le _)
      level := fun min d m hm => hlaid.operators hagrees (by omega) hlaid.signed min hm
      unary := hlaid.signed
      query := hlaid.fullQuery.nested
      arrayElements := hlaid.innerArray
      joined := hlaid.joins
      withClause := hlaid.ctes }

theorem laid_ofText (S : Survey) : (ofText S.text).Laid S 0 := laid_within (by omega)

namespace Laid

variable {g : Grammar}

/-- A `WITH` clause, and what kind of statement it belongs to. -/
theorem changeHead (h : g.Laid S b) : S.Lays b 0 g.changeHead
      (S.kept fun f head => f.with? () head.1) :=
  .reads fun _ => h.withClause.maybe.add fun _ => .look fun _ =>
    .done (by simp +contextual [Fold.with?_eq])

theorem statement (h : g.Laid S b) : S.Lays b 1 g.statement (S.kept (·.statement ())) := by
  refine .reads fun _ => lays_transaction.addCases
    (fun _ => .done (by simp +contextual [Fold.statement])) ?_
  refine Lays.rest (.begin fun _ => h.changeHead.addCases (fun head => ?_) <| h.query.add fun _ =>
    .done (by simp +contextual [Fold.statement]) : S.Lays b 1 _ _)
  obtain ⟨withClause, kind⟩ := head
  cases kind with
  | insert => exact (h.past.insert.weaken (by simp +contextual)).map fun _ => rfl
  | update => exact (h.past.update.weaken (by simp +contextual)).map fun _ => rfl
  | delete => exact (h.past.delete.weaken (by simp +contextual)).map fun _ => rfl

theorem wholeStatement (h : g.Laid S b) : S.Lays b 1 g.wholeStatement (S.kept (·.statement ())) :=
  .reads fun _ => h.statement.add fun _ => .look fun _ => .look fun _ =>
    .cond (.done (by simp +contextual)) (.fail _)

end Laid

end Grammar

end SqlTyping
