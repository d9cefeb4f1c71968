import SqlTyping.Proofs.Layout.Rules
import SqlTyping.Proofs.Syntax.Bounds

/-!
# Layouts of names

The rules that read no expression: names, parameters, types, aliases and transaction control.
-/

namespace SqlTyping.Grammar

open Rule Survey Layout

variable {S : Survey} {α : Type}

theorem lays_ident : S.Lays 0 1 ident (S.laid ofIdent) :=
  fun _ _ _ => Lays.identifier.bind (by omega) fun _ _ hto htoken =>
    .pure ⟨hto, htoken.leaf, stands_nil⟩

theorem lays_label : S.Lays 0 1 label (S.laid ofIdent) :=
  fun _ _ _ => Lays.label.bind (by omega) fun _ _ hto htoken => .pure ⟨hto, htoken.leaf, stands_nil⟩

theorem lays_dotted {name : Rule Ident} (h : S.Lays 0 1 name (S.laid ofIdent)) :
    S.Lays 0 1 (dotted name) (S.laid ofIdent) :=
  .reads fun _ => .punct "." h.rest

theorem lays_objectName : S.Lays 0 1 objectName (S.laid ofName) := by
  refine .begin fun _ => lays_ident.add fun first =>
    (lays_dotted lays_label).star.add fun parts => ?_
  split
  · exact .spanned (t := .both .empty (ofIdent first)) (fun _ => rfl) (by simp [all])
  · next second =>
    exact .spanned (t := .both (ofIdent first) (ofIdent second)) (fun _ => rfl)
      (by simp [all])
  · next second third =>
    exact .spanned (t := .both (ofIdent second) (ofIdent third)) (fun _ => rfl)
      (by simp +contextual [all])
  · exact .fail _

theorem lays_identList : S.Lays 0 1 identList (S.laid (.all ofIdent)) :=
  ((lays_ident.separated ",").past (by omega)).parens.forget

theorem lays_paramRef : S.Lays 0 1 paramRef (S.laid ofParam fun ref => [ref]) := by
  intro d m hm
  have hfits : S.Ensures paramRef d m fun ref m' =>
      m.To 1 m' ∧ (ofParam ref).Fits S m'.deep m.index m'.index := by
    refine Lays.param.bind (by omega) fun token m₁ hto₁ htoken => ?_
    obtain ⟨⟨j, hj, hlt, hspan⟩, -⟩ := htoken
    have hstart : token.span.start = S.offset j := by rw [hspan, Survey.span]
    rw [hstart]
    refine .cond (fun _ => ?_) fun _ => ?_
    · refine (lays_identList.maybeD rfl rfl).bind (by omega) fun pick m₂ hto₂ hpick => ?_
      exact .spanFrom (by omega) (.pure ⟨by omega, .group (by omega) (hpick.1.mono (by omega))⟩)
    · have hnone : S.Lays 0 0 (pure []) (S.laid (.all ofIdent)) :=
        .pure fun _ => ⟨.empty, stands_nil⟩
      refine hnone.bind (by omega) fun pick m₂ hto₂ hpick => ?_
      exact .spanFrom (by omega) (.pure ⟨by omega, .group (by omega) (hpick.1.mono (by omega))⟩)
  intro c result c' hc hrun
  obtain ⟨hdeep, hread⟩ := hfits hc hrun
  refine ⟨hdeep, fun ref href => ?_⟩
  obtain ⟨m', hm', hto, hlaid⟩ := hread ref href
  have hstands : ref.StandsIn S.text S.tolerant := standsIn_paramRef hc.isIn (by rw [hrun, href])
  exact ⟨m', hm', hto, hlaid, stands_singleton.2 hstands⟩

theorem lays_asName : S.Lays 0 1 asName (S.laid ofIdent) :=
  .reads fun _ => .ifFound lays_label.rest lays_ident.rest

/-! ## Types -/

theorem lays_dataType : S.Lays 0 1 dataType (S.laid fun target => .leaf target.span) :=
  .begin fun _ => lays_ident.pass fun _ => .look fun _ => .look fun _ => .look fun _ =>
    .look fun _ => .look fun _ => .look fun _ => .spanned (fun _ => rfl) (by simp)

/-! ## Transaction control -/

/-- One of two rules that read something. -/
theorem lays_orFound {first : Rule α} {second : Rule Bool} {Q : α → Nat → S.Spot → Prop}
    (h : S.Lays 0 1 first Q) (h' : S.Lays 0 0 second (S.moved 1)) :
    S.Lays 0 0 (do if ← found first then return true else second) (S.moved 1) := by
  intro d m hm
  refine h.foundCases (by omega) (fun m₁ hto => .pure ⟨by omega, fun _ => hto.1⟩) fun m₁ hto => ?_
  refine (h' d m₁ (by omega)).mono fun yes m₂ hread => ?_
  exact ⟨by omega, fun hyes => by have hmoved := hread.2 hyes; omega⟩

theorem lays_either (first second : String) [Nonblank first] [Nonblank second] :
    S.Lays 0 0 (either first second) (S.moved 1) :=
  lays_orFound (Lays.keyword first) (Lays.keyword second).found

theorem lays_startTransaction : S.Lays 0 0 startTransaction (S.moved 1) :=
  lays_orFound (Lays.keyword "BEGIN") Lays.consumes.found

theorem lays_toSavepoint : S.Lays 0 1 toSavepoint (S.laid ofIdent) :=
  .reads fun _ => .keyword "TO" <| .look fun _ => lays_ident.rest

theorem lays_transactionKind : S.Lays 0 1 transactionKind (S.laid ofTransactionKind) :=
  .reads fun _ => lays_startTransaction.ifMoved (.look fun _ => .look fun _ => .nil rfl rfl) <|
    (lays_either "COMMIT" "END").ifMoved (.look fun _ => .nil rfl rfl) <|
    (lays_either "ROLLBACK" "ABORT").ifMoved (.look fun _ =>
      lays_toSavepoint.maybe.add fun _ => .done (by simp +contextual [ofTransactionKind])) <|
    .ifFound (lays_ident.add fun _ => .done (by simp +contextual [ofTransactionKind])) <|
    .ifFound (.look fun _ => lays_ident.add fun _ =>
      .done (by simp +contextual [ofTransactionKind])) (.fail _)

theorem lays_transaction : S.Lays 0 1 transaction (S.laid ofTransaction) :=
  .begin fun _ => lays_transactionKind.add fun _ => .spanned (fun _ => rfl) (by simp)

end SqlTyping.Grammar
