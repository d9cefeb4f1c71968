import SqlTyping.Proofs.Resolution.Stars

/-!
# Optional sides of joins

A source is listed as nullable if its item stands on the optional side of a join, at any depth of
joins and parentheses. A statement that changes a table lists none, since its `FROM` items are no
result sources.
-/

namespace SqlTyping

open List
open Text (fold)

/-- Pairs whose sources have one name up to case are the same. -/
theorem Pairs.eq_of_fold_eq {pairs : Pairs}
    (h : (pairs.map fun p => fold p.2.name).Nodup) {p q : Relation.Item × Source} (hp : p ∈ pairs)
    (hq : q ∈ pairs) (hname : fold p.2.name = fold q.2.name) : p = q :=
  inj_on_of_nodup_map h hp hq hname

theorem Pairs.mem_optional {pairs : Pairs} {name : String} :
    name ∈ pairs.optional ↔ ∃ p ∈ pairs, p.1.2 = true ∧ p.2.name = name := by
  simp [Pairs.optional, and_assoc]

/-- If the items have different names up to case, those of them are listed as nullable that a join
makes optional. Where a statement changes a table, nothing is listed. -/
theorem Block.listed_iff_optional (b : Block) (outer : List Source) (expected : List TypeExpr) :
    let q := b.interface outer expected
    ((q.shown.map fun source => fold source.name).Nodup →
      List.Forall₂ (fun item source => item.1.Gives source ∧
        (source.name ∈ q.nullableSources ↔ item.2 = true)) b.items q.shown) ∧
    ∀ st : Statement, (st matches .insert _ | .update _ | .delete _) = true → b = .statement st →
      q.nullableSources = [] := by
  intro q
  obtain ⟨pairs, hitems, hshown, hgives, hmarks⟩ := b.exists_pairs outer expected
  refine ⟨fun hnodup => ?_, fun st hst hb => ?_⟩
  · rw [← hitems, ← hshown, forall₂_map_left_iff, forall₂_map_right_iff, forall₂_same]
    rw [← hshown, map_map] at hnodup
    refine fun p hp => ⟨hgives p hp, fun hlisted => ?_, fun hoptional => ?_⟩
    · have hmark := (hmarks.only _ hlisted).resolve_left not_mem_nil
      obtain ⟨p', hp', hoptional, hname⟩ := Pairs.mem_optional.1 hmark
      rwa [Pairs.eq_of_fold_eq hnodup hp hp' (by rw [hname])]
    · obtain ⟨name, hlisted, hfold⟩ :=
        hmarks.all p.2.name (.inr (Pairs.mem_optional.2 ⟨p, hp, hoptional, rfl⟩))
      have hmark := (hmarks.only _ hlisted).resolve_left not_mem_nil
      obtain ⟨p', hp', -, rfl⟩ := Pairs.mem_optional.1 hmark
      rwa [← Pairs.eq_of_fold_eq hnodup hp' hp hfold]
  · have hnone : pairs.optional = [] := by
      refine eq_nil_iff_forall_not_mem.2 fun name hname => ?_
      obtain ⟨p, hp, hoptional, -⟩ := Pairs.mem_optional.1 hname
      have hitem : p.1 ∈ b.items := hitems ▸ mem_map_of_mem hp
      subst hb
      cases st with
      | query | transaction => cases hst
      | insert | update | delete =>
        rw [mem_singleton.1 hitem] at hoptional
        cases hoptional
    exact eq_nil_iff_forall_not_mem.2 fun name hname => by
      simpa [hnone] using hmarks.only name hname

/-- `a LEFT JOIN (b RIGHT JOIN c)`, where both `b` and `c` are optional. -/
def joinOfJoin : SetExpr :=
  let table (name : String) : Relation := .table ⟨none, ⟨name, false, default⟩, default⟩ none default
  let inner : Relation := .join (table "b") .right (table "c") .natural default
  .select ⟨.absent, [], [.join (table "a") .left (.nested inner none default) .natural default],
    none, [], none, [], default⟩

theorem Block.listed_iff_optional_joinOfJoin :
    (Block.branch joinOfJoin).items.map Prod.snd = [false, true, true] ∧
      List.Forall₂ (fun item source => item.1.Gives source ∧
        (source.name ∈ ((Block.branch joinOfJoin).interface [] []).nullableSources ↔
          item.2 = true)) (Block.branch joinOfJoin).items
        ((Block.branch joinOfJoin).interface [] []).shown :=
  ⟨rfl, (Block.listed_iff_optional (.branch joinOfJoin) [] []).1 (by decide)⟩

end SqlTyping
