import SqlTyping.Proofs.Resolution.Run
import SqlTyping.Proofs.Types.Unions
import SqlTyping.TypeExpr.Construct

/-!
# Types that are known at once

Where the parts of a type are known, so is the type, and nothing is left to resolve. It is the type
that the same parts would resolve to later (`resolve_folded`). Unions are opened before and after
that; the result has the same members and the same flag, if no union in it is empty.
-/

namespace SqlTyping.TypeExpr

open List
open SqlType (Alike)

variable {ctx : TypeContext} {items : List TypeExpr} {value : TypeExpr → SqlType}

theorem resolveList_known {types : List SqlType} (h : items.mapM known? = some types) :
    resolveList ctx items = .ok types := by
  rw [resolveList_eq_mapM]
  refine mapM_eq_ok_of_mapM_eq_some h fun t type htype => ?_
  cases t with
  | known => cases htype; rfl
  | _ => cases htype

theorem resolveFields_known {fields : List (Field TypeExpr)} {types : List (Field SqlType)}
    (h : fields.mapM knownField? = some types) : resolveFields ctx fields = .ok types := by
  rw [resolveFields_eq_mapM]
  refine mapM_eq_ok_of_mapM_eq_some h fun ⟨name, t⟩ type htype => ?_
  cases t with
  | known => cases htype; rfl
  | _ => cases htype

section

variable (ctx)

theorem resolve_arrayOf (t : TypeExpr) (nullable : Bool) :
    (arrayOf t nullable).resolve ctx = (TypeExpr.array t nullable).resolve ctx := by
  cases t <;> rfl

theorem resolve_itemOf (t : TypeExpr) : t.itemOf.resolve ctx = (arrayItem t).resolve ctx := by
  cases t with
  | known type =>
    obtain ⟨kind, nullable, postgres⟩ := type
    cases kind <;> rfl
  | _ => rfl

theorem resolve_castTo (value target : TypeExpr) :
    (value.castTo target).resolve ctx = (TypeExpr.cast value target).resolve ctx := by
  unfold castTo
  split <;> rfl

theorem resolve_ofOperator (symbol : String) (available : List Overload) (left right : TypeExpr)
    (part : OperatorPart) (span : Span) :
    (ofOperator symbol available left right part span).resolve ctx =
      (TypeExpr.operator symbol left right available part span).resolve ctx := by
  unfold ofOperator
  split <;> rfl

theorem resolve_coalesceOf (items : List TypeExpr) :
    (coalesceOf items).resolve ctx = (TypeExpr.coalesce items).resolve ctx := by
  unfold coalesceOf
  split
  · next types htypes =>
    rw [resolve, resolve, resolveList_known htypes]
    rfl
  · rfl

theorem resolve_objectOf (fields : List (Field TypeExpr)) :
    (objectOf fields).resolve ctx = (TypeExpr.object fields false).resolve ctx := by
  unfold objectOf
  split
  · next types htypes =>
    rw [resolve, resolve, resolveFields_known htypes]
    rfl
  · rfl

end

/-! ## Unions -/

/-- What the type resolves to, if it does. -/
def resolved (ctx : TypeContext) (t : TypeExpr) : SqlType := (t.resolve ctx).toOption.getD .unknown

theorem resolved_eq {t : TypeExpr} {u : SqlType} (h : t.resolve ctx = .ok u) :
    t.resolved ctx = u := by rw [resolved, h]; rfl

theorem resolve_resolved {t : TypeExpr} {u : SqlType} (h : t.resolve ctx = .ok u) :
    t.resolve ctx = .ok (t.resolved ctx) := by rw [resolved_eq h, h]

theorem resolveList_eq_ok (h : ∀ t ∈ items, t.resolve ctx = .ok (value t)) :
    resolveList ctx items = .ok (items.map value) := by
  induction items with
  | nil => rfl
  | cons t rest ih =>
    obtain ⟨ht, hrest⟩ := forall_mem_cons.1 h
    rw [resolveList, ht, ih hrest]
    rfl

section

variable (h : ∀ t ∈ items.flatMap unionItems, t.resolve ctx = .ok (value t) ∧ (value t).Normal)
include h

/-- The union that is built resolves to the union of what its parts resolve to. -/
theorem exists_resolve_unionOf : ∃ u, (unionOf items).resolve ctx = .ok u ∧
      u.Alike (SqlType.union ((items.flatMap unionItems).eraseDups.map value)) := by
  have hflat : ∀ t ∈ (items.flatMap unionItems).eraseDups,
      t.resolve ctx = .ok (value t) ∧ (value t).Normal :=
    fun t ht => h t (mem_eraseDups.1 ht)
  have hlist := resolveList_eq_ok fun t ht => (hflat t ht).1
  unfold unionOf
  split
  · next only hone =>
    rw [hone] at hflat ⊢
    obtain ⟨hvalue, hnormal⟩ := hflat only (mem_singleton_self only)
    exact ⟨value only, hvalue, hnormal.alike_union⟩
  · split
    · next types htypes =>
      rw [resolveList_known htypes, Except.ok.injEq] at hlist
      exact ⟨_, rfl, hlist ▸ rfl, hlist ▸ rfl⟩
    · exact ⟨_, by rw [resolve, hlist]; rfl, rfl, rfl⟩

/-- An item resolves to the union of what its parts resolve to. -/
theorem exists_resolve_item {t : TypeExpr} (ht : t ∈ items) :
    ∃ u, t.resolve ctx = .ok u ∧ u.Alike (SqlType.union (t.unionItems.map value)) ∧ u.Normal := by
  have hparts : ∀ p ∈ t.unionItems, p.resolve ctx = .ok (value p) ∧ (value p).Normal :=
    fun p hp => h p (mem_flatMap.2 ⟨t, ht, hp⟩)
  cases t with
  | union ts =>
    have hlist : resolveList ctx ts = .ok (ts.map value) :=
      resolveList_eq_ok fun p hp => (hparts p hp).1
    refine ⟨SqlType.union (ts.map value), by rw [resolve, hlist]; rfl, ⟨rfl, rfl⟩,
      SqlType.normal_union ?_⟩
    exact forall_mem_map.2 fun p hp => (hparts p hp).2
  | _ =>
    obtain ⟨hvalue, hnormal⟩ := hparts _ (mem_singleton_self _)
    exact ⟨_, hvalue, hnormal.alike_union, hnormal⟩

/-- Opening unions and taking out repetitions does not change the union. -/
theorem alike_union_parts (hne : ∀ t ∈ items, t.unionItems ≠ []) {types : TypeExpr → SqlType}
    (htypes : ∀ t ∈ items,
      (types t).Alike (SqlType.union (t.unionItems.map value)) ∧ (types t).Normal) :
    (SqlType.union ((items.flatMap unionItems).eraseDups.map value)).Alike
      (SqlType.union (items.map types)) := by
  have hparts : ∀ t ∈ items, ∀ u ∈ t.unionItems.map value, u.Normal := fun t ht =>
    forall_mem_map.2 fun p hp => (h p (mem_flatMap.2 ⟨t, ht, hp⟩)).2
  have hflat : ∀ u ∈ (items.flatMap unionItems).eraseDups.map value, u.Normal :=
    forall_mem_map.2 fun p hp => (h p (mem_eraseDups.1 hp)).2
  have hitems : ∀ u ∈ items.map types, u.Normal := forall_mem_map.2 fun t ht => (htypes t ht).2
  refine ⟨?_, ?_⟩
  · calc (SqlType.union ((items.flatMap unionItems).eraseDups.map value)).memberKinds
        = SqlType.summary ((items.flatMap unionItems).flatMap fun p => (value p).memberKinds) := by
          rw [SqlType.memberKinds_union hflat, flatMap_map, SqlType.summary_flatMap_eraseDups]
      _ = SqlType.summary (items.flatMap fun t =>
            SqlType.summary (t.unionItems.flatMap fun p => (value p).memberKinds)) := by
          rw [flatMap_assoc, SqlType.summary_flatMap_summary]
      _ = SqlType.summary (items.flatMap fun t => (types t).memberKinds) := by
          congr 1
          refine flatMap_congr fun t ht => ?_
          rw [(htypes t ht).1.1, SqlType.memberKinds_union (hparts t ht), flatMap_map]
      _ = (SqlType.union (items.map types)).memberKinds := by
          rw [SqlType.memberKinds_union hitems, flatMap_map]
  · have hflag : ∀ t ∈ items, (types t).nullable = t.unionItems.any fun p => (value p).nullable := by
      intro t ht
      rw [(htypes t ht).1.2, SqlType.nullable_union (hparts t ht)]
      simp [hne t ht, Function.comp_def]
    have hany : ((items.flatMap unionItems).eraseDups.map value).any (·.nullable) =
        (items.map types).any (·.nullable) := by
      rw [Bool.eq_iff_iff]
      simp only [any_map, any_eq_true, Function.comp_apply, mem_eraseDups, mem_flatMap]
      constructor
      · rintro ⟨p, ⟨t, ht, hp⟩, hnullable⟩
        exact ⟨t, ht, by rw [hflag t ht]; exact any_eq_true.2 ⟨p, hp, hnullable⟩⟩
      · rintro ⟨t, ht, hnullable⟩
        rw [hflag t ht] at hnullable
        obtain ⟨p, hp, hnullable⟩ := any_eq_true.1 hnullable
        exact ⟨p, ⟨t, ht, hp⟩, hnullable⟩
    have hempty : ((items.flatMap unionItems).eraseDups.map value).isEmpty =
        (items.map types).isEmpty := by
      rw [Bool.eq_iff_iff]
      simp only [List.isEmpty_iff, map_eq_nil_iff, Repetition.eraseDups_eq_nil, flatMap_eq_nil_iff]
      refine ⟨fun hnil => eq_nil_iff_forall_not_mem.2 fun t ht => hne t ht (hnil t ht), ?_⟩
      rintro rfl t ht
      cases ht
    rw [SqlType.nullable_union hflat, SqlType.nullable_union hitems, hany, hempty]

end

/-- What is folded into a known type is the type that the same parts resolve to later. For a union
this is so of the kinds of its members and of its flag, if no union among the items is empty and all
parts of it resolve to normal types. All else resolves to the same type or fails in the same way. -/
theorem resolve_folded (ctx : TypeContext) : (∀ items, (∀ t ∈ items, t.unionItems ≠ []) →
      (∀ t ∈ items.flatMap unionItems, ∃ type, t.resolve ctx = .ok type ∧ type.Normal) →
      ∃ u types, (unionOf items).resolve ctx = .ok u ∧ resolveList ctx items = .ok types ∧
        u.memberKinds = (SqlType.union types).memberKinds ∧
        u.nullable = (SqlType.union types).nullable) ∧
    (∀ t nullable, (arrayOf t nullable).resolve ctx = (TypeExpr.array t nullable).resolve ctx) ∧
    (∀ t, t.itemOf.resolve ctx = (arrayItem t).resolve ctx) ∧
    (∀ symbol available left right part span,
      (ofOperator symbol available left right part span).resolve ctx =
        (TypeExpr.operator symbol left right available part span).resolve ctx) ∧
    (∀ items, (coalesceOf items).resolve ctx = (TypeExpr.coalesce items).resolve ctx) ∧
    (∀ fields, (objectOf fields).resolve ctx = (TypeExpr.object fields false).resolve ctx) ∧
    ∀ value target, (castTo value target).resolve ctx = (TypeExpr.cast value target).resolve ctx := by
  refine ⟨fun items hne h => ?_, resolve_arrayOf ctx, resolve_itemOf ctx, resolve_ofOperator ctx,
    resolve_coalesceOf ctx, resolve_objectOf ctx, resolve_castTo ctx⟩
  have hvalue : ∀ t ∈ items.flatMap unionItems, t.resolve ctx = .ok (t.resolved ctx) ∧
      (t.resolved ctx).Normal := fun t ht => by
    obtain ⟨type, htype, hnormal⟩ := h t ht
    exact ⟨resolve_resolved htype, resolved_eq htype ▸ hnormal⟩
  have hitem : ∀ t ∈ items, t.resolve ctx = .ok (t.resolved ctx) ∧
      (t.resolved ctx).Alike (SqlType.union (t.unionItems.map (resolved ctx))) ∧
      (t.resolved ctx).Normal := fun t ht => by
    obtain ⟨u, hu, hrest⟩ := exists_resolve_item hvalue ht
    exact ⟨resolve_resolved hu, resolved_eq hu ▸ hrest⟩
  obtain ⟨u, hu, hkinds, hnullable⟩ := exists_resolve_unionOf hvalue
  obtain ⟨hkinds', hnullable'⟩ := alike_union_parts hvalue hne fun t ht => (hitem t ht).2
  exact ⟨u, _, hu, resolveList_eq_ok fun t ht => (hitem t ht).1, hkinds.trans hkinds',
    hnullable.trans hnullable'⟩

/-- A union that waits, in which a column is unknown, with a number that repeats and a null. -/
theorem resolve_folded_number :
    let ctx : TypeContext := ⟨.empty [], .lenient, [], .other⟩
    let items := [.union [.column none none "a" ⟨0, 1⟩, .known .number], .known .number, .known .null]
    ∃ u, (unionOf items).resolve ctx = .ok u ∧ u.memberKinds = [.number] ∧ u.nullable = true := by
  intro ctx items
  obtain ⟨u, types, hu, htypes, hkinds, hnullable⟩ := (resolve_folded ctx).1 items (by decide) (by
    simp only [items, flatMap_cons, flatMap_nil, unionItems, cons_append,
      nil_append, forall_mem_cons]
    exact ⟨⟨.unknown, rfl, trivial⟩, ⟨.number, rfl, trivial⟩, ⟨.number, rfl, trivial⟩,
      ⟨.null, rfl, rfl⟩, forall_mem_nil _⟩)
  obtain rfl : types = [.number, .number, .null] := (Except.ok.inj htypes).symm
  exact ⟨u, hu, hkinds, hnullable⟩

/-- A union with no items resolves to null, and is lost when it is opened. A union of one type that
is not normal resolves to a normal type, and is that type as it is when it is opened. -/
theorem unionOf_lacks_null :
    let ctx : TypeContext := ⟨.empty [], .lenient, [], .other⟩
    let items := [.union [], .known .string]
    let odd : SqlType := { SqlType.null with nullable := false }
    let oddItems := [.union [.known odd]]
    ((unionOf items).resolve ctx = .ok .string ∧ resolveList ctx items = .ok [.null, .string] ∧
      (SqlType.union [.null, .string]).nullable = true) ∧
    (unionOf oddItems).resolve ctx = .ok odd ∧ resolveList ctx oddItems = .ok [.null] ∧
      SqlType.null.Normal ∧ (SqlType.union [.null]).nullable = true :=
  ⟨⟨rfl, rfl, rfl⟩, rfl, rfl, rfl, rfl⟩

end SqlTyping.TypeExpr
