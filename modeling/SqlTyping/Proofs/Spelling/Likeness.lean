import Mathlib.Data.List.Forall2
import Mathlib.Data.Option.Basic
import SqlTyping.Proofs.Spelling.Unplaced

/-!
# Values that are alike

Values that are read from a text and from the respelled one are alike: trees may differ in their
places, lists and pairs in those of their entries, and a function makes of values that are alike
others that are. Whether a value is alike to another is found from how they are built.
-/

namespace SqlTyping

open List

variable {α β : Type}

/-- When two values count as alike. A function may tell values apart that are alike; then it is not
even like itself. -/
class Likeness (α : Type) where
  Like : α → α → Prop
  symm : ∀ {a b}, Like a b → Like b a
  trans : ∀ {a b c}, Like a b → Like b c → Like a c

/-- The values are alike. -/
class Akin [Likeness α] (a b : α) : Prop where
  like : Likeness.Like a b

/-- Values that are alike only if they are the same. -/
class Exact (α : Type) where

/-- Trees, which are alike if they are the same but for places. -/
class Placed (α : Type) where
  unplaced : α → α

open Likeness Placed

theorem Likeness.self [Likeness α] {a b : α} (h : Like a b) : Like a a := trans h (symm h)

section Values

instance [Exact α] : Likeness α := ⟨Eq, Eq.symm, Eq.trans⟩

instance : Exact Bool where
instance : Exact String where
instance : Exact Unit where
instance : Exact Nat where
instance : Exact Literal where
instance : Exact TruthTest where
instance : Exact LikeKind where
instance : Exact Quantifier where
instance : Exact CurrentKind where
instance : Exact SetOperator where
instance : Exact JoinKind where
instance : Exact Lexeme.Param where
instance : Exact Grammar.ChangeKind where

instance [Placed α] : Likeness α := ⟨fun a b => unplaced a = unplaced b, Eq.symm, Eq.trans⟩

/-- Places are not compared. -/
instance : Likeness Span := ⟨fun _ _ => True, id, fun _ => id⟩

instance [Likeness α] : Likeness (Option α) where
  Like := Option.Rel Like
  symm
    | .some h => .some (symm h)
    | .none => .none
  trans
    | .some h, .some h' => .some (trans h h')
    | .none, .none => .none

instance [Likeness α] : Likeness (List α) where
  Like := List.Forall₂ Like
  symm h := List.Forall₂.flip (h.imp fun _ _ => Likeness.symm)
  trans {as bs cs} h h' := by
    induction h generalizing cs with
    | nil => exact h'
    | cons hab _ ih =>
      cases h' with
      | cons hbc h' => exact .cons (trans hab hbc) (ih h')

instance [Likeness α] [Likeness β] : Likeness (α × β) where
  Like a b := Like a.1 b.1 ∧ Like a.2 b.2
  symm h := ⟨symm h.1, symm h.2⟩
  trans h h' := ⟨trans h.1 h'.1, trans h.2 h'.2⟩

instance [Likeness α] : Likeness (Spanned α) := ⟨fun a b => Like a.value b.value, symm, trans⟩

instance [Likeness α] [Likeness β] : Likeness (α → β) where
  Like f g := ∀ a b, Like a b → Like (f a) (g b)
  symm h _ _ hab := symm (h _ _ (symm hab))
  trans h h' _ _ hab := trans (h _ _ (self hab)) (h' _ _ hab)

theorem like_exact [Exact α] {a b : α} : Like a b ↔ a = b := Iff.rfl

theorem like_placed [Placed α] {a b : α} : Like a b ↔ unplaced a = unplaced b := Iff.rfl

theorem like_function [Likeness α] [Likeness β] {f g : α → β} :
    Like f g ↔ ∀ a b, Like a b → Like (f a) (g b) := Iff.rfl

theorem like_option [Placed α] {a b : Option α} : Like a b ↔ a.map unplaced = b.map unplaced := by
  cases a <;> cases b <;> simp [Like]

theorem like_optionExact [Exact α] {a b : Option α} : Like a b ↔ a = b := by
  cases a <;> cases b <;> simp [Like]

theorem like_listExact [Exact α] {as bs : List α} : Like as bs ↔ as = bs := by
  show List.Forall₂ Eq as bs ↔ _
  rw [forall₂_eq_eq_eq]

theorem like_list [Placed α] {as bs : List α} : Like as bs ↔ as.map unplaced = bs.map unplaced := by
  show List.Forall₂ _ as bs ↔ _
  rw [← forall₂_eq_eq_eq, forall₂_map_left_iff, forall₂_map_right_iff]
  rfl

theorem like_rows [Placed α] {as bs : List (List α)} :
    Like as bs ↔ as.map (List.map unplaced) = bs.map (List.map unplaced) := by
  rw [← forall₂_eq_eq_eq, forall₂_map_left_iff, forall₂_map_right_iff]
  refine ⟨List.Forall₂.imp fun _ _ => like_list.1, List.Forall₂.imp fun _ _ => like_list.2⟩

end Values

/-- Two values that are alike. -/
structure Twins (α : Type) [Likeness α] where
  first : α
  second : α
  like : Like first second

namespace Akin

instance exact [Exact α] (a : α) : Akin a a := ⟨rfl⟩

/-- A function that is given no places does not know of them. -/
instance [Exact α] [Exact β] (f : α → β) : Akin f f := ⟨fun _ _ h => congrArg f h⟩

instance {γ : Type} [Exact α] [Exact β] [Exact γ] (f : α → β → γ) : Akin f f :=
  ⟨fun _ _ ha _ _ hb => congrArg₂ f ha hb⟩

instance placed [Placed α] (a : α) : Akin a a := ⟨rfl⟩

instance span (a b : Span) : Akin a b := ⟨trivial⟩

variable [Likeness α] [Likeness β]

instance app {f g : α → β} {a b : α} [hf : Akin f g] [ha : Akin a b] : Akin (f a) (g b) :=
  ⟨hf.like a b ha.like⟩

instance (p : Twins α) : Akin p.first p.second := ⟨p.like⟩

instance none : Akin (none : Option α) none := ⟨.none⟩

instance some : Akin (some : α → Option α) some := ⟨fun _ _ => .some⟩

instance nil : Akin ([] : List α) [] := ⟨.nil⟩

instance cons : Akin (List.cons : α → List α → List α) .cons := ⟨fun _ _ ha _ _ => .cons ha⟩

instance pair : Akin (Prod.mk : α → β → α × β) .mk := ⟨fun _ _ ha _ _ hb => ⟨ha, hb⟩⟩

instance value : Akin (Spanned.value : Spanned α → α) Spanned.value := ⟨fun _ _ h => h⟩

instance spanned : Akin (Spanned.mk : α → Span → Spanned α) .mk := ⟨fun _ _ ha _ _ _ => ha⟩

instance append : Akin (HAppend.hAppend : List α → List α → List α) HAppend.hAppend :=
  ⟨fun _ _ ha _ _ hb => rel_append ha hb⟩

instance length : Akin (List.length : List α → Nat) List.length :=
  ⟨fun _ _ h => List.Forall₂.length_eq h⟩

instance isSome : Akin (Option.isSome : Option α → Bool) Option.isSome := by
  refine ⟨fun a b h => ?_⟩
  cases h with
  | none => rfl
  | some _ => rfl

instance join : Akin (Option.join : Option (Option α) → Option α) Option.join := by
  refine ⟨fun a b h => ?_⟩
  cases h with
  | none => exact .none
  | some hab => exact hab

instance isNone : Akin (Option.isNone : Option α → Bool) Option.isNone := by
  refine ⟨fun a b h => ?_⟩
  cases h with
  | none => rfl
  | some _ => rfl

instance map {f g : α → β} {a b : Option α} [hf : ∀ p : Twins α, Akin (f p.first) (g p.second)]
    [h : Akin a b] : Akin (a.map f) (b.map g) := by
  obtain ⟨h⟩ := h
  cases h with
  | none => exact none
  | some hab => exact ⟨.some (hf ⟨_, _, hab⟩).like⟩

instance getD : Akin (Option.getD : Option α → α → α) Option.getD := by
  refine ⟨fun a b h c d hcd => ?_⟩
  cases h with
  | none => exact hcd
  | some hab => exact hab

instance toList : Akin (Option.toList : Option α → List α) Option.toList := by
  refine ⟨fun a b h => ?_⟩
  cases h with
  | none => exact .nil
  | some hab => exact .cons hab .nil

end Akin

/-! ## Trees -/

instance : Placed Ident := ⟨Ident.unplaced⟩
instance : Placed ObjectName := ⟨ObjectName.unplaced⟩
instance : Placed ParamRef := ⟨ParamRef.unplaced⟩
instance : Placed DataType := ⟨DataType.unplaced⟩
instance : Placed Operator := ⟨Operator.unplaced⟩
instance : Placed Locking := ⟨Locking.unplaced⟩
instance : Placed TableAlias := ⟨TableAlias.unplaced⟩
instance : Placed ConflictTarget := ⟨ConflictTarget.unplaced⟩
instance : Placed TransactionKind := ⟨TransactionKind.unplaced⟩
instance : Placed Transaction := ⟨Transaction.unplaced⟩
instance : Placed Expr := ⟨Expr.rewrite .unplaced⟩
instance : Placed WhenClause := ⟨WhenClause.rewrite .unplaced⟩
instance : Placed OrderItem := ⟨OrderItem.rewrite .unplaced⟩
instance : Placed WindowSpec := ⟨WindowSpec.rewrite .unplaced⟩
instance : Placed FunctionCall := ⟨FunctionCall.rewrite .unplaced⟩
instance : Placed Values := ⟨Values.rewrite .unplaced⟩
instance : Placed SelectItem := ⟨SelectItem.rewrite .unplaced⟩
instance : Placed Distinct := ⟨Distinct.rewrite .unplaced⟩
instance : Placed JoinConstraint := ⟨JoinConstraint.rewrite .unplaced⟩
instance : Placed Relation := ⟨Relation.rewrite .unplaced⟩
instance : Placed NamedWindow := ⟨NamedWindow.rewrite .unplaced⟩
instance : Placed Select := ⟨Select.rewrite .unplaced⟩
instance : Placed SetExpr := ⟨SetExpr.rewrite .unplaced⟩
instance : Placed Query := ⟨Query.rewrite .unplaced⟩
instance : Placed With := ⟨With.rewrite .unplaced⟩
instance : Placed Cte := ⟨Cte.rewrite .unplaced⟩
instance : Placed CteBody := ⟨CteBody.rewrite .unplaced⟩
instance : Placed InsertSource := ⟨InsertSource.rewrite .unplaced⟩
instance : Placed Assignment := ⟨Assignment.rewrite .unplaced⟩
instance : Placed OnConflict := ⟨OnConflict.rewrite .unplaced⟩
instance : Placed Insert := ⟨Insert.rewrite .unplaced⟩
instance : Placed Update := ⟨Update.rewrite .unplaced⟩
instance : Placed Delete := ⟨Delete.rewrite .unplaced⟩
instance : Placed Statement := ⟨Statement.rewrite .unplaced⟩

/-- The constructor makes like trees of like parts. -/
abbrev Natural {α : Type} [Likeness α] (a : α) : Prop := Akin a a

section Constructors

attribute [local simp] like_exact like_placed like_function like_option like_optionExact
  like_listExact like_list like_rows unplaced Ident.unplaced ObjectName.unplaced
  ParamRef.unplaced DataType.unplaced
  Operator.unplaced Locking.unplaced TableAlias.unplaced ConflictTarget.unplaced
  TransactionKind.unplaced Transaction.unplaced Expr.rewrite WhenClause.rewrite OrderItem.rewrite
  WindowSpec.rewrite FunctionCall.rewrite Values.rewrite SelectItem.rewrite Distinct.rewrite
  JoinConstraint.rewrite Relation.rewrite NamedWindow.rewrite Select.rewrite SetExpr.rewrite
  Query.rewrite With.rewrite Cte.rewrite CteBody.rewrite InsertSource.rewrite
  Assignment.rewrite OnConflict.rewrite Insert.rewrite Update.rewrite Delete.rewrite
  Statement.rewrite

instance : Natural Ident.mk := ⟨by simp +contextual⟩
instance : Natural ObjectName.mk := ⟨by simp +contextual⟩
instance : Natural ParamRef.mk := ⟨by simp +contextual⟩
instance : Natural DataType.mk := ⟨by simp +contextual⟩
instance : Natural Operator.mk := ⟨by simp +contextual⟩
instance : Natural Locking.mk := ⟨by simp +contextual⟩
instance : Natural TableAlias.mk := ⟨by simp +contextual⟩
instance : Natural ConflictTarget.columns := ⟨by simp +contextual⟩
instance : Natural ConflictTarget.constraint := ⟨by simp +contextual⟩
instance : Natural TransactionKind.rollback := ⟨by simp +contextual⟩
instance : Natural TransactionKind.savepoint := ⟨by simp +contextual⟩
instance : Natural TransactionKind.release := ⟨by simp +contextual⟩
instance : Natural Transaction.mk := ⟨by simp +contextual⟩
instance : Natural Expr.literal := ⟨by simp +contextual⟩
instance : Natural Expr.column := ⟨by simp +contextual⟩
instance : Natural Expr.param := ⟨by simp +contextual⟩
instance : Natural Expr.unary := ⟨by simp +contextual⟩
instance : Natural Expr.binary := ⟨by simp +contextual⟩
instance : Natural Expr.is := ⟨by simp +contextual⟩
instance : Natural Expr.isDistinctFrom := ⟨by simp +contextual⟩
instance : Natural Expr.between := ⟨by simp +contextual⟩
instance : Natural Expr.inList := ⟨by simp +contextual⟩
instance : Natural Expr.inSubquery := ⟨by simp +contextual⟩
instance : Natural Expr.inParam := ⟨by simp +contextual⟩
instance : Natural Expr.like := ⟨by simp +contextual⟩
instance : Natural Expr.quantified := ⟨by simp +contextual⟩
instance : Natural Expr.quantifiedSubquery := ⟨by simp +contextual⟩
instance : Natural Expr.cast := ⟨by simp +contextual⟩
instance : Natural Expr.typedString := ⟨by simp +contextual⟩
instance : Natural Expr.function := ⟨by simp +contextual⟩
instance : Natural Expr.case := ⟨by simp +contextual⟩
instance : Natural Expr.existsRow := ⟨by simp +contextual⟩
instance : Natural Expr.subquery := ⟨by simp +contextual⟩
instance : Natural Expr.array := ⟨by simp +contextual⟩
instance : Natural Expr.arraySubquery := ⟨by simp +contextual⟩
instance : Natural Expr.row := ⟨by simp +contextual⟩
instance : Natural Expr.nested := ⟨by simp +contextual⟩
instance : Natural Expr.subscript := ⟨by simp +contextual⟩
instance : Natural Expr.field := ⟨by simp +contextual⟩
instance : Natural Expr.extract := ⟨by simp +contextual⟩
instance : Natural Expr.current := ⟨by simp +contextual⟩
instance : Natural Expr.defaultValue := ⟨by simp +contextual⟩
instance : Natural WhenClause.mk := ⟨by simp +contextual⟩
instance : Natural OrderItem.mk := ⟨by simp +contextual⟩
instance : Natural WindowSpec.mk := ⟨by simp +contextual⟩
instance : Natural FunctionCall.mk := ⟨by simp +contextual⟩
instance : Natural Values.mk := ⟨by simp +contextual⟩
instance : Natural SelectItem.wildcard := ⟨by simp +contextual⟩
instance : Natural SelectItem.expr := ⟨by simp +contextual⟩
instance : Natural Distinct.on := ⟨by simp +contextual⟩
instance : Natural JoinConstraint.condition := ⟨by simp +contextual⟩
instance : Natural JoinConstraint.columns := ⟨by simp +contextual⟩
instance : Natural Relation.table := ⟨by simp +contextual⟩
instance : Natural Relation.derived := ⟨by simp +contextual⟩
instance : Natural Relation.function := ⟨by simp +contextual⟩
instance : Natural Relation.nested := ⟨by simp +contextual⟩
instance : Natural Relation.join := ⟨by simp +contextual⟩
instance : Natural NamedWindow.mk := ⟨by simp +contextual⟩
instance : Natural Select.mk := ⟨by simp +contextual⟩
instance : Natural SetExpr.select := ⟨by simp +contextual⟩
instance : Natural SetExpr.values := ⟨by simp +contextual⟩
instance : Natural SetExpr.nested := ⟨by simp +contextual⟩
instance : Natural SetExpr.operation := ⟨by simp +contextual⟩
instance : Natural Query.mk := ⟨by simp +contextual⟩
instance : Natural With.mk := ⟨by simp +contextual⟩
instance : Natural Cte.mk := ⟨by simp +contextual⟩
instance : Natural CteBody.query := ⟨by simp +contextual⟩
instance : Natural CteBody.values := ⟨by simp +contextual⟩
instance : Natural CteBody.insert := ⟨by simp +contextual⟩
instance : Natural CteBody.update := ⟨by simp +contextual⟩
instance : Natural CteBody.delete := ⟨by simp +contextual⟩
instance : Natural InsertSource.values := ⟨by simp +contextual⟩
instance : Natural InsertSource.param := ⟨by simp +contextual⟩
instance : Natural InsertSource.query := ⟨by simp +contextual⟩
instance : Natural Assignment.mk := ⟨by simp +contextual⟩
instance : Natural OnConflict.doNothing := ⟨by simp +contextual⟩
instance : Natural OnConflict.doUpdate := ⟨by simp +contextual⟩
instance : Natural Insert.mk := ⟨by simp +contextual⟩
instance : Natural Update.mk := ⟨by simp +contextual⟩
instance : Natural Delete.mk := ⟨by simp +contextual⟩
instance : Natural Statement.query := ⟨by simp +contextual⟩
instance : Natural Statement.insert := ⟨by simp +contextual⟩
instance : Natural Statement.update := ⟨by simp +contextual⟩
instance : Natural Statement.delete := ⟨by simp +contextual⟩
instance : Natural Statement.transaction := ⟨by simp +contextual⟩

end Constructors

end SqlTyping
