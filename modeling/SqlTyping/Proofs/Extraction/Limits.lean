import SqlTyping.Proofs.Extraction.Regular
import SqlTyping.Proofs.Tables.Scoping

/-!
# What extraction can put into a scope

While an interface is extracted, every table in the scope and every type is within given limits,
certain names are known to stand for named queries, and the sources that a star stands for are those
of certain items of a `FROM` list, in their order. Those of them are marked as nullable that are on
the optional side of a join. `Adds` says this of an action, and `Defines` also which names it adds;
there is one lemma for each way to put actions together and one for each basic action.

What types there are is not said here: a limit is any property that all ways to build a type keep.
-/

namespace SqlTyping

open List
open Text (fold)
open Extract

variable {expected : Option TypeExpr} {q q' : Interface} {types : List TypeExpr} {name : String}
  {operands : List Operand} {isResult : Bool} {type : TypeExpr} {s : Scope}

/-! ## Limits -/

/-- Properties of the tables and types of an interface. Functions with a common type may be called
only if `common` holds. -/
structure Limits where
  table : TableUse → Prop
  type : TypeExpr → Prop
  common : Prop
  basic {t : SqlType} : t.isBasic = true → type (.known t)
  column (schema table : Option String) (name : String) (span : Span) :
    type (.column schema table name span)
  record (schema : Option String) (name : String) (span : Span) : type (.record schema name span)
  function {args : List TypeExpr} (schema : Option String) (name : String) (span : Span) :
    (∀ t ∈ args, type t) → type (.function schema name args span)
  argument {args : List TypeExpr} (schema : Option String) (name : String) (index : Nat)
    (span : Span) : (∀ t ∈ args, type t) → type (.functionArgument schema name args index span)
  operator {left right : TypeExpr} (symbol : String) (part : OperatorPart) (span : Span) :
    type left → type right →
    type (.ofOperator symbol (Overload.ofSymbol symbol) left right part span)
  dataType (target : DataType) (span : Span) : type (.ofDataType target span)
  cast {t : TypeExpr} (target : DataType) (span : Span) : type t →
    type (t.castTo (.ofDataType target span))
  union {items : List TypeExpr} : (∀ t ∈ items, type t) → type (.unionOf items)
  array {t : TypeExpr} : type t → type (.arrayOf t false)
  asArray {t : TypeExpr} : type t → type (.asArray t false)
  item {t : TypeExpr} : type t → type t.itemOf
  field {t : TypeExpr} (name : String) (span : Span) : type t → type (t.fieldOf name span)
  object {fields : List (Field TypeExpr)} : (∀ f ∈ fields, type f.value) →
    type (.object fields false)
  builtin {call : BuiltinCall} {t : TypeExpr} : call.type? = some t → (∀ t ∈ call.args, type t) →
    (BuiltinCall.isCommonType call.name = true → common) → type t

namespace Limits

/-- Types of any form, and certain tables. -/
def tables (table : TableUse → Prop) : Limits where
  table := table
  type _ := True
  common := True
  basic _ := trivial
  column _ _ _ _ := trivial
  record _ _ _ := trivial
  function _ _ _ _ := trivial
  argument _ _ _ _ _ := trivial
  operator _ _ _ _ _ := trivial
  dataType _ _ := trivial
  cast _ _ _ := trivial
  union _ := trivial
  array _ := trivial
  asArray _ := trivial
  item _ := trivial
  field _ _ _ := trivial
  object _ := trivial
  builtin _ _ _ := trivial

/-- Any tables, and regular types. -/
def regular (lax : Prop) : Limits where
  table _ := True
  type := TypeExpr.Regular lax
  common := lax
  basic := TypeExpr.regular_basic
  column _ _ _ _ := .column
  record _ _ _ := .record
  function _ _ _ := .function
  argument _ _ _ _ := .functionArgument
  operator symbol part span hleft hright :=
    TypeExpr.regular_ofOperator hleft hright symbol part span
  dataType := TypeExpr.regular_ofDataType
  cast target span h := TypeExpr.regular_castTo h target span
  union := TypeExpr.regular_unionOf
  array h := TypeExpr.regular_arrayOf h false
  asArray := .asArray
  item := TypeExpr.regular_itemOf
  field name span h := TypeExpr.regular_fieldOf h name span
  object := .object
  builtin := BuiltinCall.regular_type?

variable {L : Limits}

/-- What is expected somewhere is within the limits. -/
def Expects (L : Limits) (expected : Option TypeExpr) : Prop := ∀ t ∈ expected, L.type t

theorem union_pair (L : Limits) {t u : TypeExpr} (ht : L.type t) (hu : L.type u) :
    L.type (.unionOf [t, u]) :=
  L.union (forall_mem_cons.2 ⟨ht, forall_mem_singleton.2 hu⟩)

theorem expects_none : L.Expects none := nofun

theorem expects_some {t : TypeExpr} (h : L.type t) : L.Expects (some t) := by
  rintro _ ⟨⟩
  exact h

theorem expects_basic {t : SqlType} (h : t.isBasic = true) : L.Expects (some (.known t)) :=
  expects_some (L.basic h)

theorem Expects.getD (h : L.Expects expected) : L.type (expected.getD (.known .unknown)) := by
  cases expected with
  | none => exact L.basic rfl
  | some t => exact h t rfl

theorem types_targetColumns (target : String) (columns : List Ident) :
    ∀ t ∈ targetColumns target columns, L.type t := by
  intro t ht
  obtain ⟨column, -, rfl⟩ := mem_map.1 ht
  exact L.column _ _ _ _

theorem types_columnsOf {rows : List (List TypeExpr)} (h : ∀ row ∈ rows, ∀ t ∈ row, L.type t) :
    ∀ t ∈ columnsOf rows, L.type t := by
  intro t ht
  obtain ⟨i, -, rfl⟩ := mem_map.1 ht
  refine L.union fun t ht => ?_
  obtain ⟨row, hrow, ht⟩ := mem_filterMap.1 ht
  exact h row hrow t (mem_of_getElem? ht)

end Limits

variable {L : Limits} {α β : Type} {names : Names}

/-- A result column is a star, or its type is within the limits. -/
def ResultColumn.Within (L : Limits) (column : ResultColumn) : Prop :=
  L.type column.type ∨ ∃ schema table span, column.type = .star schema table span

/-- All tables and types of the source are within the limits, at any depth. -/
inductive Source.Within (L : Limits) : Source → Prop where
  | table {schema : Option String} {name : String} {asName : Option String} {isResult : Bool}
      {span : Span} : L.table ⟨schema, name, span⟩ →
      Source.Within L (.table schema name asName isResult span)
  | query {name : String} {q : Interface} {isResult : Bool} :
      (∀ source ∈ q.sources, Source.Within L source) → (∀ p ∈ q.params, L.type p.type) →
      (∀ column ∈ q.results, column.Within L) → Source.Within L (.query name q isResult)
  | values {name : String} {columns : Option (List String)} {types : List TypeExpr}
      {isResult : Bool} : (∀ t ∈ types, L.type t) →
      Source.Within L (.values name columns types isResult)

structure Interface.Within (L : Limits) (q : Interface) : Prop where
  sources : ∀ source ∈ q.sources, source.Within L
  params : ∀ p ∈ q.params, L.type p.type
  results : ∀ column ∈ q.results, column.Within L

theorem Interface.Within.source (h : q.Within L) : (Source.query name q isResult).Within L :=
  .query h.sources h.params h.results

variable {source : Source}

instance : Param.EntryLaw TypeExpr.unionOf fun p => L.type p.type where
  merge _ hp hq := L.union_pair hp hq

namespace Interface.Within

variable {q : Interface}

theorem addSource (h : q.Within L) (hs : source.Within L) :
    (q.addSource source).Within L :=
  ⟨forall_mem_append.2 ⟨h.sources, forall_mem_singleton.2 hs⟩, h.params, h.results⟩

theorem addParam (h : q.Within L) {p : Param TypeExpr} (hp : L.type p.type) :
    (q.addParam p).Within L :=
  ⟨h.sources, Param.forall_insert (H := fun p => L.type p.type) h.params hp, h.results⟩

theorem addResult (h : q.Within L) {column : ResultColumn} (hc : column.Within L) :
    (q.addResult column).Within L :=
  ⟨h.sources, h.params, forall_mem_append.2 ⟨h.results, forall_mem_singleton.2 hc⟩⟩

theorem renameResults (h : q.Within L) (columns : List String) :
    (q.renameResults columns).Within L := by
  refine ⟨h.sources, h.params, fun column hcolumn => ?_⟩
  rcases mem_append.1 hcolumn with hcolumn | hcolumn
  · obtain ⟨⟨old, name⟩, hold, rfl⟩ := mem_map.1 hcolumn
    have hwithin := h.results old (of_mem_zip hold).1
    dsimp only
    split
    · exact hwithin
    · exact hwithin
  · exact h.results column (mem_of_mem_drop hcolumn)

end Interface.Within

namespace Source.Within

theorem withResult (h : source.Within L) (isResult : Bool) :
    (source.withResult isResult).Within L := by
  cases h with
  | table h => exact .table h
  | query hsources hparams hresults => exact .query hsources hparams hresults
  | values h => exact .values h

theorem aliased (h : source.Within L) (asName : Option TableAlias) :
    (source.aliased asName).Within L := by
  cases asName with
  | none => exact h
  | some asName =>
    cases h with
    | table h => exact .table h
    | query hsources hparams hresults =>
      exact (Interface.Within.renameResults ⟨hsources, hparams, hresults⟩ _).source
    | values h => exact .values h

end Source.Within

/-! ## Items of `FROM` lists -/

/-- Are there rows of a join without one of its left side? -/
def JoinKind.optionalLeft (kind : JoinKind) : Bool := kind matches .right | .full

/-- Are there rows of a join without one of its right side? -/
def JoinKind.optionalRight (kind : JoinKind) : Bool := kind matches .left | .full

namespace Relation

/-- An item, and whether a join makes it optional. -/
abbrev Item := Relation × Bool

/-- The items of a join, given those on its two sides. -/
def joined (kind : JoinKind) (left right : List Item) : List Item :=
  left.map (Prod.map id (· || kind.optionalLeft)) ++
    right.map (Prod.map id (· || kind.optionalRight))

/-- The items that a relation consists of, if a star stands for them. -/
def items (isResult : Bool) : Relation → List Item
  | .table name asName span => if isResult then [(.table name asName span, false)] else []
  | .derived lateral query asName span =>
    if isResult then [(.derived lateral query asName span, false)] else []
  | .function lateral call asName span =>
    if isResult then [(.function lateral call asName span, false)] else []
  | .nested inner _ _ => inner.items isResult
  | .join left kind right _ _ => joined kind (left.items isResult) (right.items isResult)

theorem items_false (relation : Relation) : relation.items false = [] := by
  cases relation with
  | table | derived | function => rfl
  | nested inner => exact inner.items_false
  | join left _ right => rw [items, left.items_false, right.items_false]; rfl

theorem listItems_false (relations : List Relation) : relations.flatMap (items false) = [] :=
  flatMap_eq_nil_iff.2 fun relation _ => relation.items_false

/-- The name by which the columns of an item are known. -/
def label? : Relation → Option String
  | .table name asName _ => some ((asName.map (·.name.value)).getD name.name.value)
  | .derived _ _ asName _ => asName.map (·.name.value)
  | .function _ call asName _ => some ((asName.map TableAlias.name).getD call.name.name).value
  | .nested .. | .join .. => none

/-- The source is what the item stands for: a query or rows of that name, or the table that is
written there. -/
structure Gives (item : Relation) (source : Source) : Prop where
  name : ∀ name ∈ item.label?, fold source.name = fold name
  table : source.isNamedQuery = false → ∃ name asName span, item = .table name asName span ∧
    source = .table (name.schema.map Ident.value) name.name.value (asName.map (·.name.value)) true
      span

end Relation

/-- The table that a statement changes, as an item. -/
def targetItem (table : ObjectName) (asName : Option Ident) : Relation :=
  .table table (asName.map (⟨·, []⟩)) table.span

mutual

/-- The items that a star in the first branch of a query stands for. -/
def SetExpr.items : SetExpr → List Relation.Item
  | .select ⟨_, _, relations, _, _, _, _, _⟩ => relations.flatMap (Relation.items true)
  | .values _ => []
  | .nested query => query.items
  | .operation _ _ left _ _ => left.items

def Query.items : Query → List Relation.Item
  | ⟨_, body, _, _, _, _, _⟩ => body.items

end

/-- The items that a star stands for. What a statement changes is not optional, whatever it is joined
with. -/
def Statement.items : Statement → List Relation.Item
  | .query q => q.items
  | .insert i => [(targetItem i.table i.asName, false)]
  | .update u => [(targetItem u.table u.asName, false)]
  | .delete d => [(targetItem d.table d.asName, false)]
  | .transaction _ => []

/-- The sources that a star stands for. -/
def Interface.shown (q : Interface) : List Source := q.sources.filter Source.isResult

/-! ## Nullable sources -/

/-- Among names up to case, `marks` have been added to `old`. -/
structure Marks (old marks new : List String) : Prop where
  only : ∀ n ∈ new, n ∈ old ∨ n ∈ marks
  all : ∀ n, n ∈ old ∨ n ∈ marks → ∃ m ∈ new, fold m = fold n

namespace Marks

variable {old mid new a b : List String}

theorem refl (old : List String) : Marks old [] old where
  only _ hn := .inl hn
  all n hn := ⟨n, by simpa using hn, rfl⟩

theorem trans (h : Marks old a mid) (h' : Marks mid b new) : Marks old (a ++ b) new where
  only n hn := by
    rw [mem_append, ← or_assoc]
    exact (h'.only n hn).imp_left (h.only n)
  all n hn := by
    rw [mem_append, ← or_assoc] at hn
    rcases hn with hn | hn
    · obtain ⟨m, hm, hfold⟩ := h.all n hn
      obtain ⟨m', hm', hfold'⟩ := h'.all m (.inl hm)
      exact ⟨m', hm', hfold'.trans hfold⟩
    · exact h'.all n (.inr hn)

theorem congr (h : Marks old a new) (hab : ∀ n, n ∈ a ↔ n ∈ b) : Marks old b new :=
  ⟨fun n hn => (h.only n hn).imp_right (hab n).1, fun n hn => h.all n (hn.imp_right (hab n).2)⟩

theorem setNullable (q : Interface) (name : String) :
    Marks q.nullableSources [name] (q.setNullable name).nullableSources := by
  unfold Interface.setNullable
  split
  · next h =>
    obtain ⟨m, hm, hfold⟩ := any_eq_true.1 h
    refine ⟨fun n hn => .inl hn, fun n hn => ?_⟩
    rcases hn with hn | hn
    · exact ⟨n, hn, rfl⟩
    · obtain rfl := mem_singleton.1 hn
      exact ⟨m, hm, Text.eqFold_iff.1 hfold⟩
  · exact ⟨fun n hn => mem_append.1 hn, fun n hn => ⟨n, mem_append.2 hn, rfl⟩⟩

end Marks

/-- The items, and the sources that they stand for. -/
abbrev Pairs := List (Relation.Item × Source)

def Pairs.optional (pairs : Pairs) : List String := (pairs.filter (·.1.2)).map (·.2.name)

/-- An interface has got the sources of the items. -/
structure Interface.Gains (pairs : Pairs) (q q' : Interface) : Prop where
  sources : ∃ sources, q'.sources = q.sources ++ sources ∧
    sources.filter Source.isResult = pairs.map Prod.snd
  gives : ∀ p ∈ pairs, p.1.1.Gives p.2
  nullable : Marks q.nullableSources pairs.optional q'.nullableSources

theorem Interface.Gains.trans {pairs more : Pairs} {q'' : Interface} (h : q.Gains pairs q')
    (h' : q'.Gains more q'') : q.Gains (pairs ++ more) q'' := by
  obtain ⟨sources, heq, hresult⟩ := h.sources
  obtain ⟨others, heq', hresult'⟩ := h'.sources
  refine ⟨⟨sources ++ others, by rw [heq', heq, append_assoc], ?_⟩,
    forall_mem_append.2 ⟨h.gives, h'.gives⟩, ?_⟩
  · rw [filter_append, hresult, hresult', map_append]
  · rw [Pairs.optional, filter_append, map_append]
    exact h.nullable.trans h'.nullable

theorem Interface.Gains.same (hsources : q'.sources = q.sources)
    (hnullable : q'.nullableSources = q.nullableSources) : q.Gains [] q' :=
  ⟨⟨[], by simp [hsources], rfl⟩, nofun, hnullable ▸ .refl _⟩

/-! ## Scopes -/

namespace Scope

structure Within (L : Limits) (s : Scope) : Prop where
  interface : s.interface.Within L
  named : ∀ n ∈ s.named, n.source.isNamedQuery = true ∧ n.source.Within L
  outer : ∀ source ∈ s.outer, source.Within L
  expected : ∀ t ∈ s.expected, L.type t

def Hides (s : Scope) (names : Names) : Prop := ∀ key ∈ names, Source.hides s.sees key = true

/-- After a step everything is within the limits, what was hidden still is, and a star stands also
for the items. -/
structure Step (L : Limits) (items : List Relation.Item) (s s' : Scope) : Prop where
  within : s'.Within L
  hides : ∀ key, Source.hides s.sees key = true → Source.hides s'.sees key = true
  shows : ∃ pairs : Pairs, pairs.map Prod.fst = items ∧ s.interface.Gains pairs s'.interface

variable {s s' s'' : Scope} {items more : List Relation.Item}

theorem Step.hidesAll (h : Step L items s s') (hs : s.Hides names) : s'.Hides names :=
  fun key hkey => h.hides key (hs key hkey)

theorem Step.trans (h : Step L items s s') (h' : Step L more s' s'') :
    Step L (items ++ more) s s'' := by
  obtain ⟨pairs, rfl, hgains⟩ := h.shows
  obtain ⟨others, rfl, hgains'⟩ := h'.shows
  exact ⟨h'.within, fun key hkey => h'.hides key (h.hides key hkey), pairs ++ others,
    map_append, hgains.trans hgains'⟩

/-- Nothing changes but the parameters and the result columns. -/
theorem Within.step (h : s.Within L) (hq : q.Within L) (hsources : q.sources = s.interface.sources)
    (hnullable : q.nullableSources = s.interface.nullableSources) :
    Step L [] s { s with interface := q } :=
  ⟨⟨hq, h.named, h.outer, h.expected⟩, fun _ hkey => hkey, [], rfl, .same hsources hnullable⟩

theorem Within.refl (h : s.Within L) : Step L [] s s :=
  ⟨h, fun _ hkey => hkey, [], rfl, .same rfl rfl⟩

theorem Within.markUsed (h : s.Within L) (name : String) : Step L [] s (s.markUsed name) := by
  unfold Scope.markUsed
  split
  · refine ⟨⟨h.interface, fun n hn => ?_, h.outer, h.expected⟩, fun key hkey => ?_, h.refl.shows⟩
    · obtain ⟨n', hn', he⟩ := mem_useFirst hn
      exact he ▸ h.named n' hn'
    · unfold sees
      rwa [source_useFirst]
  · split
    · exact h.refl
    · exact ⟨⟨h.interface, h.named, h.outer, h.expected⟩, fun _ hkey => hkey, h.refl.shows⟩

theorem Within.foldl_markUsed (h : s.Within L) (used : List String) :
    Step L [] s (used.foldl Scope.markUsed s) := by
  induction used generalizing s with
  | nil => exact h.refl
  | cons name rest ih => exact (h.markUsed name).trans (ih (h.markUsed name).within)

theorem Within.addNamed (h : s.Within L) (hnamed : source.isNamedQuery = true)
    (hsource : source.Within L) :
    Step L [] s { s with named := s.named ++ [⟨source, false⟩] } ∧
      Source.hides (sees { s with named := s.named ++ [⟨source, false⟩] }) (fold source.name) =
        true := by
  have hsees : sees { s with named := s.named ++ [⟨source, false⟩] } =
      s.named.map NamedQuery.source ++ source :: s.outer := by
    simp [sees]
  have hqueries : ∀ other ∈ s.named.map NamedQuery.source, other.isNamedQuery = true :=
    forall_mem_map.2 fun n hn => (h.named n hn).1
  refine ⟨⟨⟨h.interface, ?_, h.outer, h.expected⟩, fun key hkey => ?_, h.refl.shows⟩, ?_⟩
  · exact forall_mem_append.2 ⟨h.named, forall_mem_singleton.2 ⟨hnamed, hsource⟩⟩
  · rw [hsees]
    exact Source.hides_insert hqueries hnamed (.inr hkey)
  · rw [hsees]
    exact Source.hides_insert hqueries hnamed (.inl rfl)

theorem Within.visible (h : s.Within L) : ∀ source ∈ s.visible, source.Within L := by
  intro source hs
  rcases mem_foldl_see hs with hs | hs
  · obtain ⟨n, hn, rfl⟩ := mem_map.1 hs
    exact (h.named n hn).2
  · exact h.outer source hs

theorem Within.findNamed? (h : s.Within L)
    (hf : s.findNamed? name = some source) :
    source.Within L ∧ source.isNamedQuery = true ∧ fold source.name = fold name := by
  unfold Scope.findNamed? at hf
  split at hf
  · next n hn =>
    cases hf
    obtain ⟨hnamed, hwithin⟩ := h.named n (mem_of_find?_eq_some hn)
    have hname := find?_some hn
    exact ⟨hwithin, hnamed, Source.isNamed_iff.1 hname⟩
  · have hmeets := find?_some hf
    rw [Bool.and_eq_true] at hmeets
    exact ⟨h.outer source (mem_of_find?_eq_some hf), hmeets.1, Source.isNamed_iff.1 hmeets.2⟩

theorem within_fresh {outer : List Source} {expected : List TypeExpr}
    (h : ∀ source ∈ outer, source.Within L) (hexpected : ∀ t ∈ expected, L.type t) :
    (fresh outer expected).Within L :=
  ⟨⟨nofun, nofun, nofun⟩, nofun, h, hexpected⟩

/-- Named queries that nothing refers to are no results. -/
theorem Within.finish (h : s.Within L) : s.finish.Within L ∧ s.finish.shown = s.interface.shown ∧
      s.finish.nullableSources = s.interface.nullableSources := by
  have hfold : ∀ (named : List NamedQuery) (q : Interface), q.Within L →
      (∀ n ∈ named, n.source.Within L) →
      let r := named.foldl (fun q n => q.addSource (n.source.withResult false)) q
      r.Within L ∧ r.shown = q.shown ∧ r.nullableSources = q.nullableSources := by
    intro named
    induction named with
    | nil => exact fun q hq _ => ⟨hq, rfl, rfl⟩
    | cons n rest ih =>
      intro q hq hn
      obtain ⟨hn, hrest⟩ := forall_mem_cons.1 hn
      obtain ⟨hwithin, hshown, hnullable⟩ := ih _ (hq.addSource (hn.withResult false)) hrest
      refine ⟨hwithin, hshown.trans ?_, hnullable⟩
      have hresult : (n.source.withResult false).isResult = false := by cases n.source <;> rfl
      simp [Interface.shown, Interface.addSource, hresult]
  exact hfold _ _ h.interface fun n hn => (h.named n (mem_filter.1 hn).1).2

end Scope

/-! ## Actions -/

/-- Where the names stand for queries, the action keeps to the limits and adds the items to those
that a star stands for. What it gives has the property. -/
def Adds (L : Limits) (names : Names) (items : List Relation.Item) (x : Extract α)
    (Q : α → Prop := fun _ => True) : Prop :=
  ∀ s : Scope, s.Within L → s.Hides names → Scope.Step L items s (x.run s).2 ∧ Q (x.run s).1

/-- A star stands for no more than before. -/
abbrev Keeps (L : Limits) (names : Names) (x : Extract α) (Q : α → Prop := fun _ => True) :
    Prop :=
  Adds L names [] x Q

/-- After the action the names in `after` stand for queries. -/
def Defines (L : Limits) (names : Names) (x : Extract Unit) (after : Names) : Prop :=
  ∀ s : Scope, s.Within L → s.Hides names → Scope.Step L [] s (x.run s).2 ∧ (x.run s).2.Hides after

section Actions

variable {x : Extract α} {f : α → Extract β} {items more : List Relation.Item} {Q : α → Prop}
  {R : β → Prop} {after last : Names}

namespace Adds

theorem bind (hx : Adds L names items x Q) (hf : ∀ a, Q a → Adds L names more (f a) R) :
    Adds L names (items ++ more) (x >>= f) R := by
  intro s hs hnames
  obtain ⟨hstep, hq⟩ := hx s hs hnames
  obtain ⟨hstep', hr⟩ := hf _ hq _ hstep.within (hstep.hidesAll hnames)
  exact ⟨hstep.trans hstep', hr⟩

theorem close (hx : Adds L names items x Q) (hf : ∀ a, Q a → Keeps L names (f a) R) :
    Adds L names items (x >>= f) R :=
  append_nil items ▸ hx.bind hf

theorem pure {a : α} (h : Q a) : Keeps L names (Pure.pure a) Q := fun _ hs _ => ⟨hs.refl, h⟩

theorem andReturn {g : α → β} (hx : Adds L names items x Q) (hg : ∀ a, Q a → R (g a)) :
    Adds L names items (x >>= fun a => Pure.pure (g a)) R :=
  hx.close fun a ha => .pure (hg a ha)

theorem basic {t : SqlType} (hx : Adds L names items x Q) (ht : t.isBasic = true) :
    Adds L names items (x >>= fun _ => Pure.pure (.known t)) L.type :=
  hx.andReturn fun _ _ => L.basic ht

theorem done (hx : Adds L names items x Q) : Adds L names items (x >>= fun _ => Pure.pure ()) :=
  hx.andReturn fun _ _ => trivial

theorem cons {xs : Extract (List α)} (hx : Keeps L names x Q)
    (hxs : Keeps L names xs fun as => ∀ a ∈ as, Q a) :
    Keeps L names (x >>= fun a => xs >>= fun as => Pure.pure (a :: as)) fun as => ∀ a ∈ as, Q a :=
  hx.bind fun _ ha => hxs.andReturn fun _ has => forall_mem_cons.2 ⟨ha, has⟩

theorem mono {wider : Names} (hx : Adds L names items x Q) (hsub : names ⊆ wider) :
    Adds L wider items x Q :=
  fun s hs hwider => hx s hs fun key hkey => hwider key (hsub hkey)

theorem mapM {as : List α} (hf : ∀ a ∈ as, Keeps L names (f a) R) :
    Keeps L names (as.mapM f) fun bs => ∀ b ∈ bs, R b := by
  induction as with
  | nil => exact .pure nofun
  | cons a rest ih =>
    obtain ⟨ha, hrest⟩ := forall_mem_cons.1 hf
    rw [mapM_cons]
    exact ha.cons (ih hrest)

theorem forM {as : List α} {g : α → Extract Unit} (hg : ∀ a ∈ as, Keeps L names (g a)) :
    Keeps L names (as.forM g) := by
  induction as with
  | nil => exact .pure trivial
  | cons a rest ih =>
    obtain ⟨ha, hrest⟩ := forall_mem_cons.1 hg
    exact ha.bind fun _ _ => ih hrest

/-- An action that defines names after one that gives a value for it. -/
theorem define {g : α → Extract Unit} (hx : Keeps L names x Q)
    (hg : ∀ a, Q a → Defines L names (g a) after) : Defines L names (x >>= g) after := by
  intro s hs hnames
  obtain ⟨hstep, hq⟩ := hx s hs hnames
  obtain ⟨hstep', hafter⟩ := hg _ hq _ hstep.within (hstep.hidesAll hnames)
  exact ⟨hstep.trans hstep', hafter⟩

end Adds

namespace Defines

variable {y : Extract Unit} {g : Unit → Extract Unit}

theorem pure : Defines L names (Pure.pure ()) names := fun _ hs hnames => ⟨hs.refl, hnames⟩

theorem bind (hy : Defines L names y after) (hg : ∀ a, Defines L after (g a) last) :
    Defines L names (y >>= g) last := by
  intro s hs hnames
  obtain ⟨hstep, hafter⟩ := hy s hs hnames
  obtain ⟨hstep', hlast⟩ := hg () _ hstep.within hafter
  exact ⟨hstep.trans hstep', hlast⟩

theorem andThen {f : Unit → Extract β} (hy : Defines L names y after)
    (hf : ∀ a, Adds L after items (f a) R) : Adds L names items (y >>= f) R := by
  intro s hs hnames
  obtain ⟨hstep, hafter⟩ := hy s hs hnames
  obtain ⟨hstep', hr⟩ := hf () _ hstep.within hafter
  exact ⟨hstep.trans hstep', hr⟩

end Defines

end Actions

/-! ## Basic actions -/

theorem keeps_get : Keeps L names (get : Extract Scope) (Scope.Within L) :=
  fun _ hs _ => ⟨hs.refl, hs⟩

theorem keeps_modifyInterface {f : Interface → Interface} (h : ∀ q, q.Within L → (f q).Within L)
    (hsame : ∀ q, (f q).sources = q.sources ∧ (f q).nullableSources = q.nullableSources) :
    Keeps L names (modifyInterface f) :=
  fun _ hs _ => ⟨hs.step (h _ hs.interface) (hsame _).1 (hsame _).2, trivial⟩

theorem adds_addSource (pairs : Pairs) (h : source.Within L)
    (hpairs : pairs.map Prod.snd = [source].filter Source.isResult)
    (hgives : ∀ p ∈ pairs, p.1.1.Gives p.2 ∧ p.1.2 = false) :
    Adds L names (pairs.map Prod.fst) (addSource source) := by
  have hoptional : pairs.optional = [] :=
    map_eq_nil_iff.2 (filter_eq_nil_iff.2 fun p hp => by simp [(hgives p hp).2])
  intro s hs _
  exact ⟨⟨⟨hs.interface.addSource h, hs.named, hs.outer, hs.expected⟩, fun _ hkey => hkey, pairs, rfl,
    ⟨[source], rfl, hpairs.symm⟩, fun p hp => (hgives p hp).1, hoptional ▸ .refl _⟩, trivial⟩

/-- One item of a `FROM` list. -/
theorem adds_item {item : Relation} (h : source.Within L)
    (hresult : source.isResult = isResult) (hitem : isResult = true → item.Gives source) :
    Adds L names (if isResult then [(item, false)] else []) (addSource source) := by
  cases isResult with
  | false => exact adds_addSource [] h (by simp [hresult]) nofun
  | true =>
    exact adds_addSource [((item, false), source)] h (by simp [hresult])
      (forall_mem_singleton.2 ⟨hitem rfl, rfl⟩)

theorem keeps_addHidden (h : source.Within L) (hresult : source.isResult = false) :
    Keeps L names (addSource source) :=
  adds_addSource [] h (by simp [hresult]) nofun

theorem keeps_addResult {span : Span} (h : ResultColumn.Within L ⟨name, type, span⟩) :
    Keeps L names (addResult name type span) :=
  keeps_modifyInterface (fun _ hq => hq.addResult h) fun _ => ⟨rfl, rfl⟩

theorem keeps_addParam (h : L.type type) (ref : ParamRef) (pick : List String) :
    Keeps L names (addParam ref type pick) :=
  keeps_modifyInterface (fun _ hq => hq.addParam h) fun _ => ⟨rfl, rfl⟩

theorem keeps_useParam (h : L.Expects expected) (ref : ParamRef) :
    Keeps L names (useParam ref expected) L.type :=
  (keeps_addParam h.getD ref _).andReturn fun _ _ => h.getD

theorem defines_addNamed (hnamed : source.isNamedQuery = true)
    (hsource : source.Within L) :
    Defines L names (addNamed source) (fold source.name :: names) := by
  intro s hs hnames
  obtain ⟨hstep, hself⟩ := hs.addNamed hnamed hsource
  exact ⟨hstep, forall_mem_cons.2 ⟨hself, hstep.hidesAll hnames⟩⟩

/-- A named query that a `FROM` list refers to. -/
theorem gives_aliased {table : ObjectName}
    (hnamed : source.isNamedQuery = true) (hname : fold source.name = fold table.name.value)
    (asName : Option TableAlias) (isResult : Bool) (span : Span) :
    (Relation.table table asName span).Gives ((source.aliased asName).withResult isResult) ∧
      ((source.aliased asName).withResult isResult).isResult = isResult := by
  cases source with
  | table => cases hnamed
  | query | values =>
    cases asName with
    | none => exact ⟨⟨by rintro _ ⟨⟩; exact hname, nofun⟩, rfl⟩
    | some asName => exact ⟨⟨by rintro _ ⟨⟩; rfl, nofun⟩, rfl⟩

/-- A name in a `FROM` list adds a table only if it stands for no named query. -/
theorem adds_addTable {table : ObjectName} {asName : Option TableAlias} {isResult : Bool}
    {span : Span} (h : (TableMention.reference names table span).hidden = false →
      L.table (TableMention.reference names table span).use) :
    Adds L names ((Relation.table table asName span).items isResult)
      (addTable table asName isResult span) := by
  have hadd (hh : (TableMention.reference names table span).hidden = false) :
      Adds L names ((Relation.table table asName span).items isResult)
        (addSource (.table (table.schema.map Ident.value) table.name.value
          (asName.map (·.name.value)) isResult span)) := by
    refine adds_item (.table (h hh)) rfl fun hresult => ⟨?_, fun _ => ?_⟩
    · rintro _ ⟨⟩
      cases asName <;> rfl
    · exact ⟨table, asName, span, rfl, by rw [hresult]⟩
  intro s hs hnames
  cases hfound : if table.schema.isNone then s.findNamed? table.name.value else none with
  | some source =>
    split_ifs at hfound with hschema
    have hrun : (addTable table asName isResult span).run s =
        (addSource ((source.aliased asName).withResult isResult)).run
          (s.markUsed table.name.value) := by
      simp [addTable, useNamed, hschema, hfound]
    obtain ⟨hwithin, hnamed, hname⟩ := hs.findNamed? hfound
    obtain ⟨hgives, hresult⟩ := gives_aliased hnamed hname asName isResult span
    have hstep := hs.markUsed table.name.value
    obtain ⟨hstep', -⟩ := adds_item ((hwithin.aliased asName).withResult isResult) hresult
      (fun _ => hgives) _ hstep.within (hstep.hidesAll hnames)
    rw [hrun]
    exact ⟨hstep.trans hstep', trivial⟩
  | none =>
    -- were the name hidden, the scope would have a query for it
    have hhidden : (TableMention.reference names table span).hidden = false := by
      rw [TableMention.reference, Bool.eq_false_iff, ne_eq, Bool.and_eq_true]
      rintro ⟨hschema, hmem⟩
      have hsome := Scope.findNamed?_isSome (hnames _ (contains_iff_mem.1 hmem))
      rw [if_pos hschema] at hfound
      rw [hfound] at hsome
      cases hsome
    have hrun : (addTable table asName isResult span).run s = (addSource (.table
        (table.schema.map Ident.value) table.name.value (asName.map (·.name.value)) isResult
          span)).run s := by
      split_ifs at hfound with hschema <;> simp [addTable, useNamed, hschema, hfound]
    rw [hrun]
    exact hadd hhidden s hs hnames

/-! ## Scopes inside scopes -/

section Scopes

variable {body first whole : Extract Unit} {expected : List TypeExpr} {inner : Names}
  {outer : List Source} {items : List Relation.Item} {Q : Unit → Prop}

/-- The interface that an action extracts in a scope of its own, and the scope around afterwards. -/
theorem step_inScope (hexpected : ∀ t ∈ expected, L.type t) (hbody : Adds L inner items body Q)
    (houter : ∀ source ∈ outer, source.Within L)
    (hinner : ∀ key ∈ inner, Source.hides outer key = true) (hs : s.Within L) :
    ((inScope outer expected body).run s).1.Within L ∧
      Scope.Step L [] s ((inScope outer expected body).run s).2 := by
  obtain ⟨hstep, -⟩ := hbody (.fresh outer expected) (Scope.within_fresh houter hexpected) hinner
  exact ⟨hstep.within.finish.1, hs.foldl_markUsed _⟩

theorem Scope.Hides.visible (h : s.Hides names) :
    ∀ key ∈ names, Source.hides s.visible key = true := by
  intro key hkey
  rw [Scope.hides_visible]
  exact h key hkey

theorem keeps_nested (hexpected : ∀ t ∈ expected, L.type t) (hbody : Adds L names items body Q) :
    Keeps L names (nested expected body) (Interface.Within L) := by
  intro s hs hnames
  obtain ⟨hq, hstep⟩ := step_inScope hexpected hbody hs.visible hnames.visible hs
  exact ⟨hstep, hq⟩

theorem Adds.nested (h : Adds L names items body Q) :
    Keeps L names (Extract.nested [] body) (Interface.Within L) :=
  keeps_nested nofun h

/-- A recursive query is extracted twice: its first branch, where it is not visible itself, and then
as a whole. -/
theorem keeps_recursiveQuery {more : List Relation.Item} {R : Unit → Prop} (columns : List Ident)
    (hfirst : Adds L names items first Q) (hwhole : Adds L (fold name :: names) more whole R) :
    Keeps L names (recursiveQuery name columns first whole) (Interface.Within L) := by
  intro s hs hnames
  obtain ⟨hstart, hstep⟩ := step_inScope (forall_mem_nil _) hfirst hs.visible hnames.visible hs
  let self : Source := .query name
    (((inScope s.visible [] first).run s).1.renameResults (Extract.names columns)) true
  have houter : ∀ source ∈ self :: s.visible.filter (!·.isNamed name), source.Within L := by
    rw [forall_mem_cons]
    refine ⟨(hstart.renameResults (Extract.names columns)).source, fun source hsource => ?_⟩
    exact hs.visible source (mem_filter.1 hsource).1
  have hhides : ∀ key ∈ fold name :: names,
      Source.hides (self :: s.visible.filter (!·.isNamed name)) key = true := by
    intro key hkey
    exact Source.hides_shadow rfl ((mem_cons.1 hkey).imp_right (hnames.visible key))
  obtain ⟨hq, hstep'⟩ := step_inScope (forall_mem_nil _) hwhole houter hhides hstep.within
  exact ⟨hstep.trans hstep', hq⟩

end Scopes

/-! ## Actions of several steps -/

/-- The type of an operand, unless it is a parameter. -/
def Operand.Within (L : Limits) (operand : Operand) : Prop := L.Expects operand.type?

theorem keeps_operand {infer : Extract TypeExpr} (h : Keeps L names infer L.type)
    (param? : Option ParamRef) : Keeps L names (Operand.of param? infer) (Operand.Within L) := by
  cases param? with
  | none => exact h.andReturn fun _ ht => Limits.expects_some ht
  | some ref => exact .pure Limits.expects_none

theorem expects_shared (h : ∀ o ∈ operands, o.Within L) (he : L.Expects expected) :
    L.Expects (expected <|> operands.findSome? Operand.type?) := by
  cases expected with
  | some t => exact he
  | none =>
    intro t ht
    obtain ⟨o, ho, ht⟩ := exists_of_findSome?_eq_some ht
    exact h o ho t ht

theorem keeps_settle (h : ∀ o ∈ operands, o.Within L) (he : L.Expects expected) :
    Keeps L names (Operand.settle operands expected) fun ts => ∀ t ∈ ts, L.type t := by
  have hshared := (expects_shared h he).getD
  refine Adds.mapM fun operand hoperand => ?_
  cases operand with
  | param ref => exact keeps_useParam (Limits.expects_some hshared) ref
  | typed type => exact .pure (h _ hoperand type rfl)

theorem keeps_operatorType {left right : Operand} (hleft : left.Within L) (hright : right.Within L)
    (symbol : String) (span : Span) :
    Keeps L names (operatorType symbol left right span) L.type := by
  have hpart (part : OperatorPart) := L.operator symbol part span hleft.getD hright.getD
  have hside {p : OperatorPart} (ref : ParamRef) : Keeps L names _ :=
    (keeps_useParam (Limits.expects_some (hpart p)) ref).done
  refine Adds.close (Q := fun _ => True) ?_ fun _ _ =>
    Adds.andReturn (Q := fun _ => True) ?_ fun _ _ => hpart .result
  · cases left with
    | param ref => exact hside ref
    | typed => exact .pure trivial
  · cases right with
    | param ref => exact hside ref
    | typed => exact .pure trivial

theorem keeps_callType {name : ObjectName} {types : List TypeExpr} (h : ∀ t ∈ types, L.type t)
    (hcommon : (isBuiltinSchema name.schema && BuiltinCall.isCommonType name.name.value) = true →
      L.common) (args : List Expr) (star : Bool) (span : Span) :
    Keeps L names (callType name args types star span) L.type := by
  rw [callType]
  split
  · next type htype =>
    split at htype
    · next hschema =>
      have hresult := L.builtin htype h fun hname => hcommon (by rw [hschema]; exact hname)
      refine (Adds.forM fun ref _ => ?_).andReturn fun _ _ => hresult
      exact (keeps_useParam Limits.expects_none ref).done
    · cases htype
  · refine (Adds.forM fun arg _ => ?_).andReturn fun _ _ => L.function _ _ _ h
    obtain ⟨arg, i⟩ := arg
    dsimp only
    split
    · exact (keeps_useParam (Limits.expects_some (L.argument _ _ _ _ h)) _).done
    · exact .pure trivial

theorem types_commonType (h : ∀ t ∈ types, L.type t) (hcommon : L.common) (name : ObjectName)
    (star : Bool) : L.type (commonType name types star) := by
  unfold commonType
  dsimp only
  cases htype : BuiltinCall.type? ⟨name.name.value, types, [], star⟩ with
  | none => exact L.basic rfl
  | some t => exact L.builtin htype h fun _ => hcommon

theorem keeps_addSubquery (h : q.Within L) : Keeps L names (addSubquery q) :=
  keeps_get.bind fun _ _ => (keeps_addHidden h.source rfl).andReturn fun _ _ => trivial

theorem keeps_addValueSubquery (h : q.Within L) (span : Span) :
    Keeps L names (addValueSubquery q span) L.type := by
  refine (keeps_addSubquery h).bind fun name _ => ?_
  split
  · split
    · exact .pure (L.basic rfl)
    · exact .pure (L.column _ _ _ _)
  · exact .pure (L.basic rfl)

theorem keeps_addRows (h : ∀ t ∈ types, L.type t) (span : Span) :
    Keeps L names (addRows types span) :=
  Adds.forM fun _ hcolumn =>
    keeps_addResult (.inl (h _ (fst_mem_of_mem_zipIdx hcolumn)))

theorem keeps_addRowsParam (ref : ParamRef) (target : String) (columns : List Ident) :
    Keeps L names (addRowsParam ref target columns) := by
  unfold addRowsParam
  generalize Extract.names (if ref.pick.isEmpty then columns else ref.pick) = pick
  refine keeps_addParam ?_ ref pick
  split
  · exact L.basic rfl
  · refine L.object fun f hf => ?_
    obtain ⟨⟨field, i⟩, -, rfl⟩ := mem_map.1 hf
    dsimp only
    cases hknown : (targetColumns target columns)[i]? with
    | none => exact L.column _ _ _ _
    | some t => exact Limits.types_targetColumns target columns t (mem_of_getElem? hknown)

theorem adds_addDerived (h : q.Within L) (lateral : Bool) (query : Query)
    (asName : Option TableAlias) (isResult : Bool) (span : Span) :
    Adds L names ((Relation.derived lateral query asName span).items isResult)
      (addDerived q asName isResult) := by
  cases asName with
  | none => exact keeps_get.bind fun _ _ => adds_item h.source rfl fun _ => ⟨nofun, nofun⟩
  | some asName =>
    exact adds_item (h.renameResults _).source rfl fun _ => ⟨by rintro _ ⟨⟩; rfl, nofun⟩

theorem adds_addFunctionRows (h : L.type type) (lateral : Bool) (call : FunctionCall)
    (asName : Option TableAlias) (isResult : Bool) (span : Span) :
    Adds L names ((Relation.function lateral call asName span).items isResult)
      (addFunctionRows call.name type asName isResult) :=
  adds_item (.values (forall_mem_singleton.2 h)) rfl fun _ => ⟨by rintro _ ⟨⟩; rfl, nofun⟩

theorem keeps_nextExpected : Keeps L names nextExpected L.Expects :=
  keeps_get.andReturn fun _ hs t ht => hs.expected t (mem_of_getElem? ht)

/-! ## Joins -/

/-- The sources `own` are marked. -/
theorem step_markNullable (hs : s.Within L) {before own after : List Source}
    (h : s.interface.sources = before ++ (own ++ after)) :
    let s' := ((markNullable before.length (before ++ own).length).run s).2
    s'.Within L ∧ s'.sees = s.sees ∧ s'.interface.sources = s.interface.sources ∧
      Marks s.interface.nullableSources ((own.filter Source.isResult).map Source.name)
        s'.interface.nullableSources := by
  have hfold : ∀ (sources : List Source) (q : Interface), q.Within L →
      let r := sources.foldl (fun q source => q.setNullable source.name) q
      r.Within L ∧ r.sources = q.sources ∧
        Marks q.nullableSources (sources.map Source.name) r.nullableSources := by
    intro sources
    induction sources with
    | nil => exact fun q hq => ⟨hq, rfl, .refl _⟩
    | cons source rest ih =>
      intro q hq
      have hset : (q.setNullable source.name).Within L ∧
          (q.setNullable source.name).sources = q.sources := by
        unfold Interface.setNullable
        split
        · exact ⟨hq, rfl⟩
        · exact ⟨⟨hq.sources, hq.params, hq.results⟩, rfl⟩
      obtain ⟨hwithin, hsources, hmarks⟩ := ih _ hset.1
      exact ⟨hwithin, hsources.trans hset.2, (Marks.setNullable q source.name).trans hmarks⟩
  have hown : (s.interface.sources.drop before.length).take
      ((before ++ own).length - before.length) = own := by
    simp [h]
  have hrun : ((markNullable before.length (before ++ own).length).run s).2.interface =
      (own.filter Source.isResult).foldl (fun q source => q.setNullable source.name)
        s.interface := by
    conv_rhs => rw [← hown]
    rfl
  obtain ⟨hwithin, hsources, hmarks⟩ := hfold (own.filter Source.isResult) _ hs.interface
  rw [← hrun] at hwithin hsources hmarks
  exact ⟨⟨hwithin, hs.named, hs.outer, hs.expected⟩, rfl, hsources, hmarks⟩

/-- The sides of a join are marked that are optional. -/
theorem step_markJoin (hs : s.Within L) {before left right : List Source}
    (h : s.interface.sources = before ++ (left ++ right)) (kind : JoinKind) :
    let s' := ((markJoin kind before.length (before ++ left).length
      (before ++ left ++ right).length).run s).2
    let shown (own : List Source) := (own.filter Source.isResult).map Source.name
    s'.Within L ∧ s'.sees = s.sees ∧ s'.interface.sources = s.interface.sources ∧
      Marks s.interface.nullableSources ((if kind.optionalRight then shown right else []) ++
        if kind.optionalLeft then shown left else []) s'.interface.nullableSources := by
  have hright : s.interface.sources = before ++ left ++ (right ++ []) := by simp [h]
  cases kind with
  | inner => exact ⟨hs, rfl, rfl, .refl _⟩
  | cross => exact ⟨hs, rfl, rfl, .refl _⟩
  | left =>
    obtain ⟨hwithin, hsees, hsources, hmarks⟩ := step_markNullable hs hright
    exact ⟨hwithin, hsees, hsources, (append_nil _).symm ▸ hmarks⟩
  | right => exact step_markNullable hs h
  | full =>
    obtain ⟨hwithin, hsees, hsources, hmarks⟩ := step_markNullable hs hright
    obtain ⟨hwithin', hsees', hsources', hmarks'⟩ := step_markNullable hwithin (hsources.trans h)
    exact ⟨hwithin', hsees'.trans hsees, hsources'.trans hsources, hmarks.trans hmarks'⟩

/-- The items on the two sides of a join. -/
theorem Adds.join {x y z : Extract Unit} {left right : List Relation.Item}
    (hx : Adds L names left x) (hy : Adds L names right y)
    (hz : Keeps L names z) (kind : JoinKind) :
    Adds L names (Relation.joined kind left right) (do
      let start ← sourceCount
      x
      let middle ← sourceCount
      y
      markJoin kind start middle (← sourceCount)
      z) := by
  intro s hs hnames
  obtain ⟨hstep, -⟩ := hx s hs hnames
  obtain ⟨hstep', -⟩ := hy _ hstep.within (hstep.hidesAll hnames)
  obtain ⟨pairs, rfl, hgains⟩ := hstep.shows
  obtain ⟨pairs', rfl, hgains'⟩ := hstep'.shows
  obtain ⟨own, hown, hresult⟩ := hgains.sources
  obtain ⟨own', hown', hresult'⟩ := hgains'.sources
  have hsources := hown'.trans (by rw [hown, append_assoc])
  have hmark := step_markJoin hstep'.within hsources kind
  rw [← hown, ← hown'] at hmark
  obtain ⟨hwithin, hsees, hsame, hmarks⟩ := hmark
  let mark (b : Bool) : Relation.Item × Source → Relation.Item × Source :=
    Prod.map (Prod.map id (· || b)) id
  have hmid : Scope.Step L (Relation.joined kind (pairs.map Prod.fst) (pairs'.map Prod.fst)) s _ :=
    ⟨hwithin, fun key hkey => hsees ▸ hstep'.hides key (hstep.hides key hkey),
      pairs.map (mark kind.optionalLeft) ++ pairs'.map (mark kind.optionalRight), ?_, ?_, ?_, ?_⟩
  · obtain ⟨hlast, -⟩ := hz _ hwithin (hmid.hidesAll hnames)
    exact ⟨append_nil (Relation.joined kind _ _) ▸ hmid.trans hlast, trivial⟩
  · simp [Relation.joined, mark, Function.comp_def]
  · exact ⟨own ++ own', hsame.trans hsources, by
      simp [hresult, hresult', mark, Function.comp_def]⟩
  · intro p hp
    rcases mem_append.1 hp with hp | hp
    · obtain ⟨pair, hpair, rfl⟩ := mem_map.1 hp
      exact hgains.gives pair hpair
    · obtain ⟨pair, hpair, rfl⟩ := mem_map.1 hp
      exact hgains'.gives pair hpair
  · refine ((hgains.nullable.trans hgains'.nullable).trans hmarks).congr fun n => ?_
    dsimp only
    rw [hresult, hresult']
    cases kind.optionalLeft <;> cases kind.optionalRight <;>
      simp [Pairs.optional, mark, filter_map, Function.comp_def] <;> grind

end SqlTyping
