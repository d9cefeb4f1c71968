import SqlTyping.Extraction.Basic
import SqlTyping.Proofs.Types.Coherence

/-!
# Types that extraction builds

`TypeExpr.Regular` has one case for each form of type that the extraction of an interface gives to
an expression: the known types among them are coherent, casts are to types that are written down,
operators have the overloads of their symbol, and there are no stars. Common types are among them
only where this is let go. Each way to build a type of its parts keeps it regular.
-/

namespace SqlTyping

open List

variable {lax : Prop}

/-! ## Types that are given -/

namespace SqlType

variable {t items : SqlType}

theorem Coherent.of_parts_eq_nil (h : t.parts = []) : t.Coherent lax := by
  refine (Formed.of_parts_eq_nil h).coherent fun ms hms => .inr (.inr fun m hm => ?_)
  rw [parts, hms] at h
  cases (h ▸ hm : m ∈ [])

theorem Coherent.firm_array (h : items.Coherent lax) (ht : t.kind = .array items) : t.Firm lax := by
  refine Formed.firm ⟨fun part hpart => ?_, fun ms hms => ?_⟩ (by rw [isUnion, ht])
  · rw [parts, ht] at hpart
    exact mem_singleton.1 hpart ▸ h
  · cases ht.symm.trans hms

/-- A type without parts, or an array of such. -/
def isBasic (t : SqlType) : Bool :=
  match t.kind with
  | .array items => items.parts.isEmpty
  | _ => t.parts.isEmpty

theorem firm_of_isBasic (h : t.isBasic = true) : t.Firm lax := by
  unfold isBasic at h
  split at h
  · next hkind => exact (Coherent.of_parts_eq_nil (List.isEmpty_iff.1 h)).firm_array hkind
  · exact fun n => .of_parts_eq_nil (t := t.withNullable n) (List.isEmpty_iff.1 h)

theorem Firm.coherent (h : t.Firm lax) : t.Coherent lax := withNullable_nullable t ▸ h t.nullable

end SqlType

theorem isBasic_of_mem_builtinTypes : builtinTypes.all (·.type.isBasic) = true := by rfl

theorem firm_arrays {b : BuiltinType} (h : b.type.isBasic = true) (n : Nat) :
    (b.arrays n).Firm lax := by
  induction n with
  | zero => exact (SqlType.firm_of_isBasic h).withPostgres b.name
  | succ n ih => exact ih.coherent.firm_array rfl

theorem firm_builtinType {spelling : String} {t : SqlType} (h : builtinType? spelling = some t) :
    t.Firm lax := by
  unfold builtinType? at h
  obtain ⟨b, hb, rfl⟩ := Option.map_eq_some_iff.1 h
  refine firm_arrays (all_eq_true.1 isBasic_of_mem_builtinTypes b ?_) _
  unfold TypeName.builtin? at hb
  split at hb
  · cases hb
  · exact mem_of_find?_eq_some hb

namespace Overload

theorem mem_of_choose? {available : List Overload} {left right : SqlType} {v : Overload}
    (h : choose? available left right = some v) : v ∈ available := by
  have hexact {left right : SqlType} (h : firstExact available left right = some v) :
      v ∈ available := mem_of_find?_eq_some h
  unfold choose? at h
  simp only [Option.orElse_eq_orElse, Option.orElse_eq_or, Option.or_eq_some_iff] at h
  rcases h with h | ⟨-, h | ⟨-, h⟩⟩
  · exact hexact h
  · split at h
    · exact hexact h
    · exact hexact h
    · cases h
  · unfold onlyLoose? at h
    split at h
    · next hone =>
      cases h
      exact mem_of_mem_filter (hone ▸ mem_singleton_self v)
    · cases h

theorem coherent_resolve (symbol : String) (left right : SqlType) (part : OperatorPart) :
    (resolve (ofSymbol symbol) left right part).Coherent lax := by
  have hbasic : ∀ entry ∈ table, ∀ v ∈ entry.2,
      v.left.isBasic = true ∧ v.right.isBasic = true ∧ v.result.isBasic = true := by
    decide
  unfold resolve
  split
  · exact .of_parts_eq_nil rfl
  · next v hv =>
    have hmem := mem_of_choose? hv
    unfold ofSymbol at hmem
    cases hfind : table.find? (·.1 == symbol) with
    | none => rw [hfind] at hmem; cases hmem
    | some entry =>
      rw [hfind] at hmem
      obtain ⟨hleft, hright, hresult⟩ := hbasic entry (mem_of_find?_eq_some hfind) v hmem
      cases part with
      | left => exact (SqlType.firm_of_isBasic hleft).coherent
      | right => exact (SqlType.firm_of_isBasic hright).coherent
      | result => exact SqlType.firm_of_isBasic hresult _

end Overload

/-! ## Types that wait -/

namespace TypeExpr

inductive Regular (lax : Prop) : TypeExpr → Prop where
  | known {t : SqlType} : t.Coherent lax → Regular lax (.known t)
  | column {schema table : Option String} {name : String} {span : Span} :
      Regular lax (.column schema table name span)
  | record {schema : Option String} {name : String} {span : Span} :
      Regular lax (.record schema name span)
  | function {schema : Option String} {name : String} {args : List TypeExpr} {span : Span} :
      (∀ t ∈ args, Regular lax t) → Regular lax (.function schema name args span)
  | functionArgument {schema : Option String} {name : String} {args : List TypeExpr} {index : Nat}
      {span : Span} : (∀ t ∈ args, Regular lax t) →
      Regular lax (.functionArgument schema name args index span)
  | operator {symbol : String} {left right : TypeExpr} {part : OperatorPart} {span : Span} :
      Regular lax left → Regular lax right →
      Regular lax (.operator symbol left right (Overload.ofSymbol symbol) part span)
  | named {schema : Option String} {name : String} {nullable : Bool} {span : Span} :
      Regular lax (.named schema name nullable span)
  | array {items : TypeExpr} {nullable : Bool} : Regular lax items →
      Regular lax (.array items nullable)
  | asArray {value : TypeExpr} {nullable : Bool} : Regular lax value →
      Regular lax (.asArray value nullable)
  | arrayItem {value : TypeExpr} : Regular lax value → Regular lax (.arrayItem value)
  | fieldAccess {value : TypeExpr} {name : String} {span : Span} : Regular lax value →
      Regular lax (.fieldAccess value name span)
  | union {items : List TypeExpr} : (∀ t ∈ items, Regular lax t) → Regular lax (.union items)
  | object {fields : List (Field TypeExpr)} {nullable : Bool} :
      (∀ f ∈ fields, Regular lax f.value) → Regular lax (.object fields nullable)
  | cast {value : TypeExpr} {target : DataType} {span : Span} : Regular lax value →
      Regular lax (.cast value (.ofDataType target span))
  | coalesce {items : List TypeExpr} : lax → (∀ t ∈ items, Regular lax t) →
      Regular lax (.coalesce items)

variable {t : TypeExpr} {items : List TypeExpr}

theorem regular_basic {t : SqlType} (h : t.isBasic = true) : (known t).Regular lax :=
  .known (SqlType.firm_of_isBasic h).coherent

theorem Regular.coherent {t : SqlType} (h : Regular lax (.known t)) : t.Coherent lax := by
  cases h with
  | known h => exact h

theorem forall_of_mapM {α β : Type} {f : α → Option β} {H : β → Prop} {l : List α}
    {results : List β} (h : l.mapM f = some results) (hf : ∀ a ∈ l, ∀ b, f a = some b → H b) :
    ∀ b ∈ results, H b := by
  induction l generalizing results with
  | nil =>
    cases h
    exact nofun
  | cons a rest ih =>
    rw [mapM_cons] at h
    obtain ⟨b, hb, h⟩ := Option.bind_eq_some_iff.1 h
    obtain ⟨bs, hbs, h⟩ := Option.bind_eq_some_iff.1 h
    cases h
    obtain ⟨ha, hrest⟩ := forall_mem_cons.1 hf
    exact forall_mem_cons.2 ⟨ha b hb, ih hbs hrest⟩

theorem Regular.of_known? (h : t.Regular lax) (u : SqlType) (hu : t.known? = some u) :
    u.Coherent lax := by
  cases h with
  | known h => cases hu; exact h
  | _ => cases hu

theorem unionOf_induction {H : TypeExpr → Prop} (h : ∀ t ∈ items, H t)
    (hparts : ∀ {ts}, H (.union ts) → ∀ t ∈ ts, H t)
    (hknown : ∀ {ts : List TypeExpr} {types}, (∀ t ∈ ts, H t) → ts.mapM known? = some types →
      H (.known (.union types)))
    (hunion : ∀ {ts}, (∀ t ∈ ts, H t) → H (.union ts)) : H (unionOf items) := by
  have hflat : ∀ t ∈ (items.flatMap unionItems).eraseDups, H t := by
    intro t ht
    obtain ⟨item, hitem, ht⟩ := mem_flatMap.1 (mem_eraseDups.1 ht)
    have hitem := h item hitem
    cases item with
    | union ts => exact hparts hitem t ht
    | _ => exact mem_singleton.1 ht ▸ hitem
  unfold unionOf
  split
  · next only hone => exact hflat only (hone ▸ mem_singleton_self only)
  · split
    · next types htypes => exact hknown hflat htypes
    · exact hunion hflat

theorem regular_unionOf (h : ∀ t ∈ items, t.Regular lax) : (unionOf items).Regular lax := by
  refine unionOf_induction h (fun h => ?_) (fun h hts => ?_) .union
  · cases h with
    | union h => exact h
  · exact .known (SqlType.coherent_union (forall_of_mapM hts fun t ht => (h t ht).of_known?))

theorem regular_coalesceOf (hlax : lax) (h : ∀ t ∈ items, t.Regular lax) :
    (coalesceOf items).Regular lax := by
  unfold coalesceOf
  split
  · next types htypes =>
    have hcoherent := forall_of_mapM htypes fun t ht => (h t ht).of_known?
    exact .known ((SqlType.formed_coalesce fun t ht => (hcoherent t ht).formed).of_lax hlax)
  · exact .coalesce hlax h

theorem regular_arrayOf (h : t.Regular lax) (nullable : Bool) :
    (arrayOf t nullable).Regular lax := by
  unfold arrayOf
  split
  · exact .known (h.coherent.firm_array rfl _)
  · exact .array h

theorem regular_objectOf {fields : List (Field TypeExpr)}
    (h : ∀ f ∈ fields, f.value.Regular lax) : (objectOf fields).Regular lax := by
  unfold objectOf
  split
  · next known hknown =>
    have hvalues : ∀ f ∈ known, f.value.Coherent lax := by
      refine forall_of_mapM hknown fun f hf g hg => ?_
      obtain ⟨u, hu, rfl⟩ := Option.map_eq_some_iff.1 hg
      exact (h f hf).of_known? u hu
    refine .known (SqlType.Formed.coherent ⟨fun part hpart => ?_, nofun⟩ nofun)
    obtain ⟨f, hf, rfl⟩ := mem_map.1 hpart
    exact hvalues f hf
  · exact .object h

theorem regular_itemOf (h : t.Regular lax) : t.itemOf.Regular lax := by
  unfold itemOf
  split
  · exact .known (h.coherent.formed.parts _ mem_cons_self)
  · exact regular_basic rfl
  · exact regular_basic rfl
  · exact .arrayItem h

theorem regular_fieldOf (h : t.Regular lax) (name : String) (span : Span) :
    (t.fieldOf name span).Regular lax := by
  unfold fieldOf
  split
  · split
    · next found hfound =>
      refine .known (h.coherent.formed.parts _ ?_)
      exact mem_map.2 ⟨found, mem_of_find?_eq_some hfound, rfl⟩
    · exact .fieldAccess h
  · exact .fieldAccess h

theorem regular_ofDataType (target : DataType) (span : Span) :
    (ofDataType target span).Regular lax := by
  unfold ofDataType
  split
  · next type htype => exact .known (firm_builtinType htype).coherent
  · generalize target.dimensions = n
    induction n with
    | zero => exact .named
    | succ n ih => exact .array ih

theorem regular_castTo (h : t.Regular lax) (target : DataType) (span : Span) :
    (t.castTo (ofDataType target span)).Regular lax := by
  unfold castTo
  split
  · next value type htype =>
    unfold ofDataType at htype
    split at htype
    · next found hfound =>
      cases htype
      exact .known (firm_builtinType hfound _)
    · cases hn : target.dimensions <;> rw [hn] at htype <;> cases htype
  · exact .cast h

theorem regular_ofOperator {left right : TypeExpr} (hleft : left.Regular lax)
    (hright : right.Regular lax) (symbol : String) (part : OperatorPart) (span : Span) :
    (ofOperator symbol (Overload.ofSymbol symbol) left right part span).Regular lax := by
  unfold ofOperator
  split
  · exact .known (Overload.coherent_resolve ..)
  · exact .operator hleft hright

end TypeExpr

/-! ## Built-in functions -/

namespace BuiltinCall

theorem type?_induction {call : BuiltinCall} {t : TypeExpr} {H : TypeExpr → Prop}
    (h : call.type? = some t) (hbasic : ∀ {u : SqlType}, u.isBasic = true → H (.known u))
    (harray : ∀ item ∈ call.args, H (item.arrayOf true))
    (hobject : ∀ {fields : List (Field TypeExpr)}, (∀ f ∈ fields, f.value ∈ call.args) →
      H (.objectOf fields))
    (hcommon : isCommonType call.name = true → H (.coalesceOf call.args)) : H t := by
  have hkeyed {args literals fields} (h : keyed? args literals = some fields) :
      ∀ f ∈ fields, f.value ∈ args := by
    fun_induction keyed? args literals generalizing fields with
    | case1 =>
      cases h
      exact nofun
    | case2 _ value args key literals ih =>
      obtain ⟨rest, hrest, rfl⟩ := Option.map_eq_some_iff.1 h
      exact forall_mem_cons.2 ⟨by simp, fun f hf => by simp [ih hrest f hf]⟩
    | case3 => cases h
  unfold type? at h
  split at h
  · next item _ hitem =>
    cases h
    exact harray item (hitem ▸ mem_singleton_self item)
  case h_2 | h_3 =>
    split at h
    · next fields hfields =>
      cases h
      exact hobject (hkeyed hfields)
    · cases h
      exact hbasic rfl
  · split_ifs at h with hname
    · cases h
      exact hcommon hname
    all_goals
      cases h
      exact hbasic rfl

theorem regular_type? {call : BuiltinCall} {t : TypeExpr} (h : call.type? = some t)
    (hargs : ∀ t ∈ call.args, t.Regular lax) (hlax : isCommonType call.name = true → lax) :
    t.Regular lax :=
  type?_induction h TypeExpr.regular_basic
    (fun item hitem => TypeExpr.regular_arrayOf (hargs item hitem) true)
    (fun hfields => TypeExpr.regular_objectOf fun f hf => hargs f.value (hfields f hf))
    fun hname => TypeExpr.regular_coalesceOf (hlax hname) hargs

end BuiltinCall

end SqlTyping
