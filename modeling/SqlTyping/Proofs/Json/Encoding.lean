import SqlTyping.Catalog.Codec
import SqlTyping.Interface.Codec
import SqlTyping.Proofs.Types.Parts

/-!
# The data model is read back from its JSON

Types, waiting types and interfaces hold values of their own kind. Reading one of them goes down
one level of that nesting at a time and is bounded by the depth of the JSON value. So the lemma for
one level says that a value is read if its direct parts are, another that the parts are less deep,
and an induction on the bound gives the whole value.
-/

namespace SqlTyping

open List

variable {kind : TypeKind SqlType} {t : TypeExpr}

namespace Json

variable {α : Type} {name other : String} {value json : Json} {members : List (Field Json)}
  {rest : List (Field Json)} {write : α → Json} {m : Field Json} {items : List Json}

/-! ## Depth -/

theorem depth_le_depthItems (h : json ∈ items) : json.depth ≤ depthItems items := by
  induction items with
  | nil => cases h
  | cons item rest ih =>
    simp only [depthItems]
    rcases mem_cons.1 h with rfl | h
    · exact Nat.le_max_left ..
    · exact Nat.le_trans (ih h) (Nat.le_max_right ..)

theorem depth_lt_array (h : json ∈ items) : json.depth < (array items).depth := by
  simp only [depth]
  exact Nat.lt_succ_of_le (depth_le_depthItems h)

theorem depth_lt_object (h : json ∈ members.map Field.value) :
    json.depth < (object members).depth := by
  simp only [depth]
  apply Nat.lt_succ_of_le
  induction members with
  | nil => cases h
  | cons first rest ih =>
    obtain ⟨name, value⟩ := first
    simp only [depthMembers]
    rcases mem_cons.1 h with rfl | h
    · exact Nat.le_max_left ..
    · exact Nat.le_trans (ih h) (Nat.le_max_right ..)

/-! ## Members of an object -/

section Members

variable {read : Json → Option α}

@[simp] theorem require_self :
    require name read (.object (⟨name, value⟩ :: members)) = read value := by
  simp [require, member?]

@[simp] theorem require_cons (h : other ≠ name) :
    require name read (.object (⟨other, value⟩ :: members)) =
      require name read (.object members) := by
  simp [require, member?, h]

@[simp] theorem allow_cons (h : other ≠ name) :
    allow name read (.object (⟨other, value⟩ :: members)) = allow name read (.object members) := by
  simp [allow, member?, h]

theorem allow_append {own : List (Field Json)} (h : ∀ m ∈ own, m.name ≠ name) :
    allow name read (.object (own ++ members)) = allow name read (.object members) := by
  induction own with
  | nil => rfl
  | cons m rest ih =>
    rw [cons_append, allow_cons (h m mem_cons_self)]
    exact ih fun m' hm => h m' (mem_cons_of_mem m hm)

@[simp] theorem allow_nil : allow name read (.object []) = some none := rfl

/-- A part that may be absent is read back if it is, and if it is written as something. -/
theorem allow_ofOption (hread : ∀ a, read (write a) = some a) (hwrite : ∀ a, write a ≠ .null)
    (x : Option α) : allow name read (.object (⟨name, ofOption write x⟩ :: members)) = some x := by
  cases x with
  | none => simp [allow, member?, ofOption]
  | some a =>
    have hmember : member? name (.object (⟨name, ofOption write (some a)⟩ :: members)) =
        some (write a) := by
      simp [member?, ofOption]
    rw [allow, hmember]
    split
    · next h => cases h
    · next h => exact absurd (Option.some.inj h) (hwrite a)
    · next h => simp [← Option.some.inj h, hread]

end Members

/-! ## Plain values and lists -/

@[simp] theorem asString?_string (text : String) : asString? (.string text) = some text := rfl

@[simp] theorem asBool?_bool (b : Bool) : asBool? (.bool b) = some b := rfl

@[simp] theorem asNat?_nat (n : Nat) : asNat? (.nat n) = some n := rfl

@[simp] theorem allow_name (x : Option String) :
    allow name asString? (.object (⟨name, ofOption .string x⟩ :: members)) = some x :=
  allow_ofOption asString?_string nofun x

@[simp] theorem allow_string (text : String) :
    allow name asString? (.object (⟨name, .string text⟩ :: members)) = some (some text) :=
  allow_name (some text)

@[simp] theorem allow_bool (b : Bool) :
    allow name asBool? (.object (⟨name, .bool b⟩ :: members)) = some (some b) :=
  allow_ofOption asBool?_bool nofun (some b)

theorem readList_map {read : Json → Option α} {items : List α}
    (h : ∀ a ∈ items, read (write a) = some a) :
    readList read (.array (items.map write)) = some items := by
  simp only [readList, asArray?, Option.bind_some]
  induction items with
  | nil => rfl
  | cons a rest ih =>
    have hrest := ih fun b hb => h b (mem_cons_of_mem a hb)
    simp [h a mem_cons_self, hrest]

theorem readList_ofList {read : Json → Option α}
    (h : ∀ a, read (write a) = some a) (items : List α) :
    readList read (ofList write items) = some items :=
  readList_map fun a _ => h a

@[simp] theorem readList_strings (items : List String) :
    readList asString? (ofList .string items) = some items :=
  readList_ofList asString?_string items

end Json

/-! ## Fields with a type -/

/-- The counterpart of `Field.ofJson?`. -/
def Field.toJson (write : α → Json) (f : Field α) : Json :=
  .object [⟨"name", .string f.name⟩, ⟨"type", write f.value⟩]

namespace Field

variable {α : Type} {read : Json → Option α} {write : α → Json} {fields : List (Field α)}

theorem ofJson?_toJson {f : Field α} (h : read (write f.value) = some f.value) :
    Field.ofJson? read (f.toJson write) = some f := by
  simp [Field.ofJson?, Field.toJson, h]

theorem readList_toJson (h : ∀ a ∈ fields.map value, read (write a) = some a) :
    Json.readList (Field.ofJson? read) (.array (fields.map (toJson write))) = some fields :=
  Json.readList_map fun f hf => ofJson?_toJson (h f.value (mem_map_of_mem hf))

theorem depth_toJson {a : α} (h : a ∈ fields.map value) :
    (write a).depth < (Json.array (fields.map (toJson write))).depth := by
  obtain ⟨f, hf, rfl⟩ := mem_map.1 h
  have hvalue : (write f.value).depth < (f.toJson write).depth :=
    Json.depth_lt_object (by simp)
  exact Nat.lt_trans hvalue (Json.depth_lt_array (mem_map_of_mem hf))

end Field

theorem Span.ofJson?_toJson (s : Span) : Span.ofJson? s.toJson = some s := by
  simp [Span.ofJson?, Span.toJson]

/-! ## Types -/

/-- The types that the form of a type holds directly. -/
def TypeKind.parts : TypeKind τ → List τ
  | .composite _ fields | .object fields => fields.map Field.value
  | .array t | .optional t => [t]
  | .union members => members
  | .string | .number | .bigint | .boolean | .date | .null | .json | .unknown | .any | .literal _ =>
    []

namespace TypeKind

theorem listToJson_eq (types : List SqlType) : listToJson types = types.map SqlType.toJson := by
  induction types with
  | nil => rfl
  | cons t rest ih => simp [listToJson, ih]

theorem fieldsToJson_eq (fields : List (Field SqlType)) :
    fieldsToJson fields = fields.map (Field.toJson SqlType.toJson) := by
  induction fields with
  | nil => rfl
  | cons f rest ih =>
    obtain ⟨name, t⟩ := f
    simp [fieldsToJson, fieldToJson, Field.toJson, ih]

theorem ofJson?_members {read : Json → Option SqlType}
    (h : ∀ t ∈ kind.parts, read t.toJson = some t) (rest : List (Field Json)) :
    ofJson? read (.object (kind.members ++ rest)) = some kind := by
  cases kind <;> simp only [parts, forall_mem_cons, not_mem_nil, false_imp_iff,
    implies_true, and_true] at h
  all_goals simp [ofJson?, members, h]
  case composite => simp [fieldsToJson_eq, Field.readList_toJson h]
  case union => simp [listToJson_eq, Json.readList_map h]
  case object => simp [fieldsToJson_eq, Field.readList_toJson h]

theorem depth_parts {t : SqlType} (h : t ∈ kind.parts)
    (rest : List (Field Json)) : t.toJson.depth < (Json.object (kind.members ++ rest)).depth := by
  have hmember (json : Json) (hjson : json ∈ kind.members.map Field.value) :
      json.depth < (Json.object (kind.members ++ rest)).depth :=
    Json.depth_lt_object (by rw [map_append]; exact mem_append_left _ hjson)
  cases kind <;> simp only [parts, not_mem_nil, mem_singleton] at h
  case composite fields | object fields =>
    refine Nat.lt_trans ?_ (hmember (.array (fieldsToJson fields)) (by simp [members]))
    rw [fieldsToJson_eq]
    exact Field.depth_toJson h
  case union types =>
    refine Nat.lt_trans ?_ (hmember (.array (listToJson types)) (by simp [members]))
    rw [listToJson_eq]
    exact Json.depth_lt_array (mem_map_of_mem h)
  case array | optional =>
    subst h
    exact hmember _ (by simp [members])

theorem name_of_mem_members (h : m ∈ kind.members) :
    m.name ≠ "nullable" ∧ m.name ≠ "postgres" := by
  cases kind <;> simp only [members, mem_cons, not_mem_nil, or_false] at h
  all_goals rcases h with rfl | rfl | rfl <;> simp

-- the parts of a form do not stand in the way of what is written beside it
@[simp] theorem allow_nullable {α : Type} {read : Json → Option α} :
    Json.allow "nullable" read (.object (kind.members ++ rest)) =
      Json.allow "nullable" read (.object rest) :=
  Json.allow_append fun _ hm => (name_of_mem_members hm).1

@[simp] theorem allow_postgres {α : Type} {read : Json → Option α} :
    Json.allow "postgres" read (.object (kind.members ++ rest)) =
      Json.allow "postgres" read (.object rest) :=
  Json.allow_append fun _ hm => (name_of_mem_members hm).2

end TypeKind

namespace SqlType

theorem ofJsonWithin?_toJson (n : Nat) (t : SqlType) (h : t.toJson.depth < n) :
    ofJsonWithin? n t.toJson = some t := by
  induction n generalizing t with
  | zero => exact absurd h (Nat.not_lt_zero _)
  | succ n ih =>
    obtain ⟨kind, nullable, postgres⟩ := t
    simp only [toJson, append_assoc] at h ⊢
    have hparts (u : SqlType) (hu : u ∈ kind.parts) : ofJsonWithin? n u.toJson = some u :=
      ih u (Nat.lt_of_lt_of_le (TypeKind.depth_parts hu _) (Nat.le_of_lt_succ h))
    have hkind := TypeKind.ofJson?_members hparts
    cases postgres <;> simp [ofJsonWithin?, Json.allowD, hkind]

@[simp] theorem ofJson?_toJson (t : SqlType) : ofJson? t.toJson = some t :=
  ofJsonWithin?_toJson _ t (Nat.lt_succ_self _)

end SqlType

/-! ## Waiting types -/

theorem Overload.ofJson?_toJson (v : Overload) : Overload.ofJson? v.toJson = some v := by
  simp [Overload.ofJson?, Overload.toJson]

theorem OperatorPart.ofJson?_name (part : OperatorPart) :
    OperatorPart.ofJson? (.string part.name) = some part := by
  cases part <;> rfl

namespace TypeExpr

theorem listToJson_eq (ts : List TypeExpr) : listToJson ts = ts.map toJson := by
  induction ts with
  | nil => rfl
  | cons t rest ih => simp [listToJson, ih]

theorem fieldsToJson_eq (fields : List (Field TypeExpr)) :
    fieldsToJson fields = fields.map (Field.toJson toJson) := by
  induction fields with
  | nil => rfl
  | cons f rest ih =>
    obtain ⟨name, t⟩ := f
    simp [fieldsToJson, fieldToJson, Field.toJson, ih]

theorem ofJsonWithin?_of_parts {n : Nat} {t : TypeExpr}
    (h : ∀ u ∈ t.parts, ofJsonWithin? n u.toJson = some u) :
    ofJsonWithin? (n + 1) t.toJson = some t := by
  cases t <;> simp only [parts, forall_mem_cons, not_mem_nil, false_imp_iff,
    implies_true, and_true] at h
  all_goals
    simp [toJson, loadJson, nameJson, ofJsonWithin?, loadOfJson?, Span.ofJson?_toJson, h]
  case function => simp [listToJson_eq, Json.readList_map h]
  case functionArgument => simp [listToJson_eq, Json.readList_map h]
  case operator =>
    simp [Json.readList_ofList Overload.ofJson?_toJson, OperatorPart.ofJson?_name]
  case union => simp [listToJson_eq, Json.readList_map h]
  case object => simp [fieldsToJson_eq, Field.readList_toJson h]
  case coalesce => simp [listToJson_eq, Json.readList_map h]

theorem depth_listToJson {ts : List TypeExpr} (h : t ∈ ts) :
    t.toJson.depth < (Json.array (listToJson ts)).depth := by
  rw [listToJson_eq]
  exact Json.depth_lt_array (mem_map_of_mem h)

theorem depth_fieldsToJson {fields : List (Field TypeExpr)} (h : t ∈ fields.map Field.value) :
    t.toJson.depth < (Json.array (fieldsToJson fields)).depth := by
  rw [fieldsToJson_eq]
  exact Field.depth_toJson h

theorem depth_lt_loadJson {form : String} {members : List (Field Json)} {json : Json}
    (h : json ∈ members.map Field.value) : json.depth < (loadJson form members).depth :=
  Nat.lt_trans (@Json.depth_lt_object _ (_ :: members) (mem_cons_of_mem _ h))
    (@Json.depth_lt_object _ [⟨"load", _⟩] mem_cons_self)

theorem depth_parts {u : TypeExpr} (h : u ∈ t.parts) : u.toJson.depth < t.toJson.depth := by
  cases t <;> simp only [parts, not_mem_nil, mem_cons, or_false] at h
  case function | functionArgument | union | coalesce =>
    exact Nat.lt_trans (depth_listToJson h) (depth_lt_loadJson (by simp))
  case operator | cast => rcases h with rfl | rfl <;> exact depth_lt_loadJson (by simp)
  case array | arrayItem | fieldAccess | optional | asArray =>
    subst h
    exact depth_lt_loadJson (by simp)
  case object => exact Nat.lt_trans (depth_fieldsToJson h) (depth_lt_loadJson (by simp))

theorem ofJsonWithin?_toJson (n : Nat) (t : TypeExpr) (h : t.toJson.depth < n) :
    ofJsonWithin? n t.toJson = some t := by
  induction n generalizing t with
  | zero => exact absurd h (Nat.not_lt_zero _)
  | succ n ih =>
    apply ofJsonWithin?_of_parts
    intro u hu
    exact ih u (Nat.lt_of_lt_of_le (depth_parts hu) (Nat.le_of_lt_succ h))

@[simp] theorem ofJson?_toJson (t : TypeExpr) : ofJson? t.toJson = some t :=
  ofJsonWithin?_toJson _ t (Nat.lt_succ_self _)

end TypeExpr

/-! ## Interfaces -/

theorem Param.ofJson?_toJson {τ : Type} {read : Json → Option τ} {write : τ → Json}
    (h : ∀ t, read (write t) = some t) (p : Param τ) :
    Param.ofJson? read (p.toJson write) = some p := by
  simp [Param.ofJson?, Param.toJson, h, Json.readList_ofList Span.ofJson?_toJson]

theorem ResultColumn.ofJson?_toJson (c : ResultColumn) :
    ResultColumn.ofJson? c.toJson = some c := by
  simp [ResultColumn.ofJson?, ResultColumn.toJson, Span.ofJson?_toJson]

/-- The interface of the query, if the source is one. -/
def Source.queries : Source → List Interface
  | .query _ q _ => [q]
  | .table .. | .values .. => []

namespace Source

theorem listToJson_eq (sources : List Source) : listToJson sources = sources.map toJson := by
  induction sources with
  | nil => rfl
  | cons source rest ih => simp [listToJson, ih]

theorem ofJsonWith?_toJson {read : Json → Option Interface} {source : Source}
    (h : ∀ q ∈ source.queries, read q.toJson = some q) :
    ofJsonWith? read source.toJson = some source := by
  cases source with
  | table schema name asName isResult span =>
    simp [ofJsonWith?, toJson, Span.ofJson?_toJson]
  | query name q isResult => simp [ofJsonWith?, toJson, h q mem_cons_self]
  | values name columns types isResult =>
    have hcolumns (rest : List (Field Json)) : Json.allow "columns" (Json.readList Json.asString?)
        (.object (⟨"columns", .ofOption (Json.ofList .string) columns⟩ :: rest)) = some columns :=
      Json.allow_ofOption Json.readList_strings nofun columns
    simp [ofJsonWith?, toJson, hcolumns, Json.readList_ofList TypeExpr.ofJson?_toJson]

theorem depth_queries {source : Source} {q : Interface} (h : q ∈ source.queries) :
    q.toJson.depth < source.toJson.depth := by
  cases source <;> simp only [queries, not_mem_nil, mem_singleton] at h
  case query name p isResult =>
    subst h
    exact Json.depth_lt_object (by simp)

end Source

namespace Interface

/-- The interfaces of the queries that an interface has as sources. -/
def queries (q : Interface) : List Interface := q.sources.flatMap Source.queries

theorem ofJsonWithin?_of_queries {n : Nat} {q : Interface}
    (h : ∀ p ∈ q.queries, ofJsonWithin? n p.toJson = some p) :
    ofJsonWithin? (n + 1) q.toJson = some q := by
  obtain ⟨sources, params, results, nullableSources⟩ := q
  have hsources : Json.readList (Source.ofJsonWith? (ofJsonWithin? n))
      (.array (Source.listToJson sources)) = some sources := by
    rw [Source.listToJson_eq]
    apply Json.readList_map
    intro source hsource
    apply Source.ofJsonWith?_toJson
    intro p hp
    exact h p (mem_flatMap.2 ⟨source, hsource, hp⟩)
  have hparams := Json.readList_ofList (Param.ofJson?_toJson TypeExpr.ofJson?_toJson) params
  have hresults := Json.readList_ofList ResultColumn.ofJson?_toJson results
  have hnames (names : List String) : Json.allow "nullable_sources" (Json.readList Json.asString?)
      (.object [⟨"nullable_sources", .ofList .string names⟩]) = some (some names) :=
    Json.allow_ofOption Json.readList_strings nofun (some names)
  cases nullableSources <;>
    simp [ofJsonWithin?, toJson, Json.allowD, hsources, hparams, hresults, hnames]

theorem depth_queries {q p : Interface} (h : p ∈ q.queries) : p.toJson.depth < q.toJson.depth := by
  obtain ⟨source, hsource, hp⟩ := mem_flatMap.1 h
  obtain ⟨sources, params, results, nullableSources⟩ := q
  have hlist : source.toJson ∈ Source.listToJson sources := by
    rw [Source.listToJson_eq]
    exact mem_map_of_mem hsource
  calc p.toJson.depth < source.toJson.depth := Source.depth_queries hp
    _ < (Json.array (Source.listToJson sources)).depth := Json.depth_lt_array hlist
    _ < (toJson ⟨sources, params, results, nullableSources⟩).depth :=
      Json.depth_lt_object (by simp)

theorem ofJsonWithin?_toJson (n : Nat) (q : Interface) (h : q.toJson.depth < n) :
    ofJsonWithin? n q.toJson = some q := by
  induction n generalizing q with
  | zero => exact absurd h (Nat.not_lt_zero _)
  | succ n ih =>
    apply ofJsonWithin?_of_queries
    intro p hp
    exact ih p (Nat.lt_of_lt_of_le (depth_queries hp) (Nat.le_of_lt_succ h))

theorem ofJson?_toJson (q : Interface) : ofJson? q.toJson = some q :=
  ofJsonWithin?_toJson _ q (Nat.lt_succ_self _)

end Interface

theorem TypedInterface.ofJson?_toJson (q : TypedInterface) :
    TypedInterface.ofJson? q.toJson = some q := by
  have hparams := Json.readList_ofList (Param.ofJson?_toJson SqlType.ofJson?_toJson) q.params
  have hresults : Json.readList (Field.ofJson? SqlType.ofJson?)
      (.ofList resultToJson q.results) = some q.results :=
    Field.readList_toJson fun t _ => SqlType.ofJson?_toJson t
  simp [TypedInterface.ofJson?, TypedInterface.toJson, hparams, hresults]

/-! ## The catalog -/

theorem QualifiedName.ofJson?_toJson (n : QualifiedName) :
    QualifiedName.ofJson? n.toJson = some n := by
  simp [QualifiedName.ofJson?, QualifiedName.toJson]

theorem Column.ofJson?_toJson (c : Column) : Column.ofJson? c.toJson = some c := by
  simp [Column.ofJson?, Column.toJson]

theorem Attribute.ofJson?_toJson (a : Attribute) : Attribute.ofJson? a.toJson = some a := by
  simp [Attribute.ofJson?, Attribute.toJson]

theorem CatalogRecord.ofJson?_toJson (r : CatalogRecord) :
    CatalogRecord.ofJson? r.toJson = some r := by
  have hcolumns := Json.readList_ofList Column.ofJson?_toJson
  have hattributes := Json.readList_ofList Attribute.ofJson?_toJson
  cases r <;> simp [CatalogRecord.ofJson?, CatalogRecord.toJson, QualifiedName.ofJson?_toJson,
    hcolumns, hattributes]

/-- Every value of the data model is read back from its JSON as it was. -/
theorem ofJson?_toJson_dataModel : (∀ q : Interface, Interface.ofJson? q.toJson = some q) ∧
    (∀ q : TypedInterface, TypedInterface.ofJson? q.toJson = some q) ∧
    (∀ t : SqlType, SqlType.ofJson? t.toJson = some t) ∧
    (∀ r : CatalogRecord, CatalogRecord.ofJson? r.toJson = some r) :=
  ⟨Interface.ofJson?_toJson, TypedInterface.ofJson?_toJson, SqlType.ofJson?_toJson,
    CatalogRecord.ofJson?_toJson⟩

end SqlTyping
