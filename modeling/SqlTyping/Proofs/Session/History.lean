import SqlTyping.Proofs.Resolution.Agreement
import SqlTyping.Session

/-!
# What a session has loaded does not show

A session loads what a statement refers to and types the statement for what it has loaded. For
statements that lead to definite names only, that is as good as typing it for the whole catalog,
whatever the session has loaded before (`Session.Ready.inferInterface`): loading selectively is
enough, and statements do not see the history of their session.
-/

namespace SqlTyping

open Text (fold)

variable {path : List String} {key : RecordKey} {q : Interface}

/-- A store of all records of a catalog. -/
def MemoryCatalog.wholeStore (c : MemoryCatalog) : Store :=
  (Store.empty c.searchPath).extend c.records

theorem MemoryCatalog.records_wholeStore (c : MemoryCatalog) :
    c.wholeStore.records = c.records.eraseDups := by
  rw [wholeStore, (Store.indexed_empty _).records_extend]
  rfl

theorem MemoryCatalog.searchPath_wholeStore (c : MemoryCatalog) :
    c.wholeStore.searchPath = c.searchPath := Store.searchPath_extend ..

/-- Repetitions of records do not show in what is reached. -/
theorem Reaches.of_eraseDups {records : List CatalogRecord} {requests : Requests}
    (h : Reaches path records.eraseDups requests key) : Reaches path records requests key := by
  induction h with
  | asked hk => exact .asked hk
  | found _ hr hk ih =>
    rw [searchRecords_eraseDups, List.mem_eraseDups] at hr
    exact .found ih hr hk

namespace Session

/-- The session has loaded a closed sample of the records, by whatever way it came to it. -/
structure Ready (path : List String) (all : List CatalogRecord) (s : Session) : Prop where
  serves : s.catalog.Serves path all
  samples : s.store.Samples path all
  closed : s.store.Closed path all

section

variable {path : List String} {all : List CatalogRecord}

theorem ready_new {c : MemoryCatalog} (h : c.Serves path all) (mode : ResolveMode) :
    (Session.new c path mode).Ready path all :=
  ⟨h, Store.Samples.empty path all, fun r hr => by cases hr⟩

variable (hw : WellFormed all) (hn : all.Nodup) {s : Session} (hs : s.Ready path all)
include hw hn hs

/-- Loading does not fail, and leaves the session ready. -/
theorem Ready.load (requests : Requests) :
    (∃ added, (s.load requests).1 = .ok added) ∧ (s.load requests).2.Ready path all ∧
      (s.load requests).2.mode = s.mode := by
  have hdone := (loadRequests_complete hw hn requests hs.serves hs.samples hs.closed).1
  obtain ⟨added, hok⟩ := hdone.ok
  refine ⟨⟨added, ?_⟩, ⟨hdone.serves, hdone.samples, hdone.closed⟩, rfl⟩
  rw [Session.load, hok]
  rfl

theorem Ready.inferInterface_ready (q : Interface) :
    (s.inferInterface q).2.Ready path all ∧ (s.inferInterface q).2.mode = s.mode := by
  obtain ⟨⟨added, hok⟩, hready, hmode⟩ := hs.load hw hn q.needs
  rw [Session.inferInterface]
  generalize s.load q.needs = loaded at hok hready hmode
  obtain ⟨outcome, s'⟩ := loaded
  cases outcome with
  | error e => cases hok
  | ok records => exact ⟨hready, hmode⟩

theorem Ready.infer_ready (text : String) :
    (s.infer text).2.Ready path all ∧ (s.infer text).2.mode = s.mode := by
  unfold Session.infer
  cases extractInterface text with
  | error e => exact ⟨hs, rfl⟩
  | ok q => exact hs.inferInterface_ready hw hn q

/-- A statement that leads to definite names only is typed as for the whole catalog. -/
theorem Ready.inferInterface {t : Store} (hpath : t.searchPath = path) (hrecords : t.records = all)
    (hd : ∀ key, Reaches path all q.needs key → Definite path all key) :
    (s.inferInterface q).1 = (q.resolve t s.mode).mapError .load := by
  obtain ⟨hdone, hanswered⟩ := loadRequests_complete hw hn q.needs hs.serves hs.samples hs.closed
  have hagrees := hdone.samples.agrees hw hdone.closed hpath hrecords hd
    fun key hk => hanswered key hk (hd key (.asked hk))
  have hresolve := hagrees.resolve_eq s.mode (q := q) fun key hk => .inl (.asked hk)
  obtain ⟨added, hok⟩ := hdone.ok
  rw [Session.inferInterface, Session.load, hok, ← hresolve]
  rfl

end

/-- The session after it has typed the texts, one after the other. -/
def afterAll (s : Session) (texts : List String) : Session :=
  texts.foldl (fun s text => (s.infer text).2) s

theorem Ready.afterAll {all : List CatalogRecord} (hw : WellFormed all) (hn : all.Nodup)
    {s : Session} (hs : s.Ready path all) (texts : List String) :
    (s.afterAll texts).Ready path all ∧ (s.afterAll texts).mode = s.mode := by
  unfold Session.afterAll
  induction texts generalizing s with
  | nil => exact ⟨hs, rfl⟩
  | cons text texts ih =>
    obtain ⟨hready, hmode⟩ := hs.infer_ready hw hn text
    rw [List.foldl_cons, ← hmode]
    exact ih hready

/-! ## Independence of history -/

/-- What a statement is typed to does not depend on the statements before it, if it leads to names
that one schema of the search path has. -/
theorem infer_afterAll (catalog : MemoryCatalog) (hreach : catalog.unreachable = false)
    (hfail : catalog.failures = []) (hw : WellFormed catalog.records) (mode : ResolveMode)
    (history : List String) (text : String)
    (hd : ∀ q, extractInterface text = .ok q → ∀ key,
      Reaches catalog.searchPath catalog.records q.needs key →
        Definite catalog.searchPath catalog.records key) :
    (((Session.new catalog catalog.searchPath mode).afterAll history).infer text).1 =
      ((Session.new catalog catalog.searchPath mode).infer text).1 := by
  have hserves : catalog.Serves catalog.searchPath catalog.records.eraseDups :=
    ⟨hreach, hfail, rfl, rfl⟩
  have hn := Repetition.nodup_eraseDups catalog.records
  have hnew := ready_new hserves mode
  obtain ⟨hafter, hmode⟩ := hnew.afterAll hw.eraseDups hn history
  unfold Session.infer
  cases hq : extractInterface text with
  | error e => rfl
  | ok q =>
    have hdefinite : ∀ key, Reaches catalog.searchPath catalog.records.eraseDups q.needs key →
        Definite catalog.searchPath catalog.records.eraseDups key := fun key hkey =>
      (hd q hq key hkey.of_eraseDups).eraseDups
    dsimp only
    rw [hafter.inferInterface hw.eraseDups hn catalog.searchPath_wholeStore
        catalog.records_wholeStore hdefinite,
      hnew.inferInterface hw.eraseDups hn catalog.searchPath_wholeStore
        catalog.records_wholeStore hdefinite, hmode]

/-- Two schemas of the search path have a table of one name. -/
def twoSchemas : MemoryCatalog where
  records := [.table ⟨some "public", "users"⟩ [⟨"id", false, "int4", none⟩],
    .table ⟨some "audit", "users"⟩ [⟨"at", false, "date", none⟩]]
  searchPath := ["public", "audit"]

theorem wellFormed_twoSchemas : WellFormed twoSchemas.records :=
  ⟨by decide, by decide, by decide +kernel⟩

theorem reaches_audit_users (hq : extractInterface "SELECT * FROM audit.users" = .ok q)
    (hkey : Reaches twoSchemas.searchPath twoSchemas.records q.needs key) :
    key = ⟨.table, ⟨some "audit", "users"⟩⟩ := by
  have hkeys : ((extractInterface "SELECT * FROM audit.users").toOption.map (·.needs.keys)) =
      some [⟨.table, ⟨some "audit", "users"⟩⟩] := by decide +kernel
  rw [hq] at hkeys
  have hneeds : q.needs.keys = [⟨.table, ⟨some "audit", "users"⟩⟩] := Option.some.inj hkeys
  have hfound : ∀ r ∈ searchRecords twoSchemas.searchPath twoSchemas.records
      ⟨.table, ⟨some "audit", "users"⟩⟩, r.needs.keys = [] := by decide +kernel
  induction hkey with
  | asked hk => simpa [hneeds] using hk
  | found _ hr hk ih =>
    rw [ih] at hr
    rw [hfound _ hr] at hk
    cases hk

/-- The name of a table with its schema means the same after its bare name has been used. -/
theorem infer_audit_users_after_users :
    (((Session.new twoSchemas twoSchemas.searchPath .strict).afterAll
        ["SELECT * FROM users"]).infer "SELECT * FROM audit.users").1 =
      ((Session.new twoSchemas twoSchemas.searchPath .strict).infer
        "SELECT * FROM audit.users").1 :=
  infer_afterAll twoSchemas rfl rfl wellFormed_twoSchemas .strict _ _ fun _ hq key hkey => by
    rw [reaches_audit_users hq hkey]
    intro hnone
    cases hnone

-- Its bare name does not: after the name with the schema, it means that table.
example : (((Session.new twoSchemas twoSchemas.searchPath .strict).afterAll
        ["SELECT * FROM audit.users"]).infer "SELECT * FROM users").1.toOption ≠
      ((Session.new twoSchemas twoSchemas.searchPath .strict).infer
        "SELECT * FROM users").1.toOption := by
  decide +kernel

end Session

/-! ## Selective loading -/

/-- Every record has a schema and a name. Up to case, a name belongs to one schema only and, unless
it is the name of a function, to one record only. Enums and composite types count as one kind. -/
structure OneHomePerName (records : List CatalogRecord) : Prop where
  schema : ∀ r ∈ records, r.name.schema.isSome
  name : ∀ r ∈ records, r.name.name ≠ ""
  oneSchema : ∀ r ∈ records, ∀ r' ∈ records, r.kind.space = r'.kind.space →
    fold r.name.name = fold r'.name.name → r.name.schema.map fold = r'.name.schema.map fold
  oneRecord : ∀ r ∈ records, ∀ r' ∈ records, r.kind.space = r'.kind.space →
    r.kind ≠ .function → fold r.name.name = fold r'.name.name → r = r'

namespace OneHomePerName

variable {records : List CatalogRecord} (h : OneHomePerName records)
include h

theorem wellFormed : WellFormed records where
  schema := h.schema
  typeName r hr _ := h.name r hr
  oneKind r hr r' hr' hspace hn _ := by
    by_cases hf : r.kind = .function
    · rw [hf] at hspace ⊢
      cases hk : r'.kind <;> simp [hk, RecordKind.space] at hspace ⊢
    · rw [h.oneRecord r hr r' hr' hspace hf hn]

theorem definite (path : List String) (key : RecordKey) : Definite path records key := by
  intro _ r hr r' hr' hk hk' hn hn' a _ b _ ha hb
  have hschema := h.oneSchema r hr r' hr' (hk.trans hk'.symm) (hn.trans hn'.symm)
  obtain ⟨own, ho, hown⟩ := QualifiedName.isIn_iff.1 ha
  obtain ⟨own', ho', hown'⟩ := QualifiedName.isIn_iff.1 hb
  rw [ho, ho', Option.map_some, Option.map_some, Option.some.injEq, hown, hown'] at hschema
  exact hschema

end OneHomePerName

/-- Loading what an interface refers to is enough: it is resolved as for a store of the whole
catalog. -/
theorem Interface.resolve_loaded (catalog : MemoryCatalog) (hreach : catalog.unreachable = false)
    (hfail : catalog.failures = []) (h : OneHomePerName catalog.records) (q : Interface)
    (mode : ResolveMode) :
    (∃ added, (loadRequests q.needs (.empty catalog.searchPath) catalog).outcome = .ok added) ∧
      q.resolve (loadRequests q.needs (.empty catalog.searchPath) catalog).store mode =
        q.resolve catalog.wholeStore mode := by
  have hserves : catalog.Serves catalog.searchPath catalog.records.eraseDups :=
    ⟨hreach, hfail, rfl, rfl⟩
  have hw := h.wellFormed.eraseDups
  have hdefinite := fun key => (h.definite catalog.searchPath key).eraseDups
  obtain ⟨hdone, hanswered⟩ := loadRequests_complete hw (Repetition.nodup_eraseDups _) q.needs
    hserves (Store.Samples.empty _ _) fun r hr => by cases hr
  have hagrees := hdone.samples.agrees hw hdone.closed catalog.searchPath_wholeStore
    catalog.records_wholeStore (fun key _ => hdefinite key)
    fun key hk => hanswered key hk (hdefinite key)
  exact ⟨hdone.ok, hagrees.resolve_eq mode fun key hk => .inl (.asked hk)⟩

/-- A view that reads a table, which has a column of an enum type. -/
def shopCatalog : MemoryCatalog where
  records := [
    .view ⟨some "shop", "open_orders"⟩ "SELECT id, state FROM orders WHERE state <> 'done'" [],
    .table ⟨some "shop", "orders"⟩
      [⟨"id", false, "int4", none⟩, ⟨"state", false, "shop.order_state", none⟩],
    .enum ⟨some "shop", "order_state"⟩ ["new", "done"],
    .function ⟨some "shop", "total"⟩ ["int4"] "numeric" false,
    .function ⟨some "shop", "total"⟩ ["shop.order_state"] "numeric" false]
  searchPath := ["public", "shop"]

/-- The interface of a statement that reads all columns of a table. -/
def allColumnsOf (table : String) : Interface :=
  ⟨[.table none table none true ⟨14, 25⟩], [], [⟨"*", .star none none ⟨7, 8⟩, ⟨7, 8⟩⟩], []⟩

theorem resolve_loaded_open_orders : OneHomePerName shopCatalog.records ∧
      (∃ added, (loadRequests (allColumnsOf "open_orders").needs (.empty shopCatalog.searchPath)
        shopCatalog).outcome = .ok added) ∧
      (allColumnsOf "open_orders").resolve (loadRequests (allColumnsOf "open_orders").needs
          (.empty shopCatalog.searchPath) shopCatalog).store .strict =
        (allColumnsOf "open_orders").resolve shopCatalog.wholeStore .strict := by
  have h : OneHomePerName shopCatalog.records :=
    ⟨by decide, by decide, by decide +kernel, by decide +kernel⟩
  exact ⟨h, Interface.resolve_loaded shopCatalog rfl rfl h (allColumnsOf "open_orders") .strict⟩

end SqlTyping
