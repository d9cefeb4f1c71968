import Mathlib.Data.List.Chain
import SqlTyping.Catalog.Rows
import SqlTyping.Proofs.Repetition

/-!
# Records of catalog rows

The records are the runs of rows with one name (`Groups`): their members are the rows in their order,
and records that follow each other have different names. Where the rows of an object stand together,
there is one record for each object. Each row that is read adds a record or extends the last one
(`Takes`), and what it adds is that row (`Grouped.take`).
-/

namespace SqlTyping

open List

/-- What a record lists. -/
inductive RecordMember where
  | column (c : Column)
  | label (s : String)
  | attribute (a : Attribute)

namespace CatalogRecord

def members : CatalogRecord → List RecordMember
  | table _ columns | view _ _ columns => columns.map .column
  | enum _ variants => variants.map .label
  | composite _ attributes => attributes.map .attribute
  | function .. => []

/-- The query of a view. -/
def source? : CatalogRecord → Option String
  | view _ source _ => some source
  | _ => none

/-- The members with the name of the record. -/
def entries (r : CatalogRecord) : List (QualifiedName × RecordMember) := r.members.map (r.name, ·)

end CatalogRecord

/-- A name that comes again comes next. -/
def Contiguous (names : List QualifiedName) : Prop :=
  ∀ n rest, n :: rest <:+ names → n ∈ rest → rest.head? = some n

/-- The records of rows, each with a name and a member. -/
structure Groups (rows : List (QualifiedName × RecordMember)) (records : List CatalogRecord) :
    Prop where
  flat : records.flatMap (·.entries) = rows
  apart : records.IsChain fun a b => a.name ≠ b.name
  once : Contiguous (rows.map Prod.fst) → records.map (·.name) = (rows.map Prod.fst).eraseDups

section Names

variable {records : List CatalogRecord}

theorem CatalogRecord.map_fst_entries (r : CatalogRecord) :
    r.entries.map Prod.fst = List.replicate r.members.length r.name := by
  simp [entries, Function.comp_def, map_const']

theorem nodup_names (hmembers : ∀ r ∈ records, r.members ≠ [])
    (hapart : records.IsChain fun a b => a.name ≠ b.name)
    (h : Contiguous ((records.flatMap (·.entries)).map Prod.fst)) :
    (records.map (·.name)).Nodup := by
  induction records with
  | nil => exact nodup_nil
  | cons r rest ih =>
    obtain ⟨hr, hrest⟩ := forall_mem_cons.1 hmembers
    rw [flatMap_cons, map_append, CatalogRecord.map_fst_entries] at h
    have hnodup := ih hrest hapart.tail fun n l hl => h n l (hl.trans (suffix_append _ _))
    refine nodup_cons.2 ⟨fun hmem => ?_, hnodup⟩
    -- the last of the names that the first record has is followed by that of the next record
    obtain ⟨k, hk⟩ := Nat.exists_eq_succ_of_ne_zero (length_pos_iff.2 hr).ne'
    rw [hk, replicate_succ', append_assoc] at h
    obtain ⟨again, hagain, hname⟩ := mem_map.1 hmem
    have hlater : r.name ∈ (rest.flatMap (·.entries)).map Prod.fst := by
      rw [map_flatMap]
      refine mem_flatMap.2 ⟨again, hagain, ?_⟩
      rw [CatalogRecord.map_fst_entries, show r.name = again.name from hname.symm]
      exact mem_replicate.2 ⟨fun h0 => hrest again hagain (length_eq_zero_iff.1 h0), rfl⟩
    have hnext := h _ _ (suffix_append _ _) hlater
    cases rest with
    | nil => cases hagain
    | cons next rest =>
      obtain ⟨j, hj⟩ := Nat.exists_eq_succ_of_ne_zero (length_pos_iff.2 (hrest next (.head _))).ne'
      rw [flatMap_cons, map_append, CatalogRecord.map_fst_entries, hj] at hnext
      exact (isChain_cons_cons.1 hapart).1 (Option.some.inj hnext).symm

theorem Groups.of_members {rows : List (QualifiedName × RecordMember)}
    (hmembers : ∀ r ∈ records, r.members ≠ []) (hentries : records.flatMap (·.entries) = rows)
    (hapart : records.IsChain fun a b => a.name ≠ b.name) : Groups rows records where
  flat := hentries
  apart := hapart
  once h := by
    subst hentries
    have hsingle : ∀ r ∈ records, (r.entries.map Prod.fst).eraseDups = [r.name] := fun r hr => by
      rw [CatalogRecord.map_fst_entries]
      exact Repetition.eraseDups_of_forall_eq (fun b hb => eq_of_mem_replicate hb)
        (mem_replicate.2 ⟨fun h0 => hmembers r hr (length_eq_zero_iff.1 h0), rfl⟩)
    rw [map_flatMap, ← Repetition.eraseDups_flatMap, flatMap_congr hsingle,
      ← map_eq_flatMap, Repetition.eraseDups_of_nodup (nodup_names hmembers hapart h)]

end Names

/-! ## One row after the other -/

/-- What a row says: the name of its object, a member of it, and the query of the view that the
object is if this is its first row. -/
structure RowEntry where
  name : QualifiedName
  member : RecordMember
  source : Option String := none

/-- A row is taken: it is the first of a new record, or the next of the last record. -/
inductive Takes (row : RowEntry) : List CatalogRecord → List CatalogRecord → Prop where
  | new {records : List CatalogRecord} {r : CatalogRecord} :
      r.name = row.name → r.members = [row.member] → r.source? = row.source →
      (∀ last ∈ records.getLast?, last.name ≠ row.name) → Takes row records (records ++ [r])
  | next {before : List CatalogRecord} {last r : CatalogRecord} :
      r.name = last.name → last.name = row.name → r.members = last.members ++ [row.member] →
      r.source? = last.source? → Takes row (before ++ [last]) (before ++ [r])

/-- The records of the rows that have been read. -/
structure Grouped (rows : List RowEntry) (records : List CatalogRecord) : Prop where
  flat : records.flatMap (·.entries) = rows.map fun row => (row.name, row.member)
  apart : records.IsChain fun a b => a.name ≠ b.name
  members : ∀ r ∈ records, r.members ≠ []
  sources : ∀ before r after, records = before ++ r :: after →
    ∃ head, rows[(before.flatMap (·.members)).length]? = some head ∧ r.source? = head.source

section Rows

variable {row : RowEntry} {rows : List RowEntry} {records after : List CatalogRecord}

/-- A place in a list that has one more at its end. -/
theorem append_singleton_eq {α : Type} {before later list : List α} {a x : α}
    (h : list ++ [x] = before ++ a :: later) :
    list = before ∧ x = a ∨ ∃ rest, list = before ++ a :: rest := by
  cases later using List.reverseRecOn with
  | nil => exact .inl ((append_inj' h rfl).imp_right fun h => (cons.inj h).1)
  | append_singleton rest y =>
    rw [← cons_append, ← append_assoc] at h
    exact .inr ⟨rest, (append_inj' h rfl).1⟩

theorem Grouped.length_members (h : Grouped rows records) :
    (records.flatMap (·.members)).length = rows.length := by
  have hlength := congrArg List.length h.flat
  simpa [length_flatMap, CatalogRecord.entries] using hlength

theorem Grouped.take (h : Grouped rows records) (hrow : Takes row records after) :
    Grouped (rows ++ [row]) after := by
  have hlater {i : Nat} {head : RowEntry} (hi : rows[i]? = some head) :
      (rows ++ [row])[i]? = some head := by
    rwa [getElem?_append_left (List.getElem?_eq_some_iff.1 hi).1]
  cases hrow with
  | @new _ r hname hmembers hsource hlast =>
    refine ⟨?_, ?_, ?_, fun before x later heq => ?_⟩
    · rw [flatMap_append, flatMap_singleton, h.flat, map_append, CatalogRecord.entries, hname,
        hmembers]
      rfl
    · refine isChain_append.2 ⟨h.apart, isChain_singleton _, fun last hl x hx => ?_⟩
      obtain rfl := Option.some.inj hx
      exact hname ▸ hlast last hl
    · rw [forall_mem_append, forall_mem_singleton, hmembers]
      exact ⟨h.members, cons_ne_nil _ _⟩
    · rcases append_singleton_eq heq with ⟨rfl, rfl⟩ | ⟨rest, hrest⟩
      · exact ⟨row, by rw [h.length_members, getElem?_concat_length], hsource⟩
      · exact (h.sources before x rest hrest).imp fun _ => And.imp_left hlater
  | @next before₀ last r hname hlast hmembers hsource =>
    refine ⟨?_, ?_, ?_, fun before x later heq => ?_⟩
    · have hflat := h.flat
      rw [flatMap_append, flatMap_singleton] at hflat
      rw [flatMap_append, flatMap_singleton, map_append, ← hflat, append_assoc]
      simp [CatalogRecord.entries, hname, hlast, hmembers]
    · obtain ⟨hbefore, -, hends⟩ := isChain_append.1 h.apart
      refine isChain_append.2 ⟨hbefore, isChain_singleton _, fun a ha x hx => ?_⟩
      obtain rfl := Option.some.inj hx
      exact hname ▸ hends a ha last rfl
    · have hbefore := (forall_mem_append.1 h.members).1
      rw [forall_mem_append, forall_mem_singleton, hmembers]
      exact ⟨hbefore, append_ne_nil_of_right_ne_nil _ (cons_ne_nil _ _)⟩
    · rcases append_singleton_eq heq with ⟨rfl, rfl⟩ | ⟨rest, rfl⟩
      · rw [hsource]
        exact (h.sources before₀ last [] rfl).imp fun _ => And.imp_left hlater
      · refine (h.sources before x (rest ++ [last]) ?_).imp fun _ => And.imp_left hlater
        rw [append_assoc, cons_append]

/-- Reading row after row groups the rows if each row is taken. -/
theorem Grouped.foldl {σ α : Type} (view : σ → List CatalogRecord) (inv : σ → Prop)
    {step : σ → α → σ} {entry : α → RowEntry} {s : σ} (hs : inv s) (hnone : view s = [])
    (hstep : ∀ s a, inv s → inv (step s a) ∧ Takes (entry a) (view s) (view (step s a)))
    (list : List α) : Grouped (list.map entry) (view (list.foldl step s)) := by
  suffices h : inv (list.foldl step s) ∧ Grouped (list.map entry) (view (list.foldl step s)) from h.2
  induction list using List.reverseRecOn with
  | nil =>
    refine ⟨hs, ?_⟩
    rw [foldl_nil, hnone]
    exact ⟨rfl, .nil, nofun, fun before r rest h => by simp at h⟩
  | append_singleton list a ih =>
    obtain ⟨hinv, htakes⟩ := hstep _ a ih.1
    rw [foldl_concat, map_append]
    exact ⟨hinv, ih.2.take htakes⟩

theorem Grouped.groups (h : Grouped rows records) :
    Groups (rows.map fun row => (row.name, row.member)) records :=
  .of_members h.members h.flat h.apart

/-- A row that is added to the last record where that has its name. All records are of one kind. -/
theorem takes_extendLast {kind : RecordKind} {extend? : CatalogRecord → Option CatalogRecord}
    {new : CatalogRecord} (hnew : new.kind = kind ∧ new.name = row.name ∧
      new.members = [row.member] ∧ new.source? = row.source)
    (hnone : ∀ last, last.kind = kind → extend? last = none → last.name ≠ row.name)
    (hsome : ∀ last r, extend? last = some r → r.kind = kind ∧ r.name = last.name ∧
      last.name = row.name ∧ r.members = last.members ++ [row.member] ∧ r.source? = last.source?)
    (h : ∀ r ∈ records, r.kind = kind) :
    (∀ r ∈ extendLast extend? new records, r.kind = kind) ∧
      Takes row records (extendLast extend? new records) := by
  obtain ⟨hkind, hname, hmembers, hsource⟩ := hnew
  unfold extendLast
  cases records using List.reverseRecOn with
  | nil => exact ⟨forall_mem_singleton.2 hkind, .new hname hmembers hsource nofun⟩
  | append_singleton before last =>
    obtain ⟨hbefore, hlast⟩ := forall_mem_append.1 h
    rw [forall_mem_singleton] at hlast
    rw [getLast?_concat, Option.bind_some]
    cases hextend : extend? last with
    | none =>
      refine ⟨forall_mem_append.2 ⟨h, forall_mem_singleton.2 hkind⟩,
        .new hname hmembers hsource fun x hx => ?_⟩
      rw [getLast?_concat] at hx
      obtain rfl := Option.some.inj hx
      exact hnone last hlast hextend
    | some r =>
      obtain ⟨hkind', hsame, hown, hmore, hsource'⟩ := hsome last r hextend
      dsimp only
      rw [dropLast_concat]
      exact ⟨forall_mem_append.2 ⟨hbefore, forall_mem_singleton.2 hkind'⟩,
        .next hsame hown hmore hsource'⟩

end Rows

/-! ## Relations, enums and composite types -/

/-- The query of the view that rows describe if this is the first of them. -/
def RelationRow.source? (r : RelationRow) : Option String :=
  if r.kind = "v" ∨ r.kind = "m" then r.definition.map Text.trim else none

namespace RelationRow

def entry (r : RelationRow) : RowEntry := ⟨r.qualifiedName, .column r.toColumn, r.source?⟩

theorem toRecord_spec (head : RelationRow) (columns : List Column) :
    (head.toRecord columns).name = head.qualifiedName ∧
      (head.toRecord columns).members = columns.map .column ∧
      (head.toRecord columns).source? = head.source? := by
  unfold toRecord source?
  cases head.definition with
  | none => simp [CatalogRecord.name, CatalogRecord.members, CatalogRecord.source?]
  | some definition =>
    by_cases hkind : head.kind = "v" ∨ head.kind = "m" <;>
      simp [hkind, CatalogRecord.name, CatalogRecord.members, CatalogRecord.source?]

/-- A relation is current from the first row on. -/
theorem takes_add (s : Gathering) (row : RelationRow) (hs : s.current = none → s.loaded = []) :
    ((s.add row).current = none → (s.add row).loaded = []) ∧
      Takes row.entry s.records (s.add row).records := by
  have hnew := row.toRecord_spec [row.toColumn]
  obtain ⟨loaded, current⟩ := s
  cases current with
  | none =>
    obtain rfl : loaded = [] := hs rfl
    exact ⟨nofun, .new hnew.1 hnew.2.1 hnew.2.2 nofun⟩
  | some relation =>
    obtain ⟨head, columns⟩ := relation
    obtain ⟨hname, hmembers, hsource⟩ := head.toRecord_spec columns
    rw [Gathering.add]
    split
    · next hsame =>
      obtain ⟨hname', hmembers', hsource'⟩ := head.toRecord_spec (columns ++ [row.toColumn])
      refine ⟨nofun, .next (hname'.trans hname.symm) ?_ ?_ (hsource'.trans hsource.symm)⟩
      · simp only [Bool.and_eq_true, beq_iff_eq] at hsame
        rw [hname, qualifiedName, hsame.1, hsame.2]
        rfl
      · rw [hmembers', hmembers, map_append]
        rfl
    · next hother =>
      refine ⟨nofun, .new hnew.1 hnew.2.1 hnew.2.2 fun last hlast heq => hother ?_⟩
      rw [Gathering.records, getLast?_concat] at hlast
      obtain rfl := Option.some.inj hlast
      have hsame : head.qualifiedName = row.qualifiedName := hname.symm.trans heq
      simpa [qualifiedName] using hsame

theorem grouped (rows : List RelationRow) : Grouped (rows.map entry) (toRecords rows) :=
  .foldl Gathering.records (fun s => s.current = none → s.loaded = []) (fun _ => rfl) rfl takes_add
    rows

end RelationRow

namespace EnumRow

def entry (r : EnumRow) : RowEntry := { name := r.qualifiedName, member := .label r.label }

theorem grouped (rows : List EnumRow) : Grouped (rows.map entry) (toRecords rows) := by
  refine .foldl id (fun loaded => ∀ r ∈ loaded, r.kind = .enum) (forall_mem_nil _) rfl
    (fun loaded row => takes_extendLast ⟨rfl, rfl, rfl, rfl⟩ (fun last hkind hnone => ?_)
      fun last r hsome => ?_) rows
  · cases last with
    | enum name variants =>
      have hother : name ≠ row.qualifiedName := by simpa [extend?] using hnone
      exact hother
    | _ => cases hkind
  · cases last with
    | enum name variants =>
      obtain ⟨hname, rfl⟩ : name = row.qualifiedName ∧ _ = r := by simpa [extend?] using hsome
      exact ⟨rfl, rfl, hname, map_append, rfl⟩
    | _ => cases hsome

end EnumRow

namespace AttributeRow

def entry (r : AttributeRow) : RowEntry :=
  { name := r.qualifiedName, member := .attribute r.toAttribute }

theorem grouped (rows : List AttributeRow) : Grouped (rows.map entry) (toRecords rows) := by
  refine .foldl id (fun loaded => ∀ r ∈ loaded, r.kind = .composite) (forall_mem_nil _) rfl
    (fun loaded row => takes_extendLast ⟨rfl, rfl, rfl, rfl⟩ (fun last hkind hnone => ?_)
      fun last r hsome => ?_) rows
  · cases last with
    | composite name attributes =>
      have hother : name ≠ row.qualifiedName := by simpa [extend?] using hnone
      exact hother
    | _ => cases hkind
  · cases last with
    | composite name attributes =>
      obtain ⟨hname, rfl⟩ : name = row.qualifiedName ∧ _ = r := by simpa [extend?] using hsome
      exact ⟨rfl, rfl, hname, map_append, rfl⟩
    | _ => cases hsome

end AttributeRow

/-- Grouping rows to records loses, repeats and reorders nothing. A relation is a view or a table by
the first of its rows. -/
theorem records_of_rows (relations : List RelationRow) (enums : List EnumRow)
    (attributes : List AttributeRow) :
    Groups (relations.map fun r => (r.qualifiedName, .column r.toColumn))
      (RelationRow.toRecords relations) ∧
    Groups (enums.map fun r => (r.qualifiedName, .label r.label)) (EnumRow.toRecords enums) ∧
    Groups (attributes.map fun r => (r.qualifiedName, .attribute r.toAttribute))
      (AttributeRow.toRecords attributes) ∧
    ∀ before r after, RelationRow.toRecords relations = before ++ r :: after →
      ∃ head, relations[(before.flatMap (·.members)).length]? = some head ∧
        r.source? = head.source? := by
  have hrelations := RelationRow.grouped relations
  have hgroups := hrelations.groups
  have henums := (EnumRow.grouped enums).groups
  have hattributes := (AttributeRow.grouped attributes).groups
  rw [map_map] at hgroups henums hattributes
  refine ⟨hgroups, henums, hattributes, fun before r after h => ?_⟩
  obtain ⟨entry, hentry, hsource⟩ := hrelations.sources before r after h
  rw [getElem?_map, Option.map_eq_some_iff] at hentry
  obtain ⟨head, hhead, rfl⟩ := hentry
  exact ⟨head, hhead, hsource⟩

end SqlTyping
