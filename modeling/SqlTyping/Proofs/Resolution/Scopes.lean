import Mathlib.Data.List.Perm.Basic
import SqlTyping.Proofs.Resolution.References

/-!
# Scopes that answer alike

A reference finds the same columns in a level whatever the order of its sources, and without the
name of a source in the catalog unless the reference has its schema (`Uncatalogs.alike`). So where a
column is found, it is found in every scope that has such levels inside and anything around them
(`Sees`). Where only the outermost level is without the name of a source, this goes for all
references but those that get there and find the source by its schema (`UncatalogsOutermost.sees`).
-/

open scoped List

namespace SqlTyping

open List

variable {name : QualifiedName} {ref : ColumnRef} {Q : ColumnRef → Prop} {level level' : Level}
  {visible : String} {levels outer : List Level}

/-- The reference names a source that is visible as `visible` together with the schema of its name
in the catalog. -/
def ColumnRef.qualifies (ref : ColumnRef) (visible : String) (name : QualifiedName) : Bool :=
  ref.table.any (Text.eqFold visible ·) && ref.schema.any (name.isIn ·)

/-- The source as a query has it, which is not in the catalog. -/
def TypedSource.uncataloged (s : TypedSource) : TypedSource := { s with table := none }

theorem TypedSource.isMeant_uncataloged {s : TypedSource} (hs : s.table = some name)
    (href : ref.qualifies s.name name = false) {table : String} (ht : ref.table = some table) :
    s.uncataloged.isMeant ref.schema table = s.isMeant ref.schema table := by
  unfold isMeant uncataloged
  rw [hs]
  cases hschema : ref.schema with
  | none => rfl
  | some schema =>
    simp only [ColumnRef.qualifies, ht, hschema, Option.any_some] at href
    simp [href]

namespace Level

/-! ## Levels -/

/-- The columns of a name that the sources with the property have, in the order of the sources. -/
def columnsOf (level : Level) (p : TypedSource → Bool) (column : String) : List (Field SqlType) :=
  level.filterMap fun s => if p s then s.column? column else none

theorem map_having_filter (level : Level) (p : TypedSource → Bool) (column : String) :
    (having (level.filter p) column).map (·.2) = level.columnsOf p column := by
  unfold having columnsOf
  rw [map_filterMap, filterMap_filter]
  refine filterMap_congr fun s _ => ?_
  split
  · cases s.column? column <;> rfl
  · rfl

/-- The columns that a reference finds, without the sources that have them. -/
def found (level : Level) (ref : ColumnRef) (position : ColumnPosition) : List (Field SqlType) :=
  (level.hits ref.schema ref.table ref.column position).map (·.2)

/-- Both levels have the same columns for references with the property, in whatever order. -/
def Alike (Q : ColumnRef → Prop) (level level' : Level) : Prop :=
  ∀ ref, Q ref → ∀ position, level.found ref position ~ level'.found ref position

theorem Alike.refl (Q : ColumnRef → Prop) (level : Level) : Alike Q level level :=
  fun _ _ _ => .refl _

theorem alike_of_columnsOf
    (hmeant : ∀ ref, Q ref → ∀ table, ref.table = some table →
      level.columnsOf (·.isMeant ref.schema table) ref.column ~
        level'.columnsOf (·.isMeant ref.schema table) ref.column)
    (hresult : ∀ column, level.columnsOf (·.isResult) column ~ level'.columnsOf (·.isResult) column)
    (hother : ∀ column, level.columnsOf (!·.isResult) column ~
      level'.columnsOf (!·.isResult) column) : Alike Q level level' := by
  intro ref hQ position
  unfold found hits
  cases ht : ref.table with
  | some table =>
    dsimp only
    rw [map_having_filter, map_having_filter]
    exact hmeant ref hQ table ht
  | none =>
    have h := hresult ref.column
    rw [← map_having_filter, ← map_having_filter] at h
    dsimp only
    cases hf : having (level.filter (·.isResult)) ref.column with
    | nil =>
      rw [hf] at h
      rw [map_eq_nil_iff.1 h.nil_eq.symm]
      cases position with
      | result => exact .refl _
      | other =>
        dsimp only
        rw [map_having_filter, map_having_filter]
        exact hother ref.column
    | cons a l =>
      rw [hf] at h
      cases hf' : having (level'.filter (·.isResult)) ref.column with
      | nil => rw [hf'] at h; exact absurd h.eq_nil (by simp)
      | cons b l' => rw [hf'] at h; exact h

/-- The second level has the sources of the first, but the one that is visible as `visible` does not
have its name in the catalog. -/
def Uncatalogs (visible : String) (name : QualifiedName) (level level' : Level) : Prop :=
  ∃ s others, s.name = visible ∧ s.table = some name ∧ level ~ s :: others ∧
    level' ~ s.uncataloged :: others

namespace Uncatalogs

variable {visible : String} {name : QualifiedName} {level level' : Level}

theorem append (h : Uncatalogs visible name level level') (more : Level) :
    Uncatalogs visible name (level ++ more) (level' ++ more) := by
  obtain ⟨s, others, hname, htable, h, h'⟩ := h
  exact ⟨s, others ++ more, hname, htable, h.append_right more, h'.append_right more⟩

theorem setNullable (h : Uncatalogs visible name level level') (names : List String) :
    Uncatalogs visible name (level.setNullable names) (level'.setNullable names) := by
  obtain ⟨s, others, hname, htable, h, h'⟩ := h
  have h := h.map fun s => if names.any (Text.eqFold · s.name) then s.setNullable else s
  have h' := h'.map fun s => if names.any (Text.eqFold · s.name) then s.setNullable else s
  rw [map_cons] at h h'
  by_cases hn : names.any (Text.eqFold · s.name)
  · rw [if_pos hn] at h
    rw [if_pos (show names.any (Text.eqFold · s.uncataloged.name) from hn)] at h'
    exact ⟨s.setNullable, _, hname, htable, h, h'⟩
  · rw [if_neg hn] at h
    rw [if_neg (show ¬names.any (Text.eqFold · s.uncataloged.name) from hn)] at h'
    exact ⟨s, _, hname, htable, h, h'⟩

theorem perm_columnsOf (h : Uncatalogs visible name level level') {p : TypedSource → Bool}
    {column : String} (hp : ∀ s ∈ level, s.name = visible → s.table = some name →
      (s.column? column).isSome → p s.uncataloged = p s) :
    level.columnsOf p column ~ level'.columnsOf p column := by
  obtain ⟨s, others, hname, htable, h, h'⟩ := h
  have hp := hp s (h.mem_iff.2 mem_cons_self) hname htable
  have hsame : columnsOf (s.uncataloged :: others) p column = columnsOf (s :: others) p column := by
    unfold columnsOf
    rw [filterMap_cons, filterMap_cons, show s.uncataloged.column? column =
      s.column? column from rfl]
    cases hc : s.column? column with
    | none => simp
    | some field => rw [hp (by rw [hc]; rfl)]
  calc level.columnsOf p column
    _ ~ columnsOf (s :: others) p column := h.filterMap _
    _ = columnsOf (s.uncataloged :: others) p column := hsame.symm
    _ ~ level'.columnsOf p column := (h'.filterMap _).symm

end Uncatalogs

end Level

/-- Looked up in the scope, the reference gets to the outermost level, where a source that is
visible as `visible` has the column, and it names this source together with the schema of the
source's name in the catalog. -/
inductive ColumnRef.QualifiesOutermost (ref : ColumnRef) (visible : String) (name : QualifiedName) :
    List Level → Prop
  | here {level : Level} {s : TypedSource} : ref.qualifies visible name = true → s ∈ level →
      s.name = visible → s.table = some name → (s.column? ref.column).isSome →
      QualifiesOutermost ref visible name [level]
  | outside {level : Level} {outer : List Level} : level.found ref .other = [] →
      QualifiesOutermost ref visible name outer →
      QualifiesOutermost ref visible name (level :: outer)

theorem ColumnRef.QualifiesOutermost.qualifies (h : ref.QualifiesOutermost visible name levels) :
    ref.qualifies visible name = true := by
  induction h with
  | here h => exact h
  | outside _ _ ih => exact ih

/-- If the interface has no reference with this schema and name, none is looked up. -/
theorem Interface.not_qualifiesOutermost (q : Interface)
    (h : ∀ ref ∈ q.columnRefs, ref.qualifies visible name = false) {start : ViewColumns → Prop}
    {ctx : ResolveContext} (hlooks : q.LooksUp start ctx ref outer levels) :
    ¬ref.QualifiesOutermost visible name levels := by
  intro hq
  have hnone := h ref (q.mem_columnRefs hlooks)
  rw [hq.qualifies] at hnone
  cases hnone

namespace Level

/-- The position of a reference matters only if it names no source. -/
theorem found_of_qualifies (h : ref.qualifies visible name = true) (level : Level)
    (position position' : ColumnPosition) :
    level.found ref position = level.found ref position' := by
  unfold found hits
  cases ht : ref.table with
  | none => rw [ColumnRef.qualifies, ht] at h; cases h
  | some table => rfl

theorem Uncatalogs.alike (h : Uncatalogs visible name level level') :
    Alike (fun ref => ¬ref.QualifiesOutermost visible name [level]) level level' := by
  refine alike_of_columnsOf (fun ref hQ table ht => ?_)
    (fun _ => h.perm_columnsOf fun _ _ _ _ _ => rfl)
    (fun _ => h.perm_columnsOf fun _ _ _ _ _ => rfl)
  refine h.perm_columnsOf fun s hs hname htable hcolumn => ?_
  refine TypedSource.isMeant_uncataloged htable ?_ ht
  rw [hname]
  exact Bool.eq_false_iff.2 fun hq => hQ (.here hq hs hname htable hcolumn)

/-! ## Scopes -/

/-- What a reference with the property finds in the first scope, it finds in the second. -/
def Sees (Q : ColumnRef → Prop) (levels levels' : List Level) : Prop :=
  ∀ ref, Q ref → ∀ span position seen seen' t,
    lookupFrom ref.schema ref.table ref.column span levels position seen = .ok t →
    lookupFrom ref.schema ref.table ref.column span levels' position seen' = .ok t

theorem Sees.nil (Q : ColumnRef → Prop) (levels' : List Level) : Sees Q [] levels' :=
  fun _ _ _ _ _ _ _ h => by cases h

theorem Sees.cons {R : ColumnRef → Prop} {outer' : List Level} (hl : Alike Q level level')
    (h : Sees R outer outer')
    (hR : ∀ ref, Q ref → ∀ position, level.found ref position = [] → R ref) :
    Sees Q (level :: outer) (level' :: outer') := by
  intro ref hQ span position seen seen' t ht
  have hperm := hl ref hQ position
  have hR := hR ref hQ position
  unfold found at hperm hR
  rw [lookupFrom] at ht ⊢
  cases hf : level.hits ref.schema ref.table ref.column position with
  | nil =>
    rw [hf] at ht hperm hR
    rw [map_eq_nil_iff.1 hperm.nil_eq.symm]
    exact h ref (hR rfl) span .other _ _ t ht
  | cons a rest =>
    rw [hf] at ht hperm
    cases rest with
    | nil =>
      obtain ⟨b, hb, hab⟩ := map_eq_singleton_iff.1 (perm_singleton.1 hperm.symm)
      rw [hb]
      dsimp only at ht ⊢
      rw [hab]
      exact ht
    | cons => cases ht

/-- The scopes differ in the outermost level, where the second is without the name in the catalog.
-/
inductive UncatalogsOutermost (visible : String) (name : QualifiedName) :
    List Level → List Level → Prop
  | here {level level' : Level} : Uncatalogs visible name level level' →
      UncatalogsOutermost visible name [level] [level']
  | push (level : Level) {outer outer' : List Level} :
      UncatalogsOutermost visible name outer outer' →
      UncatalogsOutermost visible name (level :: outer) (level :: outer')

theorem UncatalogsOutermost.sees {levels' : List Level}
    (h : UncatalogsOutermost visible name levels levels') :
    Sees (fun ref => ¬ref.QualifiesOutermost visible name levels) levels levels' := by
  induction h with
  | here h => exact .cons h.alike (.nil (fun _ => True) []) fun _ _ _ _ => trivial
  | push level _ ih =>
    refine .cons (.refl _ level) ih fun ref hQ position hnone hout => hQ (.outside ?_ hout)
    rw [found_of_qualifies hout.qualifies level .other position, hnone]

end Level

end SqlTyping
