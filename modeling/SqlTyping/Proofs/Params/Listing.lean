import Mathlib.Data.Finset.Lattice.Lemmas
import SqlTyping.Proofs.Params.Outline
import SqlTyping.Proofs.Repetition

/-!
# The list of all parameters

`Interface.allParams` lists the occurrences in an interface and in all queries inside it, and no
others (`Interface.mem_listed_allParams`). If occurrences are told apart by where they start, it
lists each of them once (`Interface.nodup_allParams`).
-/

namespace SqlTyping

open Repetition List

variable {m : Mention} {q : Interface} {name : String}

/-! ## Lists of parameters -/

namespace Param

variable {τ : Type} {more params : List (Param τ)} {union : List τ → τ} {p : Param τ}

/-- All occurrences in a list of parameters. -/
def listed (params : List (Param τ)) : List Mention :=
  params.flatMap fun p => p.spans.map (Mention.mk p.name)

theorem mem_listed : m ∈ listed params ↔ ∃ p ∈ params, p.name = m.name ∧ m.span ∈ p.spans := by
  simp only [listed, mem_flatMap, mem_map]
  constructor
  · rintro ⟨p, hp, span, hs, rfl⟩
    exact ⟨p, hp, rfl, hs⟩
  · rintro ⟨p, hp, hn, hs⟩
    exact ⟨p, hp, m.span, hs, by rw [hn]⟩

theorem listed_cons (p : Param τ) (params : List (Param τ)) :
    listed (p :: params) = p.spans.map (Mention.mk p.name) ++ listed params := rfl

theorem listed_append (a b : List (Param τ)) : listed (a ++ b) = listed a ++ listed b :=
  flatMap_append

theorem mem_spans_merge {q : Param τ} {span : Span} :
    span ∈ (p.merge union q).spans ↔ span ∈ p.spans ∨ span ∈ q.spans := by
  rw [merge, mem_eraseReps, mem_mergeSort, mem_append]

theorem mem_listed_put (union : List τ → τ) :
    m ∈ listed (put union p params) ↔ m ∈ listed params ∨ m ∈ listed [p] := by
  induction params with
  | nil => simp [put, listed]
  | cons q rest ih =>
    rw [put]
    split
    · next h =>
      have hname : q.name = p.name := eq_of_beq h
      have hmerge : (q.merge union p).name = q.name := rfl
      simp only [listed_cons, mem_append, mem_map, mem_spans_merge, hmerge, hname]
      simp only [listed, flatMap_nil, not_mem_nil, or_false, or_and_right, exists_or]
      exact or_right_comm
    · rw [listed_cons, mem_append, ih, listed_cons q, mem_append, or_assoc]

theorem mem_listed_insert :
    m ∈ listed (insert union params p) ↔ m ∈ listed params ∨ m ∈ listed [p] := by
  rw [← mem_listed_put union, mem_listed, mem_listed, insert]
  simp only [mem_mergeSort]

theorem mem_listed_insertAll :
    m ∈ listed (insertAll union params more) ↔ m ∈ listed params ∨ m ∈ listed more := by
  induction more generalizing params with
  | nil => simp [insertAll, listed]
  | cons p rest ih =>
    have hstep : insertAll union params (p :: rest) =
        insertAll union (insert union params p) rest := rfl
    rw [hstep, ih, mem_listed_insert, or_assoc, ← mem_append]
    simp [listed]

/-- The occurrences are in order, none repeats the one before it, and there is one. -/
structure Tidy (p : Param τ) : Prop where
  sorted : p.spans.Pairwise fun a b => a.start ≤ b.start
  chain : p.spans.IsChain (· ≠ ·)
  occurs : p.spans ≠ []

theorem Tidy.merge (union : List τ → τ) (hp : p.Tidy) (q : Param τ) : (p.merge union q).Tidy where
  sorted := by
    refine List.Pairwise.sublist (eraseReps_sublist _) ?_
    have hsort := @pairwise_mergeSort Span (fun a b => decide (a.start ≤ b.start))
      (by simpa using fun a b c => Nat.le_trans) (by simpa using fun a b => Nat.le_total _ _)
      (p.spans ++ q.spans)
    simpa using hsort
  chain := isChain_eraseReps _
  occurs := by
    obtain ⟨span, hspan⟩ := exists_mem_of_ne_nil _ hp.occurs
    exact ne_nil_of_mem (mem_spans_merge.2 (.inl hspan))

/-- Tidy parameters that are mentioned nowhere are none. -/
theorem eq_nil_of_listed (h : ∀ p ∈ params, p.Tidy) (hl : listed params = []) : params = [] := by
  refine eq_nil_iff_forall_not_mem.2 fun p hp => ?_
  obtain ⟨span, hspan⟩ := exists_mem_of_ne_nil _ (h p hp).occurs
  have hm : Mention.mk p.name span ∈ listed params := mem_listed.2 ⟨p, hp, rfl, hspan⟩
  rw [hl] at hm
  cases hm

/-- A property that entries for one name keep when they are merged. -/
class EntryLaw (union : List τ → τ) (H : Param τ → Prop) : Prop where
  merge {p q : Param τ} : p.name = q.name → H p → H q → H (p.merge union q)

instance (union : List τ → τ) : EntryLaw union Tidy where
  merge _ hp _ := hp.merge union _

theorem forall_put {H : Param τ → Prop} [EntryLaw union H] (h : ∀ q ∈ params, H q) (hp : H p) :
    ∀ q ∈ put union p params, H q := by
  induction params with
  | nil => simpa [put] using hp
  | cons q rest ih =>
    obtain ⟨hq, hrest⟩ := forall_mem_cons.1 h
    rw [put]
    split
    · next hname =>
      exact forall_mem_cons.2 ⟨EntryLaw.merge (eq_of_beq hname) hq hp, hrest⟩
    · exact forall_mem_cons.2 ⟨hq, ih hrest⟩

theorem forall_insert {H : Param τ → Prop} [EntryLaw union H] (h : ∀ q ∈ params, H q) (hp : H p) :
    ∀ q ∈ insert union params p, H q :=
  fun q hq => forall_put h hp q (mem_mergeSort.1 hq)

theorem forall_insertAll {H : Param τ → Prop} [EntryLaw union H]
    (h : ∀ q ∈ params, H q) (hmore : ∀ q ∈ more, H q) :
    ∀ q ∈ insertAll union params more, H q :=
  foldlRecOn (motive := fun params => ∀ q ∈ params, H q) more _ h fun _ h p hp =>
    forall_insert h (hmore p hp)

theorem filter_put (union : List τ → τ) (p : Param τ) (params : List (Param τ)) (name : String) :
    (put union p params).filter (·.name == name) =
      if p.name == name then put union p (params.filter (·.name == name))
      else params.filter (·.name == name) := by
  induction params with
  | nil => by_cases h : p.name == name <;> simp [put, h]
  | cons q rest ih =>
    by_cases hqp : q.name == p.name
    · have hname : (q.merge union p).name = p.name := eq_of_beq hqp
      by_cases h : p.name == name <;> simp [put, h, hname, eq_of_beq hqp]
    · by_cases hq : q.name == name
      · have h : ¬p.name == name := fun h => hqp (eq_of_beq h ▸ hq)
        rw [if_neg h] at ih ⊢
        simp [put, hqp, hq, ih]
      · simp [put, hqp, hq, ih]

/-- A name that has at most one entry keeps one, with all that is merged into it. -/
theorem filter_insertAll (h : (params.filter (·.name == name)).length ≤ 1) :
    (insertAll union params more).filter (·.name == name) =
      (more.filter (·.name == name)).foldl (flip (put union)) (params.filter (·.name == name)) := by
  induction more generalizing params with
  | nil => rfl
  | cons p rest ih =>
    have hput := filter_put union p params name
    have hone : ((put union p params).filter (·.name == name)).length ≤ 1 := by
      rw [hput]
      split
      · next hp =>
        cases hl : params.filter (·.name == name) with
        | nil => exact Nat.le_refl _
        | cons q more =>
          have hq := (mem_filter.1 (hl ▸ mem_cons_self : q ∈ params.filter _)).2
          rw [hl] at h
          rw [put, if_pos (by rwa [eq_of_beq hp])]
          exact h
      · exact h
    -- The order of entries does not matter where there is at most one.
    have hsort : (insert union params p).filter (·.name == name) =
        (put union p params).filter (·.name == name) := by
      have hperm := (mergeSort_perm (put union p params)
        fun a b => a.position ≤ b.position).filter (·.name == name)
      generalize (put union p params).filter _ = l at hperm hone
      match l, hone with
      | [], _ => exact perm_nil.1 hperm
      | [q], _ => exact perm_singleton.1 hperm
    refine (ih (hsort ▸ hone)).trans ?_
    rw [hsort, hput, filter_cons]
    split <;> rfl

/-- One entry for each name, and each of them tidy. -/
structure TidyList (params : List (Param τ)) : Prop where
  names : (params.map Param.name).Nodup
  each : ∀ p ∈ params, p.Tidy

namespace TidyList

theorem nil : TidyList ([] : List (Param τ)) := ⟨nodup_nil, by simp⟩

theorem mem_names_put :
    name ∈ (put union p params).map Param.name ↔ name ∈ params.map Param.name ∨ name = p.name := by
  induction params with
  | nil => simp [put]
  | cons q rest ih =>
    rw [put]
    split
    · next h =>
      have hname : q.name = p.name := eq_of_beq h
      have hmerge : (q.merge union p).name = q.name := rfl
      simp only [map_cons, mem_cons, hmerge, hname]
      tauto
    · simp only [map_cons, mem_cons, ih, or_assoc]

theorem nodup_names_put
    (h : (params.map Param.name).Nodup) : ((put union p params).map Param.name).Nodup := by
  induction params with
  | nil => simp [put]
  | cons q rest ih =>
    obtain ⟨hq, hrest⟩ := nodup_cons.1 h
    rw [put]
    split
    · exact h
    · next hne =>
      refine nodup_cons.2 ⟨fun hm => ?_, ih hrest⟩
      rcases mem_names_put.1 hm with hm | hm
      · exact hq hm
      · exact hne (beq_iff_eq.2 hm)

theorem insert (union : List τ → τ) (h : TidyList params)
    (hp : p.Tidy) : TidyList (Param.insert union params p) where
  names := ((mergeSort_perm _ _).map _).nodup_iff.2 (nodup_names_put h.names)
  each := forall_insert h.each hp

theorem insertAll (union : List τ → τ) (h : TidyList params)
    (hm : ∀ p ∈ more, p.Tidy) : TidyList (Param.insertAll union params more) :=
  foldlRecOn more _ h fun _ h p hp => h.insert union (hm p hp)

end TidyList

theorem nodup_of_sorted {spans : List Span} (hs : spans.Pairwise fun a b => a.start ≤ b.start)
    (hc : spans.IsChain (· ≠ ·)) (hu : ∀ a ∈ spans, ∀ b ∈ spans, a.start = b.start → a = b) :
    spans.Nodup := by
  induction spans with
  | nil => exact nodup_nil
  | cons a rest ih =>
    obtain ⟨ha, hrest⟩ := pairwise_cons.1 hs
    refine nodup_cons.2 ⟨fun hm => ?_, ih hrest hc.of_cons fun b hb c hc => ?_⟩
    · cases rest with
      | nil => simp at hm
      | cons b rest =>
        -- The next occurrence starts later, and so do all after it.
        have hne : a ≠ b := (isChain_cons_cons.1 hc).1
        have hab : a.start ≤ b.start := ha b (by simp)
        have hba : b.start ≤ a.start := by
          rcases mem_cons.1 hm with rfl | hm
          · exact Nat.le_refl _
          · exact (pairwise_cons.1 hrest).1 a hm
        exact hne (hu a (by simp) b (by simp) (Nat.le_antisymm hab hba))
    · exact hu b (by simp [hb]) c (by simp [hc])

/-- If occurrences are told apart by where they start, no occurrence is listed twice. -/
theorem nodup_listed (h : TidyList params)
    (hu : ∀ m ∈ listed params, ∀ n ∈ listed params, m.span.start = n.span.start → m = n) :
    ((listed params).map Mention.span).Nodup := by
  have hspans : ∀ p ∈ params, p.spans.Nodup := by
    intro p hp
    refine nodup_of_sorted (h.each p hp).sorted (h.each p hp).chain fun a ha b hb hab => ?_
    have hmention := hu ⟨p.name, a⟩ (mem_listed.2 ⟨p, hp, rfl, ha⟩) ⟨p.name, b⟩
      (mem_listed.2 ⟨p, hp, rfl, hb⟩) hab
    exact (Mention.mk.injEq .. ▸ hmention).2
  have hnodup : (listed params).Nodup := by
    refine nodup_flatMap.2 ⟨fun p hp => ?_, ?_⟩
    · exact (hspans p hp).map fun a b hab => (Mention.mk.injEq .. ▸ hab).2
    · refine (pairwise_map.1 h.names).imp fun {p q} hpq m hp hq => ?_
      obtain ⟨a, _, rfl⟩ := mem_map.1 hp
      obtain ⟨b, _, hb⟩ := mem_map.1 hq
      exact hpq (Mention.mk.injEq .. ▸ hb).1.symm
  exact hnodup.map_on fun m hm n hn hmn => hu m hm n hn (by rw [hmn])

end Param

/-! ## Interfaces -/

mutual

/-- The entries of an interface, and then those of the queries inside it. -/
def Interface.entries : Interface → List (Param TypeExpr)
  | ⟨sources, params, _, _⟩ => params ++ Source.listEntries sources

def Source.entries : Source → List (Param TypeExpr)
  | .query _ q _ => q.entries
  | .table .. | .values .. => []

def Source.listEntries : List Source → List (Param TypeExpr)
  | [] => []
  | source :: rest => source.entries ++ Source.listEntries rest

end

mutual

/-- All entries are merged in, one after the other. -/
theorem Interface.collectParams_eq (q : Interface) (params : List (Param TypeExpr)) :
    q.collectParams params = Param.insertAll TypeExpr.unionOf params q.entries := by
  match q with
  | ⟨sources, own, _, _⟩ =>
    rw [Interface.collectParams, Source.collectParamsList_eq, Interface.entries, Param.insertAll,
      Param.insertAll, Param.insertAll, foldl_append]

theorem Source.collectParams_eq (source : Source) (params : List (Param TypeExpr)) :
    source.collectParams params = Param.insertAll TypeExpr.unionOf params source.entries := by
  match source with
  | .query _ q _ => exact q.collectParams_eq params
  | .table .. | .values .. => rfl

theorem Source.collectParamsList_eq (sources : List Source) (params : List (Param TypeExpr)) :
    Source.collectParamsList sources params =
      Param.insertAll TypeExpr.unionOf params (Source.listEntries sources) := by
  match sources with
  | [] => rfl
  | source :: rest =>
    rw [Source.collectParamsList, Source.collectParamsList_eq, Source.collectParams_eq,
      Source.listEntries, Param.insertAll, Param.insertAll, Param.insertAll, foldl_append]

end

/-- The occurrences in an interface and in the queries inside it. -/
def Interface.mentions (q : Interface) : Finset Mention := (Param.listed q.entries).toFinset

def Source.mentions (source : Source) : Finset Mention := (Param.listed source.entries).toFinset

section

variable (H : Param TypeExpr → Prop)

/-- Do all entries have the property, also in the queries inside? -/
def Interface.Holds (q : Interface) : Prop := ∀ p ∈ q.entries, H p

def Source.Holds (source : Source) : Prop := ∀ p ∈ source.entries, H p

end

/-- Are all parameters tidy, also in the queries inside? -/
abbrev Interface.Tidy (q : Interface) : Prop := q.Holds Param.Tidy

theorem Interface.allParams_eq (q : Interface) :
    q.allParams = Param.insertAll TypeExpr.unionOf [] q.entries :=
  q.collectParams_eq []

theorem Interface.Holds.allParams {H : Param TypeExpr → Prop} [Param.EntryLaw TypeExpr.unionOf H]
    (h : q.Holds H) : ∀ p ∈ q.allParams, H p :=
  q.allParams_eq ▸ Param.forall_insertAll nofun h

theorem Interface.mem_listed_allParams : m ∈ Param.listed q.allParams ↔ m ∈ q.mentions := by
  rw [allParams_eq, Param.mem_listed_insertAll]
  simp [Param.listed, mentions]

theorem Interface.nodup_allParams (h : q.Tidy)
    (hu : ∀ m ∈ q.mentions, ∀ n ∈ q.mentions, m.span.start = n.span.start → m = n) :
    ((Param.listed q.allParams).map Mention.span).Nodup := by
  have htidy : Param.TidyList q.allParams := q.allParams_eq ▸ Param.TidyList.nil.insertAll _ h
  refine Param.nodup_listed htidy fun m hm n hn => ?_
  exact hu m (Interface.mem_listed_allParams.1 hm) n (Interface.mem_listed_allParams.1 hn)

end SqlTyping
