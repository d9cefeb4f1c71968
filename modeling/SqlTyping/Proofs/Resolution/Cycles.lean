import SqlTyping.Proofs.Resolution.Views

/-!
# Cycles of views

Views that read each other form a graph (`Opens`). An interface can be resolved only if no cycle of
this graph can be reached from the views it reads, since those views settle. The other way round,
the failure of a view that reads itself is a cycle: the view is open, and what is open leads to it.

Open views are pairwise different, so there are never more of them than the catalog has names of
views. `readWithin` reads views with this bound in place of the one on records.
-/

open Relation (TransGen ReflTransGen)

namespace SqlTyping

open List

variable {name : QualifiedName} {opened : List QualifiedName} {columns : List Column}
  {q : Interface} {query : Interface → Resolve TypedInterface} {text : String} {e : LoadError}
  {depth : Nat}

/-- From the view, a view that reads itself can be reached. -/
def Store.LeadsToCycle (store : Store) (name : QualifiedName) : Prop :=
  ∃ m, ReflTransGen (Opens store) name m ∧ TransGen (Opens store) m m

/-- The interface reads a view that leads to a cycle. -/
def Interface.ReachesCycle (store : Store) (q : Interface) : Prop :=
  ∃ name, q.Reads store name ∧ store.LeadsToCycle name

theorem Opens.leadsToCycle {store : Store} {inner : QualifiedName} (h : Opens store name inner)
    (hinner : store.LeadsToCycle inner) : store.LeadsToCycle name := by
  obtain ⟨m, hreach, hcycle⟩ := hinner
  exact ⟨m, hreach.head h, hcycle⟩

section

variable {store : Store} {mode : ResolveMode}

/-! ## Success -/

theorem Settles.not_leadsToCycle {c : List (Field SqlType)} (h : Settles store mode name c) :
    ¬store.LeadsToCycle name := by
  rintro ⟨m, hreach, hcycle⟩
  have hacc : Acc (Function.swap (Opens store)) m := by
    clear hcycle
    induction hreach with
    | refl => exact h.acc
    | tail _ hopens ih => exact ih.inv hopens
  exact not_transGen_of_acc hacc hcycle

theorem Interface.not_reachesCycle_of_resolve {typed : TypedInterface}
    (h : q.resolve store mode = .ok typed) : ¬q.ReachesCycle store := by
  rintro ⟨name, hreads, hcycle⟩
  obtain ⟨-, hsettles⟩ := q.settled_of_resolveIn
    (fun name _ text columns hview => hview.independent.readsSettled) settledViews_nil h
  obtain ⟨c, hc⟩ := hsettles name hreads
  exact hc.not_leadsToCycle hcycle

/-! ## Failure -/

/-- Only if `X` does the first fail for a view that reads itself. The second does not count. -/
def Comparison.blames (X : Prop) : Comparison :=
  .failing (fun e => e.code = .viewCycle → X) fun _ _ h => h

theorem Comparison.reflexive_blames (X : Prop) : (Comparison.blames X).Reflexive :=
  fun _ _ h e he hcode => absurd hcode (h e he)

/-- Reading a view fails if the view is open, its query fails or cannot be parsed, or the columns
that take its place have no types. -/
theorem viewColumns_eq_error {views : ViewColumns}
    (he : ((viewColumns store mode opened query name text columns).run.run views).1 = .error e) :
    name ∈ opened ∧ e.code = .viewCycle ∨
      (name ∉ opened ∧ ∃ statement, parse text = .ok statement ∧
        ((query (statement.interface [])).run.run views).1 = .error e) ∨
      e.code = .viewParseError ∨ store.typeColumns columns = .error e := by
  rw [viewColumns_run] at he
  split at he
  · cases he
  · split at he
    · next hm =>
      cases he
      exact .inl ⟨contains_iff_mem.1 hm, rfl⟩
    · next hm =>
      refine .inr ?_
      split at he
      · next statement hparse =>
        refine .inl ⟨fun h => hm (contains_iff_mem.2 h), statement, hparse, ?_⟩
        split at he
        · cases he
        · next hrun =>
          cases he
          rw [hrun]
      · split at he
        · cases he
        · next htypes =>
          cases he
          exact .inr (.inr htypes)
      · cases he
        exact .inr (.inl rfl)

/-- Reading a view fails for a cycle only if the view leads to one. -/
theorem readView_blames (ha : Ample store depth opened) (hview : store.IsView name text columns)
    (ho : ∀ n ∈ opened, TransGen (Opens store) n name) :
    (Comparison.blames (store.LeadsToCycle name)).act
      (readView store mode depth opened name text columns)
      (readView store mode depth opened name text columns) := by
  induction depth generalizing opened name text columns with
  | zero => exact absurd ha.pos (by omega)
  | succ depth ih =>
    intro views e he hcode
    rw [readView] at he
    rcases viewColumns_eq_error he with
      ⟨hm, -⟩ | ⟨hnew, statement, hparse, hquery⟩ | hsyntax | htypes
    · exact ⟨name, .refl, ho name hm⟩
    · have hblames : (Comparison.blames (store.LeadsToCycle name)).act
          ((statement.interface []).resolveIn
            ⟨store, mode, readView store mode depth (opened ++ [name])⟩ [])
          ((statement.interface []).resolveIn
            ⟨store, mode, readView store mode depth (opened ++ [name])⟩ []) :=
        resolveIn_readers (Comparison.reflexive_blames _) mode hview hparse
          fun inner hopens text' columns' hview' views e he hcode => hopens.leadsToCycle
            (ih (ha.opening hview.mem_records hnew) hview' (hopens.transGen ho) views e he hcode)
      exact hblames views e hquery hcode
    · cases hcode.symm.trans hsyntax
    · exact absurd hcode (store.typeColumns_noViewCycle columns e htypes)

theorem Interface.reachesCycle_of_resolve (h : q.resolve store mode = .error e)
    (hcode : e.code = .viewCycle) : q.ReachesCycle store := by
  have hblames : (Comparison.blames (q.ReachesCycle store)).act
      (q.resolveIn (.ofStore store mode) []) (q.resolveIn (.ofStore store mode) []) :=
    q.resolveIn_reading (Comparison.reflexive_blames _) mode
      fun name hreads text columns hview views e he hcode => ⟨name, hreads,
        readView_blames (ample_nil store) hview (fun n hm => by cases hm) views e he hcode⟩
  exact hblames [] e h hcode

end

/-! ## Open views -/

/-- The names of the views of a store, each once. -/
def Store.viewNames (s : Store) : List QualifiedName := (s.records.filterMap fun
    | .view name _ _ => some name
    | _ => none).eraseDups

/-- The columns of a view while the views `opened` are open and `limit` more may be. The query of a
view beyond this limit is not resolved: `beyond` stands in for it. -/
def readWithin (store : Store) (mode : ResolveMode) (beyond : Interface → Resolve TypedInterface) :
    (limit : Nat) → (opened : List QualifiedName) → ViewReader
  | 0, opened => viewColumns store mode opened beyond
  | limit + 1, opened => fun name text columns =>
    let inner : ResolveContext :=
      ⟨store, mode, readWithin store mode beyond limit (opened ++ [name])⟩
    viewColumns store mode opened (fun q => q.resolveIn inner []) name text columns

section

variable {store : Store} {mode : ResolveMode}

theorem Store.IsView.mem_viewNames (h : store.IsView name text columns) : name ∈ store.viewNames :=
  mem_eraseDups.2 (mem_filterMap.2 ⟨_, h.mem_records, rfl⟩)

/-- The query of a view matters only if the view is not open. -/
theorem viewColumns_congr {query' : Interface → Resolve TypedInterface}
    (columns : List Column)
    (h : name ∉ opened → ∀ statement, parse text = .ok statement →
      query (statement.interface []) = query' (statement.interface [])) :
    viewColumns store mode opened query name text columns =
      viewColumns store mode opened query' name text columns := by
  refine Resolve.ext fun views => ?_
  rw [viewColumns_run, viewColumns_run]
  split
  · rfl
  · split
    · rfl
    · next hm =>
      have hnew : name ∉ opened := by simpa using hm
      cases hparse : parse text with
      | ok statement => simp only [h hnew statement hparse]
      | error e => cases mode <;> rfl

/-- Views are never opened beyond the number of their names. -/
theorem readWithin_eq (beyond : Interface → Resolve TypedInterface) {limit : Nat}
    (ha : Ample store depth opened) (hviews : ∀ n ∈ opened, n ∈ store.viewNames)
    (hlimit : store.viewNames.length ≤ limit + opened.length)
    (hview : store.IsView name text columns) :
    readWithin store mode beyond limit opened name text columns =
      readView store mode depth opened name text columns := by
  induction limit generalizing depth opened name text columns with
  | zero =>
    obtain ⟨depth, rfl⟩ : ∃ d, depth = d + 1 := ⟨depth - 1, by have := ha.pos; omega⟩
    rw [readWithin, readView]
    refine viewColumns_congr columns fun hnew => ?_
    -- This view would be one more than there are names.
    have hnodup : (name :: opened).Nodup := nodup_cons.2 ⟨hnew, ha.nodup⟩
    have hsub : name :: opened ⊆ store.viewNames := cons_subset.2 ⟨hview.mem_viewNames, hviews⟩
    have hlen := hnodup.length_le_of_subset hsub
    rw [length_cons] at hlen
    omega
  | succ limit ih =>
    obtain ⟨depth, rfl⟩ : ∃ d, depth = d + 1 := ⟨depth - 1, by have := ha.pos; omega⟩
    rw [readWithin, readView]
    refine viewColumns_congr columns fun hnew statement hparse => ?_
    refine resolveIn_readers Comparison.reflexive_equal mode hview hparse
      fun inner _ text' columns' hview' =>
        ih (ha.opening hview.mem_records hnew) (fun n hm => ?_) ?_ hview'
    · rcases mem_append.1 hm with hm | hm
      · exact hviews n hm
      · rw [mem_singleton.1 hm]; exact hview.mem_viewNames
    · rw [length_append, length_singleton]
      omega

/-- An interface is resolved with no more open views at a time than there are names of views. -/
theorem Interface.resolveIn_within (q : Interface) (beyond : Interface → Resolve TypedInterface) :
    q.resolveIn ⟨store, mode, readWithin store mode beyond store.viewNames.length []⟩ [] =
      q.resolveIn (.ofStore store mode) [] :=
  q.resolveIn_reading Comparison.reflexive_equal mode fun _ _ _ _ hview =>
    readWithin_eq beyond (ample_nil store) (fun n hm => by cases hm) (by simp) hview

end

/-! ## Interfaces -/

/-- Cycles of views are found, and nothing else is taken for one. Whatever is done where one more
view would be open than there are names of views, the outcome is the same, so resolution never comes
there. An interface that is resolved reaches no cycle, and if resolution fails for a cycle, the
interface reaches one. -/
theorem Interface.resolve_viewCycle_exact (store : Store) (mode : ResolveMode) (q : Interface) :
    (∀ beyond, ((q.resolveIn ⟨store, mode, readWithin store mode beyond store.viewNames.length []⟩
        []).run.run []).1 = q.resolve store mode) ∧
      (∀ typed, q.resolve store mode = .ok typed → ¬q.ReachesCycle store) ∧
      ∀ e, q.resolve store mode = .error e → e.code = .viewCycle → q.ReachesCycle store := by
  refine ⟨fun beyond => ?_, fun typed h => not_reachesCycle_of_resolve h, fun e h hcode => ?_⟩
  · rw [q.resolveIn_within beyond]
    rfl
  · exact reachesCycle_of_resolve h hcode

/-- Two views that read each other. -/
def staffViews : Store := .ofRecords [
  .view ⟨some "public", "staff"⟩ "SELECT id FROM heads" [],
  .view ⟨some "public", "heads"⟩ "SELECT id FROM staff" []]

/-- `SELECT id FROM staff` -/
def staffIds : Interface where
  sources := [.table none "staff" none true ⟨15, 20⟩]
  params := []
  results := [⟨"id", .column none none "id" ⟨7, 9⟩, ⟨7, 9⟩⟩]
  nullableSources := []

theorem resolve_viewCycle_exact_staff :
    (∃ e, staffIds.resolve staffViews .lenient = .error e ∧ e.code = .viewCycle) ∧
      staffIds.ReachesCycle staffViews := by
  have herror : (match staffIds.resolve staffViews .lenient with
      | .error e => decide (e.code = .viewCycle)
      | .ok _ => false) = true := by decide +kernel
  cases h : staffIds.resolve staffViews .lenient with
  | ok typed => rw [h] at herror; cases herror
  | error e =>
    rw [h] at herror
    have hcode : e.code = .viewCycle := of_decide_eq_true herror
    exact ⟨⟨e, rfl, hcode⟩,
      (Interface.resolve_viewCycle_exact staffViews .lenient staffIds).2.2 e h hcode⟩

end SqlTyping
