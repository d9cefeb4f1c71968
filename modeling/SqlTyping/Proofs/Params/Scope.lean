import SqlTyping.Proofs.Params.Ledger
import SqlTyping.Proofs.Params.Listing

/-!
# The ledger of a scope

`Scope.ledger` reads off a scope what it says about parameters. What changes a scope changes its
ledger in the same way: marking names (`Scope.ledger_markUsed`), opening a scope inside
(`Scope.holding_visible`) and ending it (`Scope.mentions_finish`).
-/

namespace SqlTyping

open List
open Text (fold)

variable {H : Param TypeExpr → Prop} {sources outer : List Source} {q : Interface} {source : Source}
  {name : String} {s : Scope}

/-! ## Changes to interfaces -/

theorem Source.listEntries_append (a b : List Source) :
    listEntries (a ++ b) = listEntries a ++ listEntries b := by
  induction a with
  | nil => rfl
  | cons first rest ih => rw [cons_append, listEntries, ih, listEntries, append_assoc]

theorem Source.forall_mem_listEntries :
    (∀ p ∈ listEntries sources, H p) ↔ ∀ source ∈ sources, source.Holds H := by
  induction sources with
  | nil => simp [listEntries]
  | cons source rest ih =>
    rw [listEntries, forall_mem_append, ih, forall_mem_cons]
    rfl

namespace Interface

theorem entries_eq (q : Interface) : q.entries = q.params ++ Source.listEntries q.sources := by
  cases q
  rfl

theorem entries_addSource (q : Interface) (source : Source) :
    (q.addSource source).entries = q.entries ++ source.entries := by
  obtain ⟨sources, params, results, nullable⟩ := q
  simp [addSource, entries, Source.listEntries_append, Source.listEntries]

theorem mentions_addSource (q : Interface) (source : Source) :
    (q.addSource source).mentions = q.mentions ∪ source.mentions := by
  rw [mentions, entries_addSource, Param.listed_append, toFinset_append]
  rfl

theorem holds_iff (q : Interface) : q.Holds H ↔
    (∀ p ∈ q.params, H p) ∧ ∀ source ∈ q.sources, source.Holds H := by
  rw [Holds, entries_eq, forall_mem_append, Source.forall_mem_listEntries]

theorem Holds.addSource (h : q.Holds H) (hs : source.Holds H) : (q.addSource source).Holds H := by
  rw [Holds, entries_addSource]
  exact forall_mem_append.2 ⟨h, hs⟩

theorem mentions_addParam (q : Interface) (p : Param TypeExpr) :
    (q.addParam p).mentions = q.mentions ∪ (Param.listed [p]).toFinset := by
  obtain ⟨sources, params, results, nullable⟩ := q
  ext m
  simp only [addParam, mentions, entries, Param.listed_append, toFinset_append,
    Finset.mem_union, mem_toFinset, Param.mem_listed_insert]
  exact or_right_comm

/-- Result columns and nullable sources have no parameters. -/
theorem entries_congr {r : Interface} (hs : q.sources = r.sources) (hp : q.params = r.params) :
    q.entries = r.entries := by
  cases q
  cases r
  cases hs
  cases hp
  rfl

theorem entries_renameResults (q : Interface) (names : List String) :
    (q.renameResults names).entries = q.entries :=
  entries_congr rfl rfl

theorem mentions_renameResults (q : Interface) (names : List String) :
    (q.renameResults names).mentions = q.mentions := by
  rw [mentions, entries_renameResults, mentions]

end Interface

namespace Source

theorem entries_withResult (isResult : Bool) (source : Source) :
    (source.withResult isResult).entries = source.entries := by
  cases source <;> rfl

theorem entries_aliased (asName : Option TableAlias) (source : Source) :
    (source.aliased asName).entries = source.entries := by
  cases asName with
  | none => rfl
  | some asName =>
    cases source with
    | query name q isResult => exact q.entries_renameResults (Extract.names asName.columns)
    | table => rfl
    | values => rfl

/-- Sources that a name may stand for. -/
structure Nameable (H : Param TypeExpr → Prop) (source : Source) : Prop where
  isNamedQuery : source.isNamedQuery = true
  holds : source.Holds H

theorem isNamed_iff : source.isNamed name = true ↔ fold source.name = fold name := Text.eqFold_iff

/-- What the first source with a name holds. -/
def holding : List Source → List Char → Option (Finset Mention)
  | [], _ => none
  | source :: rest, key => if fold source.name = key then some source.mentions else holding rest key

theorem holding_append (a b : List Source) (key : List Char) :
    holding (a ++ b) key = (holding a key).or (holding b key) := by
  induction a with
  | nil => rfl
  | cons source rest ih =>
    rw [cons_append, holding, holding]
    split
    · rfl
    · exact ih

theorem holding_isSome :
    (holding sources (fold name)).isSome ↔ sources.any (·.isNamed name) = true := by
  induction sources with
  | nil => simp [holding]
  | cons source rest ih =>
    rw [holding, any_cons, Bool.or_eq_true, isNamed_iff]
    split
    · next h => simp [h]
    · next h => simp [h, ih]

theorem holding_find? (h : ∀ source ∈ sources, source.Nameable H) (name : String) :
    (sources.find? fun source => source.isNamedQuery && source.isNamed name).map mentions =
      holding sources (fold name) := by
  induction sources with
  | nil => rfl
  | cons source rest ih =>
    obtain ⟨hs, hrest⟩ := forall_mem_cons.1 h
    rw [find?_cons, hs.isNamedQuery, Bool.true_and, holding]
    by_cases hn : fold source.name = fold name
    · rw [isNamed_iff.2 hn, if_pos hn]
      rfl
    · rw [Bool.eq_false_iff.2 (mt isNamed_iff.1 hn), if_neg hn]
      exact ih hrest

theorem holding_filter (sources : List Source) (name : String) {key : List Char}
    (h : key ≠ fold name) :
    holding (sources.filter (!·.isNamed name)) key = holding sources key := by
  induction sources with
  | nil => rfl
  | cons source rest ih =>
    by_cases hn : fold source.name = fold name
    · rw [filter_cons_of_neg (by simpa using isNamed_iff.2 hn), ih, holding,
        if_neg (fun heq : fold source.name = key => h (heq ▸ hn))]
    · rw [filter_cons_of_pos (by simpa using mt isNamed_iff.1 hn), holding, ih, holding]

end Source

/-! ## Ledgers of scopes -/

abbrev Mergeable (H : Param TypeExpr → Prop) : Prop := Param.EntryLaw TypeExpr.unionOf H

def NamedQuery.entry (n : NamedQuery) : Ledger.Entry :=
  ⟨fold n.source.name, n.source.mentions, n.used⟩

namespace Scope

def ledger (s : Scope) : Ledger where
  kept := s.interface.mentions
  named := s.named.map NamedQuery.entry
  outer := Source.holding s.outer
  marks := (s.usedOuter.map fold).toFinset

/-- Merging entries keeps the property, and what names stand for has it. -/
structure Proper (H : Param TypeExpr → Prop) (s : Scope) : Prop where
  merge : Mergeable H
  named : ∀ n ∈ s.named, n.source.Nameable H
  outer : ∀ source ∈ s.outer, source.Nameable H

theorem proper_fresh [Mergeable H] (h : ∀ source ∈ outer, source.Nameable H)
    (expected : List TypeExpr) : (fresh outer expected).Proper H :=
  ⟨‹_›, by simp [fresh], h⟩

theorem ledger_fresh (outer : List Source) (expected : List TypeExpr) :
    (fresh outer expected).ledger = .fresh (Source.holding outer) := by
  rw [ledger, Ledger.fresh]
  congr 1

theorem lookup_named (named : List NamedQuery) (key : List Char) :
    Ledger.lookup key (named.map NamedQuery.entry) =
      Source.holding (named.map NamedQuery.source) key := by
  induction named with
  | nil => rfl
  | cons n rest ih =>
    rw [map_cons, map_cons, Ledger.lookup, Source.holding, ih]
    rfl

/-! ### Names -/

theorem find?_named (named : List NamedQuery) (name : String) :
    ((named.find? (·.source.isNamed name)).map fun n => n.source.mentions) =
      Ledger.lookup (fold name) (named.map NamedQuery.entry) := by
  induction named with
  | nil => rfl
  | cons n rest ih =>
    rw [find?_cons, map_cons, Ledger.lookup]
    by_cases hn : n.entry.key = fold name
    · rw [Source.isNamed_iff.2 hn, if_pos hn]
      rfl
    · rw [Bool.eq_false_iff.2 (mt Source.isNamed_iff.1 hn), if_neg hn]
      exact ih

theorem findNamed?_eq (h : s.Proper H) (name : String) :
    (s.findNamed? name).map Source.mentions = s.ledger.find? (fold name) := by
  have houter : (s.outer.find? fun source => source.isNamedQuery && source.isNamed name).map
      Source.mentions = s.ledger.outer (fold name) := Source.holding_find? h.outer name
  rw [Ledger.find?, ← houter, ledger, ← find?_named, findNamed?]
  cases s.named.find? (·.source.isNamed name) <;> rfl

theorem nameable_of_findNamed? (h : s.Proper H) (hf : s.findNamed? name = some source) :
    source.Nameable H := by
  rw [findNamed?] at hf
  split at hf
  · next n hn =>
    cases hf
    exact h.named n (mem_of_find?_eq_some hn)
  · exact h.outer source (mem_of_find?_eq_some hf)

/-- The visible sources with one more, unless its name is taken. -/
def see (seen : List Source) (source : Source) : List Source :=
  if seen.any (·.isNamed source.name) then seen else seen ++ [source]

theorem visible_eq (s : Scope) : s.visible = s.outer.foldl see (s.named.map NamedQuery.source) :=
  rfl

theorem mem_foldl_see {seen : List Source} (h : source ∈ outer.foldl see seen) :
    source ∈ seen ∨ source ∈ outer := by
  induction outer generalizing seen with
  | nil => exact .inl h
  | cons first rest ih =>
    rcases ih h with h | h
    · unfold see at h
      split at h
      · exact .inl h
      · rcases mem_append.1 h with h | h
        · exact .inl h
        · exact .inr (by simp [mem_singleton.1 h])
    · exact .inr (by simp [h])

theorem nameable_visible (h : s.Proper H) : ∀ source ∈ s.visible, source.Nameable H := by
  intro source hs
  rcases mem_foldl_see hs with hs | hs
  · obtain ⟨n, hn, rfl⟩ := mem_map.1 hs
    exact h.named n hn
  · exact h.outer source hs

theorem holding_foldl_see (outer seen : List Source) (key : List Char) :
    Source.holding (outer.foldl see seen) key =
      (Source.holding seen key).or (Source.holding outer key) := by
  induction outer generalizing seen with
  | nil => simp [Source.holding]
  | cons first rest ih =>
    rw [foldl_cons, ih, see, Source.holding]
    split
    · next hany =>
      -- The name is taken, so the first source is found under no name.
      by_cases hk : fold first.name = key
      · obtain ⟨m, hm⟩ := Option.isSome_iff_exists.1 (Source.holding_isSome.2 hany)
        rw [if_pos hk, ← hk, hm]
        rfl
      · rw [if_neg hk]
    · rw [Source.holding_append, Option.or_assoc, Source.holding, Source.holding]
      split <;> rfl

/-- In a nested scope a name stands for what it stands for in the scope itself. -/
theorem holding_visible (s : Scope) : Source.holding s.visible = s.ledger.find? := by
  funext key
  rw [visible_eq, holding_foldl_see, Ledger.find?, ledger, lookup_named]

/-! ### Marks -/

theorem entry_useFirst (name : String) (named : List NamedQuery) :
    (useFirst name named).map NamedQuery.entry =
      Ledger.useAll {fold name} (named.map NamedQuery.entry) := by
  induction named with
  | nil => rfl
  | cons n rest ih =>
    rw [useFirst, map_cons, Ledger.useAll]
    by_cases hn : n.entry.key = fold name
    · rw [if_pos (Source.isNamed_iff.2 hn), if_pos (by simp [hn]), ← hn, Finset.erase_singleton,
        Ledger.useAll_empty]
      rfl
    · rw [if_neg (mt Source.isNamed_iff.1 hn), if_neg (by simpa using hn), map_cons, ih]

theorem ledger_markUsed (s : Scope) (name : String) :
    (s.markUsed name).ledger = s.ledger.mark {fold name} := by
  have hnames : (s.named.any (·.source.isNamed name)) = true ↔ fold name ∈ s.ledger.names := by
    simp [Source.isNamed_iff, ledger, Ledger.names, NamedQuery.entry]
  rw [markUsed, Ledger.mark]
  split
  · next h =>
    rw [Finset.filter_false_of_mem (by simpa using hnames.1 h), Finset.union_empty]
    simp only [ledger, entry_useFirst]
  · next h =>
    have hnot := mt hnames.2 h
    rw [Finset.filter_true_of_mem (by simpa using hnot), Ledger.useAll_eq_self]
    · split
      · next hc =>
        have hmem : fold name ∈ s.ledger.marks := by
          simpa [ledger] using ⟨name, by simpa using hc, rfl⟩
        rw [Finset.union_eq_left.2 (by simpa using hmem)]
      · simp [ledger]
    · exact fun e he hk => hnot (Finset.mem_singleton.1 hk ▸ mem_map_of_mem he)

theorem ledger_foldl_markUsed (s : Scope) (names : List String) :
    (names.foldl markUsed s).ledger = s.ledger.mark (names.map fold).toFinset := by
  induction names generalizing s with
  | nil => simp [Ledger.mark_empty]
  | cons name rest ih =>
    rw [foldl_cons, ih, ledger_markUsed, Ledger.mark_mark]
    simp

theorem source_useFirst (name : String) (named : List NamedQuery) :
    (useFirst name named).map NamedQuery.source = named.map NamedQuery.source := by
  induction named with
  | nil => rfl
  | cons n rest ih =>
    rw [useFirst]
    split
    · rfl
    · rw [map_cons, ih, map_cons]

theorem mem_useFirst {named : List NamedQuery} {n : NamedQuery} (h : n ∈ useFirst name named) :
    ∃ n' ∈ named, n'.source = n.source := by
  have hsource := mem_map_of_mem (f := NamedQuery.source) h
  rw [source_useFirst] at hsource
  exact mem_map.1 hsource

theorem Proper.markUsed (h : s.Proper H) (name : String) : (s.markUsed name).Proper H := by
  unfold Scope.markUsed
  split
  · refine ⟨h.merge, fun n hn => ?_, h.outer⟩
    obtain ⟨n', hn', he⟩ := mem_useFirst hn
    exact he ▸ h.named n' hn'
  · split
    · exact h
    · exact ⟨h.merge, h.named, h.outer⟩

theorem Proper.foldl_markUsed (h : s.Proper H) (names : List String) :
    (names.foldl Scope.markUsed s).Proper H :=
  foldlRecOn names Scope.markUsed h fun _ h name _ => h.markUsed name

/-! ### Ends -/

theorem mentions_foldl_addSource (named : List NamedQuery) (q : Interface) :
    ((named.filter (!·.used)).foldl
        (fun q n => q.addSource (n.source.withResult false)) q).mentions =
      q.mentions ∪ Ledger.unused (named.map NamedQuery.entry) := by
  induction named generalizing q with
  | nil => simp [Ledger.unused]
  | cons n rest ih =>
    rw [map_cons, Ledger.unused]
    by_cases hu : n.used = true
    · rw [filter_cons_of_neg (by simp [hu]), ih, if_pos (show n.entry.used = true from hu)]
    · rw [filter_cons_of_pos (by simp [hu]), foldl_cons, ih, Interface.mentions_addSource,
        if_neg (show ¬ n.entry.used = true from hu), Source.mentions, Source.entries_withResult,
        Finset.union_assoc]
      rfl

theorem mentions_finish (s : Scope) : s.finish.mentions = s.ledger.finish :=
  mentions_foldl_addSource s.named s.interface

theorem Proper.finish (h : s.Proper H) (hi : s.interface.Holds H) : s.finish.Holds H := by
  have hfold : ∀ (named : List NamedQuery) (q : Interface), q.Holds H →
      (∀ n ∈ named, n.source.Nameable H) →
      (named.foldl (fun q n => q.addSource (n.source.withResult false)) q).Holds H := by
    intro named
    induction named with
    | nil => exact fun q hq _ => hq
    | cons n rest ih =>
      intro q hq hn
      obtain ⟨hn, hrest⟩ := forall_mem_cons.1 hn
      have hsource : (n.source.withResult false).Holds H := by
        rw [Source.Holds, Source.entries_withResult]
        exact hn.holds
      exact ih _ (hq.addSource hsource) hrest
  exact hfold _ _ hi fun n hn => h.named n (mem_filter.1 hn).1

end Scope

end SqlTyping
