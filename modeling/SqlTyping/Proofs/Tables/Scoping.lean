import SqlTyping.Proofs.Tables.Mentions

/-!
# Names that stand for queries

Of several sources with one name the first counts. A name in a scope is hidden if the first source
with it is a named query; what a nested scope sees hides the same names (`Scope.hides_visible`).
-/

namespace SqlTyping

open List
open Text (fold)

namespace Source

variable {name : String} {source : Source}

/-- The first source with the name. -/
def first? (sources : List Source) (key : List Char) : Option Source :=
  sources.find? fun source => fold source.name == key

/-- Is the first source with the name a named query? -/
def hides (sources : List Source) (key : List Char) : Bool := (first? sources key).any isNamedQuery

variable {sources a b : List Source} {key : List Char}

theorem first?_append : first? (a ++ b) key = (first? a key).or (first? b key) := find?_append

theorem first?_isSome : (first? sources (fold name)).isSome = sources.any (·.isNamed name) := by
  unfold first?
  rw [isSome_find?]
  congr 1

theorem fold_of_first? (h : first? sources key = some source) : fold source.name = key := by
  simpa using find?_some h

/-- One more named query hides its name, and all that was hidden before. -/
theorem hides_insert (ha : ∀ other ∈ a, other.isNamedQuery = true) (hs : source.isNamedQuery = true)
    (h : fold source.name = key ∨ hides (a ++ b) key = true) :
    hides (a ++ source :: b) key = true := by
  unfold hides at h ⊢
  rw [first?_append] at h ⊢
  cases hfirst : first? a key with
  | some other => exact ha other (mem_of_find?_eq_some hfirst)
  | none =>
    rw [hfirst] at h
    by_cases hkey : fold source.name = key
    · simp [first?, hkey, hs]
    · rcases h with h | h
      · exact absurd h hkey
      · simpa [first?, hkey] using h

theorem hides_filter (h : key ≠ fold name) :
    hides (sources.filter (!·.isNamed name)) key = hides sources key := by
  unfold hides first?
  rw [find?_filter]
  congr 2
  funext source
  by_cases hkey : fold source.name = key
  · have hname : source.isNamed name = false := Bool.eq_false_iff.2 (mt isNamed_iff.1 (hkey ▸ h))
    simp [hkey, hname]
  · simp [hkey]

/-- A query that takes the place of all others with its name. -/
theorem hides_shadow {self : Source} (hs : self.isNamedQuery = true)
    (h : key = fold self.name ∨ hides sources key = true) :
    hides (self :: sources.filter (!·.isNamed self.name)) key = true := by
  by_cases hkey : key = fold self.name
  · simp [hides, first?, hkey, hs]
  · rw [← hides_filter hkey] at h
    have hne : ¬fold self.name = key := fun heq => hkey heq.symm
    simpa [hides, first?, hne, hkey] using h

theorem exists_of_hides (h : hides sources (fold name) = true) :
    ∃ source, sources.find? (fun source => source.isNamedQuery && source.isNamed name) =
      some source := by
  unfold hides at h
  cases hfirst : first? sources (fold name) with
  | none => rw [hfirst] at h; cases h
  | some source =>
    rw [hfirst] at h
    rw [← Option.isSome_iff_exists, List.find?_isSome]
    refine ⟨source, mem_of_find?_eq_some hfirst, ?_⟩
    rw [isNamed_iff.2 (fold_of_first? hfirst), Bool.and_true]
    exact h

theorem first?_foldl_see (outer seen : List Source) (key : List Char) :
    first? (outer.foldl Scope.see seen) key = first? (seen ++ outer) key := by
  induction outer generalizing seen with
  | nil => rw [append_nil]; rfl
  | cons first rest ih =>
    rw [foldl_cons, ih, Scope.see]
    split
    · next hany =>
      -- the name is taken, so this source is found under no name
      rw [← first?_isSome] at hany
      rw [first?_append, first?_append]
      by_cases hkey : fold first.name = key
      · obtain ⟨source, hsource⟩ := Option.isSome_iff_exists.1 hany
        rw [← hkey, hsource]
        rfl
      · simp [first?, hkey]
    · rw [append_assoc, singleton_append]

end Source

namespace Scope

/-- What a name in the scope may stand for. -/
def sees (s : Scope) : List Source := s.named.map NamedQuery.source ++ s.outer

theorem hides_visible (s : Scope) (key : List Char) :
    Source.hides s.visible key = Source.hides s.sees key := by
  unfold Source.hides
  rw [visible_eq, Source.first?_foldl_see]
  rfl

theorem findNamed?_isSome {s : Scope} (h : Source.hides s.sees (fold name) = true) :
    (s.findNamed? name).isSome = true := by
  unfold findNamed?
  split
  · rfl
  · next hnone =>
    have hnot : Source.first? (s.named.map NamedQuery.source) (fold name) = none := by
      rw [← Option.not_isSome_iff_eq_none, Source.first?_isSome, any_map]
      simpa using hnone
    rw [sees, Source.hides, Source.first?_append, hnot, Option.none_or] at h
    exact Option.isSome_iff_exists.2 (Source.exists_of_hides h)

end Scope

end SqlTyping
