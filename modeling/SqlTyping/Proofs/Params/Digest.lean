import SqlTyping.Proofs.Params.Listing

/-!
# What lists of parameters say of a name

A list of parameters may have several entries for one name. Its digest says what they come to
together: all their occurrences, and the fields of the first entry that picks any. Merging entries
keeps the digest (`Param.digest_insertAll`), and a list with one entry for each name, in the order of
first occurrence, is determined by it up to the types (`Param.Ordered.untyped_eq`). So it does not
matter in which rounds entries are merged, as long as they come in the same order.
-/

namespace SqlTyping

open Repetition List

/-- What the entries for one name come to. -/
@[ext]
structure Digest where
  spans : Finset Span
  required : Bool
  spread : Bool
  pick : List String

namespace Digest

def empty : Digest := ⟨∅, false, false, []⟩

/-- The entries of one list before those of another. -/
def join (a b : Digest) : Digest where
  spans := a.spans ∪ b.spans
  required := a.required || b.required
  spread := a.spread || b.spread
  pick := if a.pick.isEmpty then b.pick else a.pick

@[simp]
theorem empty_join (a : Digest) : empty.join a = a := by
  ext <;> simp [empty, join]

@[simp]
theorem join_empty (a : Digest) : a.join empty = a := by
  ext1
  · exact Finset.union_empty _
  · exact Bool.or_false _
  · exact Bool.or_false _
  · show (if a.pick.isEmpty = true then [] else a.pick) = a.pick
    cases a.pick <;> rfl

theorem join_assoc (a b c : Digest) : (a.join b).join c = a.join (b.join c) := by
  ext1
  · exact Finset.union_assoc _ _ _
  · exact Bool.or_assoc _ _ _
  · exact Bool.or_assoc _ _ _
  · cases hpick : a.pick with
    | nil => simp [join, hpick]
    | cons field fields => simp [join, hpick]

end Digest

namespace Param

variable {τ σ : Type} {union : List τ → τ} {name : String} {p q : Param τ}
  {params more : List (Param τ)}

/-- All of a parameter but its type: what is needed to splice values in. -/
def untyped (p : Param τ) : Param Unit := { p with type := () }

/-- What one entry says. -/
def own (p : Param τ) : Digest := ⟨p.spans.toFinset, p.required, p.spread, p.pick⟩

/-- What the entries for a name come to. -/
def digest (name : String) : List (Param τ) → Digest
  | [] => .empty
  | p :: rest => if p.name = name then p.own.join (digest name rest) else digest name rest

theorem digest_append :
    digest name (params ++ more) = (digest name params).join (digest name more) := by
  induction params with
  | nil => exact (Digest.empty_join _).symm
  | cons p rest ih =>
    rw [cons_append, digest, digest, ih]
    split
    · rw [Digest.join_assoc]
    · rfl

theorem digest_eq_empty (h : name ∉ params.map Param.name) : digest name params = .empty := by
  induction params with
  | nil => rfl
  | cons p rest ih =>
    obtain ⟨hne, hrest⟩ := not_or.1 (mem_cons.not.1 h)
    rw [digest, if_neg fun heq => hne heq.symm, ih hrest]

/-- The one entry for a name says all. -/
theorem digest_of_mem (h : (params.map Param.name).Nodup) (hp : p ∈ params) :
    digest p.name params = p.own := by
  induction params with
  | nil => cases hp
  | cons q rest ih =>
    obtain ⟨hq, hrest⟩ := nodup_cons.1 h
    rw [digest]
    rcases mem_cons.1 hp with rfl | hp
    · rw [if_pos rfl, digest_eq_empty hq, Digest.join_empty]
    · have hne : q.name ≠ p.name := fun heq => hq (heq ▸ mem_map_of_mem hp)
      rw [if_neg hne, ih hrest hp]

theorem digest_perm (h : (params.map Param.name).Nodup) (hperm : more.Perm params) :
    digest name more = digest name params := by
  have hmore : (more.map Param.name).Nodup := (hperm.map _).nodup_iff.2 h
  by_cases hname : name ∈ params.map Param.name
  · obtain ⟨p, hp, rfl⟩ := mem_map.1 hname
    rw [digest_of_mem h hp, digest_of_mem hmore (hperm.mem_iff.2 hp)]
  · rw [digest_eq_empty hname, digest_eq_empty fun hm => hname ((hperm.map _).mem_iff.1 hm)]

theorem own_merge : (p.merge union q).own = p.own.join q.own := by
  ext1
  · ext span
    simp only [own, Digest.join, mem_toFinset, Finset.mem_union, mem_spans_merge]
  · rfl
  · rfl
  · rfl

theorem digest_put (h : (params.map Param.name).Nodup) :
    digest name (put union p params) = (digest name params).join (digest name [p]) := by
  induction params with
  | nil => exact (Digest.empty_join _).symm
  | cons q rest ih =>
    obtain ⟨hq, hrest⟩ := nodup_cons.1 h
    rw [put]
    split
    · next hsame =>
      have hname : q.name = p.name := eq_of_beq hsame
      have hmerge : (q.merge union p).name = q.name := rfl
      simp only [digest, hmerge, ← hname, own_merge]
      split
      · next heq =>
        rw [← heq, digest_eq_empty hq, Digest.join_empty, Digest.join_empty, Digest.join_empty]
      · rw [Digest.join_empty]
    · simp only [digest] at ih ⊢
      rw [ih hrest]
      split
      · rw [Digest.join_assoc]
      · rfl

theorem digest_insert (h : (params.map Param.name).Nodup) :
    digest name (insert union params p) = (digest name params).join (digest name [p]) := by
  rw [insert, digest_perm (TidyList.nodup_names_put h) (mergeSort_perm _ _), digest_put h]

/-- Merging entries in does not change what they come to. -/
theorem digest_insertAll (h : TidyList params) (hmore : ∀ p ∈ more, p.Tidy) :
    digest name (insertAll union params more) = (digest name params).join (digest name more) := by
  induction more generalizing params with
  | nil => exact (Digest.join_empty _).symm
  | cons p rest ih =>
    have hp : p.Tidy := hmore p (.head _)
    have hstep : insertAll union params (p :: rest) =
        insertAll union (insert union params p) rest := rfl
    rw [hstep, ih (h.insert union hp) fun q hq => hmore q (.tail _ hq), digest_insert h.names,
      Digest.join_assoc, ← digest_append]
    rfl

theorem mem_listed_iff_mem_digest (h : (params.map Param.name).Nodup) {m : Mention} :
    m ∈ listed params ↔ m.span ∈ (digest m.name params).spans := by
  rw [mem_listed]
  constructor
  · rintro ⟨p, hp, hname, hspan⟩
    rw [← hname, digest_of_mem h hp]
    exact mem_toFinset.2 hspan
  · intro hspan
    by_cases hname : m.name ∈ params.map Param.name
    · obtain ⟨p, hp, hname⟩ := mem_map.1 hname
      rw [← hname, digest_of_mem h hp] at hspan
      exact ⟨p, hp, hname, mem_toFinset.1 hspan⟩
    · rw [digest_eq_empty hname] at hspan
      exact absurd hspan (Finset.notMem_empty _)

/-! ## Order -/

/-- One tidy entry for each name, in the order of first occurrence. -/
structure Ordered (params : List (Param τ)) : Prop extends TidyList params where
  sorted : params.Pairwise fun p q => p.position ≤ q.position

theorem Ordered.insert (h : TidyList params) (hp : p.Tidy) :
    Ordered (Param.insert union params p) where
  toTidyList := h.insert union hp
  sorted := by
    have hsort := @pairwise_mergeSort (Param τ) (fun a b => decide (a.position ≤ b.position))
      (by simpa using fun a b c => Nat.le_trans) (by simpa using fun a b => Nat.le_total _ _)
      (put union p params)
    rw [Param.insert]
    simpa only [decide_eq_true_eq] using hsort

theorem Ordered.insertAll (h : Ordered params) (hmore : ∀ p ∈ more, p.Tidy) :
    Ordered (Param.insertAll union params more) :=
  foldlRecOn more _ h fun _ h p hp => Ordered.insert h.toTidyList (hmore p hp)

theorem Ordered.nil : Ordered ([] : List (Param τ)) := ⟨.nil, .nil⟩

/-- Occurrences are told apart by where they start. -/
abbrev Apart (params : List (Param τ)) : Prop :=
  ∀ m ∈ listed params, ∀ n ∈ listed params, m.span.start = n.span.start → m = n

theorem exists_position (hp : p.Tidy) : ∃ span ∈ p.spans, span.start = p.position := by
  cases hspans : p.spans with
  | nil => exact absurd hspans hp.occurs
  | cons span rest =>
    refine ⟨span, .head _, ?_⟩
    rw [position, hspans]
    rfl

theorem position_le (hp : p.Tidy) {span : Span} (h : span ∈ p.spans) : p.position ≤ span.start := by
  have hsorted := hp.sorted
  rw [position]
  cases hspans : p.spans with
  | nil => rw [hspans] at h; cases h
  | cons first rest =>
    rw [hspans] at h hsorted
    rcases mem_cons.1 h with rfl | h
    · exact Nat.le_refl _
    · exact (pairwise_cons.1 hsorted).1 span h

/-- The entries are told apart by where they occur first. -/
theorem Apart.eq_of_position (ha : Apart params) (h : TidyList params) (hp : p ∈ params)
    (hq : q ∈ params) (heq : p.position = q.position) : p = q := by
  obtain ⟨a, ha', hastart⟩ := exists_position (h.each p hp)
  obtain ⟨b, hb', hbstart⟩ := exists_position (h.each q hq)
  have hmention := ha ⟨p.name, a⟩ (mem_listed.2 ⟨p, hp, rfl, ha'⟩) ⟨q.name, b⟩
    (mem_listed.2 ⟨q, hq, rfl, hb'⟩) (hastart.trans (heq.trans hbstart.symm))
  exact inj_on_of_nodup_map h.names hp hq (congrArg Mention.name hmention)

theorem Ordered.pairwise_position_lt (h : Ordered params) (ha : Apart params) :
    params.Pairwise fun p q => p.position < q.position := by
  have hnodup : params.Nodup := h.names.of_map _
  refine (h.sorted.and hnodup).imp_of_mem fun {p q} hp hq hpq => ?_
  exact Nat.lt_of_le_of_ne hpq.1 fun heq => hpq.2 (ha.eq_of_position h.toTidyList hp hq heq)

theorem Apart.spans_inj (ha : Apart params) (hp : p ∈ params) :
    ∀ a ∈ p.spans, ∀ b ∈ p.spans, a.start = b.start → a = b := by
  intro a ha' b hb' hab
  exact congrArg Mention.span (ha ⟨p.name, a⟩ (mem_listed.2 ⟨p, hp, rfl, ha'⟩) ⟨p.name, b⟩
    (mem_listed.2 ⟨p, hp, rfl, hb'⟩) hab)

theorem Apart.nodup_spans (ha : Apart params) (h : TidyList params) (hp : p ∈ params) :
    p.spans.Nodup :=
  nodup_of_sorted (h.each p hp).sorted (h.each p hp).chain (ha.spans_inj hp)

/-- Entries that say the same are the same but for the types. -/
theorem untyped_eq_of_own {r : Param σ} (hname : p.name = r.name) (hown : p.own = r.own)
    (hp : p.Tidy) (hr : r.Tidy) (hpn : p.spans.Nodup) (hrn : r.spans.Nodup)
    (hu : ∀ a ∈ p.spans, ∀ b ∈ p.spans, a.start = b.start → a = b) : p.untyped = r.untyped := by
  have hmem : ∀ span, span ∈ p.spans ↔ span ∈ r.spans := by
    intro span
    rw [← mem_toFinset, ← mem_toFinset]
    exact iff_of_eq (congrArg (span ∈ Digest.spans ·) hown)
  have hspans : p.spans = r.spans := by
    refine List.Perm.eq_of_pairwise ?_ hp.sorted hr.sorted ((perm_ext_iff_of_nodup hpn hrn).2 hmem)
    exact fun a b ha hb hab hba => hu a ha b ((hmem b).2 hb) (Nat.le_antisymm hab hba)
  have hrequired : p.required = r.required := congrArg Digest.required hown
  have hspread : p.spread = r.spread := congrArg Digest.spread hown
  have hpick : p.pick = r.pick := congrArg Digest.pick hown
  show Param.mk .. = Param.mk ..
  rw [hname, hspans, hrequired, hspread, hpick]

/-- A list in order is determined by what it says of each name, up to the types. -/
theorem Ordered.untyped_eq {others : List (Param σ)} (h : Ordered params) (ho : Ordered others)
    (ha : Apart params) (hdigest : ∀ name, digest name params = digest name others) :
    params.map untyped = others.map untyped := by
  have hlisted : ∀ m, m ∈ listed params ↔ m ∈ listed others := fun m => by
    rw [mem_listed_iff_mem_digest h.names, mem_listed_iff_mem_digest ho.names, hdigest]
  have hao : Apart others := fun m hm n hn =>
    ha m ((hlisted m).2 hm) n ((hlisted n).2 hn)
  have hu := fun p (hp : p ∈ params) => ha.spans_inj hp
  -- entries of one name are found in both lists, and they say the same
  have hsame : ∀ p ∈ params, ∀ r ∈ others, p.name = r.name → p.untyped = r.untyped := by
    intro p hp r hr hname
    have hown : p.own = r.own := by
      rw [← digest_of_mem h.names hp, ← digest_of_mem ho.names hr, hdigest, hname]
    exact untyped_eq_of_own hname hown (h.each p hp) (ho.each r hr)
      (ha.nodup_spans h.toTidyList hp) (hao.nodup_spans ho.toTidyList hr) (hu p hp)
  have hmem : ∀ u, u ∈ params.map untyped ↔ u ∈ others.map untyped := by
    intro u
    constructor
    · intro hm
      obtain ⟨p, hp, rfl⟩ := mem_map.1 hm
      obtain ⟨span, hspan, -⟩ := exists_position (h.each p hp)
      obtain ⟨r, hr, hname, -⟩ :=
        mem_listed.1 ((hlisted ⟨p.name, span⟩).1 (mem_listed.2 ⟨p, hp, rfl, hspan⟩))
      exact mem_map.2 ⟨r, hr, (hsame p hp r hr hname.symm).symm⟩
    · intro hm
      obtain ⟨r, hr, rfl⟩ := mem_map.1 hm
      obtain ⟨span, hspan, -⟩ := exists_position (ho.each r hr)
      obtain ⟨p, hp, hname, -⟩ :=
        mem_listed.1 ((hlisted ⟨r.name, span⟩).2 (mem_listed.2 ⟨r, hr, rfl, hspan⟩))
      exact mem_map.2 ⟨p, hp, hsame p hp r hr hname⟩
  have hnodup : ∀ {ρ : Type} {list : List (Param ρ)}, (list.map Param.name).Nodup →
      (list.map untyped).Nodup := by
    intro ρ list hnames
    refine List.Nodup.of_map Param.name ?_
    rw [map_map]
    exact hnames
  refine @List.Perm.eq_of_pairwise (Param Unit) (fun p q => p.position ≤ q.position) _ _ ?_
    (pairwise_map.2 h.sorted) (pairwise_map.2 ho.sorted)
    ((perm_ext_iff_of_nodup (hnodup h.names) (hnodup ho.names)).2 hmem)
  intro u v hum hvm huv hvu
  obtain ⟨p, hp, rfl⟩ := mem_map.1 hum
  obtain ⟨q, hq, rfl⟩ := mem_map.1 ((hmem v).2 hvm)
  rw [ha.eq_of_position h.toTidyList hp hq (Nat.le_antisymm huv hvu)]

end Param

end SqlTyping
