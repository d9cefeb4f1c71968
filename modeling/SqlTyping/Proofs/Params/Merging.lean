import SqlTyping.Proofs.Params.Digest
import SqlTyping.Proofs.Types.Unions

/-!
# Merging occurrences of parameters

Adding occurrences to an interface gives one entry for each name, with all its occurrences in order.
The order in which they are added shows only in the order of the members of the types, and in the
fields that are taken (`Param.merged_in_any_order`).
-/

namespace SqlTyping

open List

/-! ## Types of merged entries -/

namespace SqlType

variable {t u : SqlType} {ts : List SqlType}

theorem Normal.alike_twice (h : t.Normal) : t.Alike (union [t, t]) := by
  have hall : ∀ u ∈ [t, t], u.Normal := by simpa using h
  refine ⟨?_, by simp [nullable_union hall]⟩
  have hsummary : summary (t.memberKinds ++ t.memberKinds) = summary t.memberKinds := by
    refine summary_congr ?_ fun _ => by simp
    rw [filter_append, Repetition.eraseDups_append_of_subset fun _ hk => hk]
  rw [memberKinds_union hall, flatMap_cons, flatMap_singleton, hsummary, h.summary_memberKinds]

/-- A type that the union of a list stands for may be joined in its place. -/
theorem Alike.union_append (h : t.Alike (union ts)) (ht : t.Normal) (hu : u.Normal) (hne : ts ≠ [])
    (hts : ∀ t ∈ ts, t.Normal) : (union [t, u]).Alike (union (ts ++ [u])) := by
  have hregrouped := alike_regrouped hne hts (forall_mem_singleton.2 hu)
  have hpair : ∀ v ∈ [t, u], v.Normal := by simpa using ⟨ht, hu⟩
  have hpair' : ∀ v ∈ [union ts, u], v.Normal := by simpa using ⟨normal_union hts, hu⟩
  refine ⟨?_, ?_⟩
  · rw [← hregrouped.1, memberKinds_union hpair, memberKinds_union hpair', flatMap_cons, h.1]
    rfl
  · rw [← hregrouped.2, nullable_union hpair, nullable_union hpair', any_cons, any_cons, h.2]
    rfl

end SqlType

/-- The type is known, and is what the union of the types comes to. -/
def TypeExpr.Joins (e : TypeExpr) (ts : List SqlType) : Prop :=
  ∃ t, e = .known t ∧ t.Normal ∧ t.Alike (SqlType.union ts)

theorem TypeExpr.Joins.append {e : TypeExpr} {u : SqlType} {ts : List SqlType} (h : e.Joins ts)
    (hu : u.Normal) (hne : ts ≠ []) (hts : ∀ t ∈ ts, t.Normal) :
    (unionOf [e, .known u]).Joins (ts ++ [u]) := by
  obtain ⟨t, rfl, ht, halike⟩ := h
  have happend := halike.union_append ht hu hne hts
  by_cases htu : t = u
  · subst htu
    refine ⟨t, by simp [unionOf, unionItems, eraseDups_cons], ht, ?_⟩
    exact ⟨ht.alike_twice.1.trans happend.1, ht.alike_twice.2.trans happend.2⟩
  · refine ⟨SqlType.union [t, u], ?_, SqlType.normal_union (by simpa using ⟨ht, hu⟩), happend⟩
    have hdistinct : ([.known t, .known u] : List TypeExpr).eraseDups = [.known t, .known u] :=
      Repetition.eraseDups_of_nodup (by simpa using htu)
    simp [unionOf, unionItems, hdistinct, known?]

/-! ## Entries -/

namespace Digest

/-- All but the fields that are taken. -/
def bare (d : Digest) : Digest := { d with pick := [] }

theorem bare_join (a b : Digest) : (a.join b).bare = a.bare.join b.bare := by
  ext <;> rfl

end Digest

namespace Param

variable {τ : Type} {name : String} {p : Param τ} {params others : List (Param τ)}

/-- The occurrences of a parameter and how it is used, but neither its type nor its fields. -/
def places (p : Param τ) : String × List Span × Bool × Bool :=
  (p.name, p.spans, p.required, p.spread)

def bare (p : Param τ) : Param τ := { p with pick := [] }

theorem digest_bare (name : String) (params : List (Param τ)) :
    digest name (params.map bare) = (digest name params).bare := by
  induction params with
  | nil => rfl
  | cons p rest ih =>
    rw [map_cons, digest, digest, ih]
    split
    · rw [if_pos (by assumption), Digest.bare_join]
      rfl
    · rw [if_neg (by assumption)]

/-- The order of entries counts for the fields that are taken only. -/
theorem bare_digest_perm (h : others.Perm params) :
    (digest name others).bare = (digest name params).bare := by
  have hcons : ∀ (p : Param τ) (l : List (Param τ)), (digest name (p :: l)).bare =
      (if p.name = name then p.own.bare else .empty).join (digest name l).bare := by
    intro p l
    rw [digest]
    split
    · exact Digest.bare_join _ _
    · exact (Digest.empty_join _).symm
  induction h with
  | nil => rfl
  | cons p _ ih => rw [hcons, hcons, ih]
  | swap p q l =>
    rw [hcons, hcons, hcons, hcons, ← Digest.join_assoc, ← Digest.join_assoc]
    congr 1
    split <;> split <;> ext <;>
      simp [Digest.join, Digest.bare, Digest.empty, or_comm, Bool.or_comm]
  | trans _ _ ih ih' => exact ih.trans ih'

theorem Ordered.bare (h : Ordered params) : Ordered (params.map bare) where
  names := by
    rw [map_map]
    exact h.names
  each := forall_mem_map.2 fun p hp =>
    ⟨(h.each p hp).sorted, (h.each p hp).chain, (h.each p hp).occurs⟩
  sorted := pairwise_map.2 h.sorted

theorem Ordered.places_eq (h : Ordered params) (ho : Ordered others) (ha : Apart params)
    (hdigest : ∀ name, (digest name params).bare = (digest name others).bare) :
    params.map places = others.map places := by
  have hlisted : listed (params.map Param.bare) = listed params := flatMap_map _ _ _
  have hbare := h.bare.untyped_eq ho.bare (by rwa [Apart, hlisted]) fun name => by
    rw [digest_bare, digest_bare, hdigest]
  have hplaces := congrArg (List.map places) hbare
  rwa [map_map, map_map, map_map, map_map] at hplaces

theorem required_digest (name : String) (params : List (Param τ)) :
    (digest name params).required = params.any (fun p => p.name == name && p.required) ∧
      (digest name params).spread = params.any (fun p => p.name == name && p.spread) := by
  induction params with
  | nil => exact ⟨rfl, rfl⟩
  | cons p rest ih =>
    rw [digest, any_cons, any_cons, ← ih.1, ← ih.2]
    by_cases hname : p.name = name <;> simp [hname, Digest.join, own]

theorem Apart.pairwise_start (ha : Apart params) (h : TidyList params) (hp : p ∈ params) :
    p.spans.Pairwise fun a b => a.start < b.start := by
  refine ((h.each p hp).sorted.and (ha.nodup_spans h hp)).imp_of_mem fun {a b} ha' hb' hab => ?_
  exact Nat.lt_of_le_of_ne hab.1 fun heq => hab.2 (ha.spans_inj hp a ha' b hb' heq)

/-! ## Occurrences with known types -/

section

variable {occurrences others : List (Param SqlType)} {p q : Param TypeExpr}

def known (p : Param SqlType) : Param TypeExpr := { p with type := .known p.type }

/-- The entries that come of occurrences. -/
def merged (occurrences : List (Param SqlType)) : List (Param TypeExpr) :=
  insertAll TypeExpr.unionOf [] (occurrences.map known)

/-- The entry for a name has the types of all occurrences of the name. -/
theorem joins_of_mem_merged (hnormal : ∀ p ∈ occurrences, p.type.Normal)
    (hp : p ∈ merged occurrences) :
    p.type.Joins ((occurrences.filter (·.name == p.name)).map (·.type)) := by
  have hentry : ∀ l : List (Param SqlType), (∀ o ∈ l, o.name = p.name ∧ o.type.Normal) →
      l = [] ∨ ∃ q, (l.map known).foldl (flip (put TypeExpr.unionOf)) [] = [q] ∧ q.name = p.name ∧
        q.type.Joins (l.map (·.type)) := by
    intro l
    induction l using List.reverseRecOn with
    | nil => exact fun _ => .inl rfl
    | append_singleton l o ih =>
      intro hall
      obtain ⟨hl, ho⟩ := forall_mem_append.1 hall
      obtain ⟨hname, ho⟩ := ho o (mem_singleton_self o)
      rcases ih hl with rfl | ⟨q, hq, hqname, htype⟩
      · exact .inr ⟨o.known, rfl, hname, o.type, rfl, ho, ho.alike_union⟩
      · have hne : l ≠ [] := by rintro rfl; cases hq
        have hput : put TypeExpr.unionOf o.known [q] = [q.merge TypeExpr.unionOf o.known] :=
          if_pos (beq_iff_eq.2 (hqname.trans hname.symm))
        refine .inr ⟨q.merge TypeExpr.unionOf o.known, ?_, hqname, ?_⟩
        · rw [map_append, foldl_append, hq]
          exact hput
        · rw [map_append]
          exact htype.append ho (by simpa using hne) (by simpa using fun o ho => (hl o ho).2)
  have hfilter : (merged occurrences).filter (·.name == p.name) =
      ((occurrences.filter (·.name == p.name)).map known).foldl (flip (put TypeExpr.unionOf)) [] := by
    rw [merged, filter_insertAll (by simp), filter_map]
    rfl
  have hmem : p ∈ (merged occurrences).filter (·.name == p.name) := mem_filter.2 ⟨hp, by simp⟩
  rcases hentry (occurrences.filter (·.name == p.name)) fun o ho => by
    exact ⟨eq_of_beq (mem_filter.1 ho).2, hnormal o (mem_filter.1 ho).1⟩ with hnil | ⟨q, hq, -, htype⟩
  · rw [hfilter, hnil] at hmem
    cases hmem
  · rw [hfilter, hq, mem_singleton] at hmem
    exact hmem ▸ htype

/-- The members of the type of an entry do not depend on the order. -/
theorem members_of_perm (hnormal : ∀ o ∈ occurrences, o.type.Normal) (hperm : others.Perm occurrences)
    (hp : p ∈ merged occurrences) (hq : q ∈ merged others) (hname : q.name = p.name) :
    ∃ t u, p.type = .known t ∧ q.type = .known u ∧ (∀ k, k ∈ u.memberKinds ↔ k ∈ t.memberKinds) ∧
      u.nullable = t.nullable := by
  obtain ⟨t, ht, -, halike⟩ := joins_of_mem_merged hnormal hp
  obtain ⟨u, hu, -, halike'⟩ := joins_of_mem_merged (fun o ho => hnormal o (hperm.mem_iff.1 ho)) hq
  have htypes : ∀ t ∈ (occurrences.filter (·.name == p.name)).map (·.type), t.Normal :=
    forall_mem_map.2 fun o ho => hnormal o (mem_filter.1 ho).1
  obtain ⟨hmembers, hnullable⟩ := SqlType.perm_union htypes
    ((hperm.filter (·.name == p.name)).map (·.type))
  rw [hname] at halike'
  refine ⟨t, u, ht, hu, fun k => ?_, halike'.2.trans (hnullable.trans halike.2.symm)⟩
  have hkinds := (hmembers.map Prod.fst).mem_iff (a := k)
  rw [map_map, map_map] at hkinds
  rw [halike.1, halike'.1]
  exact hkinds

theorem tidy_known {o : Param SqlType} (h : ∃ span, o.spans = [span]) : o.known.Tidy := by
  obtain ⟨span, hspan⟩ := h
  have hspans : o.known.spans = [span] := hspan
  exact ⟨by simp [hspans], by simp [hspans], by simp [hspans]⟩

theorem params_addParams (q : Interface) (more : List (Param TypeExpr)) :
    (more.foldl Interface.addParam q).params = insertAll TypeExpr.unionOf q.params more :=
  (foldl_hom Interface.params fun _ _ => rfl).symm

/-- One entry for each name, in the order of first occurrence, with its occurrences in order and what
any of them says. In another order of adding, only the order of the members of types changes. -/
theorem merged_in_any_order (hsingle : ∀ o ∈ occurrences, ∃ span, o.spans = [span])
    (hnormal : ∀ o ∈ occurrences, o.type.Normal) (hapart : Apart occurrences) :
    let all := fun occurrences => ((occurrences.map known).foldl Interface.addParam .empty).params
    ((all occurrences).map (·.name)).Nodup ∧
    (all occurrences).Pairwise (fun p q => p.position < q.position) ∧
    (∀ m, m ∈ listed (all occurrences) ↔ m ∈ listed occurrences) ∧
    (∀ p ∈ all occurrences, p.spans.Pairwise (fun a b => a.start < b.start) ∧
      p.required = occurrences.any (fun o => o.name == p.name && o.required) ∧
      p.spread = occurrences.any (fun o => o.name == p.name && o.spread)) ∧
    ∀ others, others.Perm occurrences → (all others).map places = (all occurrences).map places ∧
      ∀ p ∈ all occurrences, ∀ q ∈ all others, q.name = p.name → ∃ t u, p.type = .known t ∧
        q.type = .known u ∧ (∀ k, k ∈ u.memberKinds ↔ k ∈ t.memberKinds) ∧
        u.nullable = t.nullable := by
  have hall : ∀ os, ((os.map known).foldl Interface.addParam .empty).params = merged os :=
    fun os => params_addParams .empty _
  dsimp only
  simp only [hall]
  have htidy : ∀ {os : List (Param SqlType)}, os.Perm occurrences → ∀ p ∈ os.map known, p.Tidy := by
    intro os hperm
    exact forall_mem_map.2 fun o ho => tidy_known (hsingle o (hperm.mem_iff.1 ho))
  have hordered : ∀ {os : List (Param SqlType)}, os.Perm occurrences → Ordered (merged os) :=
    fun hperm => Ordered.nil.insertAll (htidy hperm)
  have hdigest : ∀ {os : List (Param SqlType)}, os.Perm occurrences → ∀ name,
      digest name (merged os) = digest name (os.map known) := fun hperm name => by
    rw [merged, digest_insertAll .nil (htidy hperm)]
    exact Digest.empty_join _
  have hlisted : ∀ m, m ∈ listed (merged occurrences) ↔ m ∈ listed occurrences := fun m => by
    rw [merged, mem_listed_insertAll]
    simp [listed, flatMap_map, known]
  have hmerged : Apart (merged occurrences) := fun m hm n hn =>
    hapart m ((hlisted m).1 hm) n ((hlisted n).1 hn)
  have ho := hordered (.refl _)
  refine ⟨ho.names, ho.pairwise_position_lt hmerged, hlisted, fun p hp => ?_,
    fun others hperm => ⟨?_, fun p hp q hq => members_of_perm hnormal hperm hp hq⟩⟩
  · have hown : p.own = digest p.name (occurrences.map known) := by
      rw [← hdigest (.refl _), digest_of_mem ho.names hp]
    obtain ⟨hrequired, hspread⟩ := required_digest p.name (occurrences.map known)
    rw [← hown, any_map] at hrequired hspread
    exact ⟨hmerged.pairwise_start ho.toTidyList hp, hrequired, hspread⟩
  · refine (ho.places_eq (hordered hperm) hmerged fun name => ?_).symm
    rw [hdigest (.refl _), hdigest hperm, bare_digest_perm (hperm.map known)]

theorem merged_in_any_order_reversed :
    let occurrences : List (Param SqlType) := [⟨"a", .number, [⟨5, 7⟩], true, false, []⟩,
      ⟨"b", .string, [⟨1, 3⟩], false, false, []⟩, ⟨"a", .string, [⟨9, 11⟩], false, true, []⟩]
    Apart occurrences ∧
      ((occurrences.reverse.map known).foldl Interface.addParam .empty).params.map places =
        ((occurrences.map known).foldl Interface.addParam .empty).params.map places :=
  have hapart : Apart [(⟨"a", .number, [⟨5, 7⟩], true, false, []⟩ : Param SqlType),
      ⟨"b", .string, [⟨1, 3⟩], false, false, []⟩, ⟨"a", .string, [⟨9, 11⟩], false, true, []⟩] := by
    simp [Apart, listed]
  ⟨hapart, ((merged_in_any_order (by simp) (by simp [SqlType.Normal, SqlType.number, SqlType.string])
    hapart).2.2.2.2 _ (reverse_perm _)).1⟩

end

end Param

end SqlTyping
