import SqlTyping.Proofs.Types.Coherence

/-!
# The members of a union

The kinds of the members of a union are a summary of those of all members of its items: each kind
once, unknown only if there is no other, and null if there is none at all (`memberKinds_union`).
Summaries of parts add up to the summary of the whole, so it does not matter where unions are nested
in unions. Types are normal if they are as unions leave them (`normal_union`).
-/

namespace SqlTyping.SqlType

open List

variable {m t : SqlType} {items : List SqlType}

/-- The kinds of the members of a union, or the kind of the type itself. -/
def memberKinds (t : SqlType) : List (TypeKind SqlType) := t.members.map (·.kind)

/-- What is compared of members: all but the name of the PostgreSQL type. -/
def marked (t : SqlType) : TypeKind SqlType × Bool := (t.kind, t.nullable)

def isUnknownKind (k : TypeKind SqlType) : Bool := k matches .unknown

def isNullKind (k : TypeKind SqlType) : Bool := k matches .null

/-- Does the kind say what values there are? -/
def isNamed : TypeKind SqlType → Bool
  | .null | .unknown => false
  | _ => true

theorem isNull_eq_false_iff : t.isNull = false ↔ t.kind ≠ .null := by
  obtain ⟨kind, nullable, postgres⟩ := t
  cases kind <;> simp [isNull]

theorem isNamed_of_isNull (h : t.isNull = true) : isNamed t.kind = false := by
  obtain ⟨kind, nullable, postgres⟩ := t
  cases kind with
  | null => rfl
  | _ => cases h

theorem isNamed_of_isUnknown (h : t.isUnknown = true) : isNamed t.kind = false := by
  obtain ⟨kind, nullable, postgres⟩ := t
  cases kind with
  | unknown => rfl
  | _ => cases h

/-- The kinds of a union, from those of all members of its items. -/
def summary (kinds : List (TypeKind SqlType)) : List (TypeKind SqlType) :=
  match (kinds.filter isNamed).eraseDups with
  | [] => if .unknown ∈ kinds then [.unknown] else [.null]
  | named => named

theorem summary_flatMap_memberKinds (items : List SqlType) : summary (items.flatMap memberKinds) =
      match (dropUnknown (distinctMembers items)).map (·.kind) with
      | [] => [.null]
      | kinds => kinds := by
  have hkinds : ((items.flatMap members).filter (!·.isNull)).map (·.kind) =
      (items.flatMap memberKinds).filter (!isNullKind ·) := by
    have hmap : items.flatMap memberKinds = (items.flatMap members).map (·.kind) :=
      (map_flatMap ..).symm
    rw [hmap, filter_map]
    rfl
  generalize items.flatMap memberKinds = kinds at hkinds
  have hnamed : ((distinctMembers items).filter (!·.isUnknown)).map (·.kind) =
      (kinds.filter isNamed).eraseDups := by
    have hfilter : (kinds.filter (!isNullKind ·)).filter (!isUnknownKind ·) =
        kinds.filter isNamed := by
      rw [filter_filter]
      exact filter_congr fun k _ => by cases k <;> rfl
    rw [← hfilter, Repetition.eraseDups_filter, ← hkinds, ← map_kind_distinctMembers, filter_map]
    rfl
  unfold summary
  cases hsome : (kinds.filter isNamed).eraseDups with
  | cons k ks =>
    have hany : (distinctMembers items).any (!·.isUnknown) = true := by
      by_contra hnone
      rw [hsome, filter_eq_nil_iff.2 fun m hm => by simp_all] at hnamed
      cases hnamed
    rw [dropUnknown, if_pos hany, hnamed, hsome]
  | nil =>
    have hnone := filter_eq_nil_iff.1 (Repetition.eraseDups_eq_nil.1 hsome)
    rw [hsome, map_eq_nil_iff, filter_eq_nil_iff] at hnamed
    have hdrop : dropUnknown (distinctMembers items) = distinctMembers items :=
      if_neg (by simpa using hnamed)
    rw [hdrop, map_kind_distinctMembers, hkinds]
    have hall : ∀ k ∈ kinds.filter (!isNullKind ·), k = .unknown := fun k hk => by
      obtain ⟨hk, hnull⟩ := mem_filter.1 hk
      have := hnone k hk
      cases k <;> simp [isNamed, isNullKind] at this hnull ⊢
    by_cases hunknown : TypeKind.unknown ∈ kinds
    · rw [if_pos hunknown, Repetition.eraseDups_of_forall_eq hall (mem_filter.2 ⟨hunknown, rfl⟩)]
    · have hnil : kinds.filter (!isNullKind ·) = [] := eq_nil_iff_forall_not_mem.2 fun k hk =>
          hunknown (hall k hk ▸ (mem_filter.1 hk).1)
      rw [if_neg hunknown, hnil]
      rfl

/-! ## Summaries -/

variable {kinds more : List (TypeKind SqlType)}

theorem summary_cases (kinds : List (TypeKind SqlType)) :
    kinds.filter isNamed = [] ∧ summary kinds = (if .unknown ∈ kinds then [.unknown] else [.null]) ∨
      kinds.filter isNamed ≠ [] ∧ summary kinds = (kinds.filter isNamed).eraseDups := by
  unfold summary
  cases hnamed : (kinds.filter isNamed).eraseDups with
  | nil => exact .inl ⟨Repetition.eraseDups_eq_nil.1 hnamed, rfl⟩
  | cons k ks => exact .inr ⟨fun hnil => by simp [hnil] at hnamed, rfl⟩

theorem summary_congr (h : (kinds.filter isNamed).eraseDups = (more.filter isNamed).eraseDups)
    (hunknown : kinds.filter isNamed = [] → (.unknown ∈ kinds ↔ .unknown ∈ more)) :
    summary kinds = summary more := by
  unfold summary
  rw [← h]
  cases hnamed : (kinds.filter isNamed).eraseDups with
  | cons => rfl
  | nil => simp only [hunknown (Repetition.eraseDups_eq_nil.1 hnamed)]

theorem isNamed_of_mem {k : TypeKind SqlType} (h : k ∈ (kinds.filter isNamed).eraseDups) :
    isNamed k = true := (mem_filter.1 (mem_eraseDups.1 h)).2

theorem filter_summary (kinds : List (TypeKind SqlType)) :
    (summary kinds).filter isNamed = (kinds.filter isNamed).eraseDups := by
  rcases summary_cases kinds with ⟨hnone, hsummary⟩ | ⟨-, hsummary⟩
  · rw [hnone, hsummary]
    split <;> rfl
  · rw [hsummary]
    exact filter_eq_self.2 fun k hk => isNamed_of_mem hk

theorem mem_unknown_summary :
    .unknown ∈ summary kinds ↔ kinds.filter isNamed = [] ∧ .unknown ∈ kinds := by
  rcases summary_cases kinds with ⟨hnone, hsummary⟩ | ⟨hsome, hsummary⟩
  · rw [hsummary]
    split <;> simp_all
  · rw [hsummary]
    exact ⟨fun hk => (nomatch isNamed_of_mem hk), fun h => absurd h.1 hsome⟩

/-- Summaries of parts add up to the summary of the whole. -/
theorem summary_flatMap_summary {α : Type} (l : List α) (f : α → List (TypeKind SqlType)) :
    summary (l.flatMap fun a => summary (f a)) = summary (l.flatMap f) := by
  refine summary_congr ?_ fun hnone => ?_
  · simp only [filter_flatMap, filter_summary]
    exact Repetition.eraseDups_flatMap l _
  · simp only [mem_flatMap, mem_unknown_summary]
    refine exists_congr fun a => and_congr_right fun ha => and_iff_right ?_
    rw [filter_flatMap, flatMap_eq_nil_iff] at hnone
    exact Repetition.eraseDups_eq_nil.1 ((filter_summary (f a)).symm.trans (hnone a ha))

theorem summary_flatMap_eraseDups {α : Type} [BEq α] [LawfulBEq α] (l : List α)
    (f : α → List (TypeKind SqlType)) :
    summary (l.eraseDups.flatMap f) = summary (l.flatMap f) := by
  refine summary_congr ?_ fun _ => by simp
  rw [filter_flatMap, filter_flatMap]
  exact Repetition.eraseDups_flatMap_eraseDups l _

/-! ## Normal types -/

/-- A union has two or more members, of different kinds, and none that is a union, null or unknown.
`NULL` is nullable. -/
def Normal (t : SqlType) : Prop :=
  match t.kind with
  | .union ms => 2 ≤ ms.length ∧ (ms.map (·.kind)).Nodup ∧
      ∀ m ∈ ms, isNamed m.kind = true ∧ m.isUnion = false
  | .null => t.nullable = true
  | _ => True

theorem Normal.nullable (h : t.Normal) (hnull : t.isNull = true) : t.nullable = true := by
  obtain ⟨kind, nullable, postgres⟩ := t
  cases kind with
  | null => exact h
  | _ => cases hnull

/-- A type is its only member, or all of its members are named. -/
theorem Normal.members_cases (h : t.Normal) : t.isUnion = false ∧ t.members = [t] ∨
      (t.members ≠ [] ∧ t.memberKinds.Nodup ∧
        ∀ m ∈ t.members, isNamed m.kind = true ∧ m.isUnion = false) := by
  obtain ⟨kind, nullable, postgres⟩ := t
  cases kind with
  | union ms =>
    obtain ⟨hlen, hrest⟩ := h
    exact .inr ⟨fun hnil => by simp [members] at hnil; simp [hnil] at hlen, hrest⟩
  | _ => exact .inl ⟨rfl, rfl⟩

theorem Normal.members_ne_nil (h : t.Normal) : t.members ≠ [] := by
  rcases h.members_cases with ⟨-, hms⟩ | ⟨hne, -⟩
  · simp [hms]
  · exact hne

theorem Normal.isUnion_member (h : t.Normal) (hm : m ∈ t.members) : m.isUnion = false := by
  rcases h.members_cases with ⟨hunion, hms⟩ | ⟨-, -, hms⟩
  · rw [hms, mem_singleton] at hm
    rwa [hm]
  · exact (hms m hm).2

theorem Normal.eq_of_member (h : t.Normal) (hm : m ∈ t.members) (hnamed : isNamed m.kind = false) :
    m = t := by
  rcases h.members_cases with ⟨-, hms⟩ | ⟨-, -, hms⟩
  · simpa [hms] using hm
  · rw [(hms m hm).1] at hnamed
    cases hnamed

theorem Normal.summary_memberKinds (h : t.Normal) : summary t.memberKinds = t.memberKinds := by
  rcases h.members_cases with ⟨-, hms⟩ | ⟨hne, hnodup, hms⟩
  · rw [memberKinds, hms]
    obtain ⟨kind, nullable, postgres⟩ := t
    cases kind <;> rfl
  · have hnamed : t.memberKinds.filter isNamed = t.memberKinds :=
      filter_eq_self.2 (forall_mem_map.2 fun m hm => (hms m hm).1)
    rcases summary_cases t.memberKinds with ⟨hnone, -⟩ | ⟨-, hsummary⟩
    · rw [hnamed] at hnone
      exact absurd (map_eq_nil_iff.1 hnone) hne
    · rw [hsummary, hnamed, Repetition.eraseDups_of_nodup hnodup]

section

variable (h : ∀ t ∈ items, t.Normal)
include h

theorem isUnion_of_mem_distinctMembers (hm : m ∈ distinctMembers items) : m.isUnion = false := by
  obtain ⟨y, hy, -, hkind, -⟩ := mem_distinctMembers hm
  obtain ⟨t, ht, hy⟩ := mem_flatMap.1 hy
  rw [isUnion, ← hkind]
  exact (h t ht).isUnion_member hy

theorem map_marked_union : (union items).members.map marked =
    match (dropUnknown (distinctMembers items)).map marked with
    | [] => [null.marked]
    | [only] => [(only.1, (union items).nullable)]
    | several => several := by
  have hunion : ∀ m ∈ dropUnknown (distinctMembers items), m.isUnion = false := fun m hm =>
    isUnion_of_mem_distinctMembers h (dropUnknown_subset hm)
  unfold union
  dsimp only
  split
  · next hnone => rw [hnone]; rfl
  · next only hone =>
    rw [hone]
    have honly := hunion only (hone ▸ mem_singleton_self only)
    obtain ⟨kind, nullable, postgres⟩ := only
    cases kind with
    | union => cases honly
    | _ => rfl
  · next hnone hone =>
    rcases hkept : dropUnknown (distinctMembers items) with _ | ⟨first, _ | ⟨second, rest⟩⟩
    · exact absurd hkept hnone
    · exact absurd hkept (hone first)
    · rfl

theorem memberKinds_union : (union items).memberKinds = summary (items.flatMap memberKinds) := by
  have hkinds := congrArg (List.map Prod.fst) (map_marked_union h)
  rw [map_map] at hkinds
  refine hkinds.trans ?_
  rw [summary_flatMap_memberKinds]
  rcases dropUnknown (distinctMembers items) with _ | ⟨first, _ | ⟨second, rest⟩⟩
  · rfl
  · rfl
  · simp [marked]

theorem nullable_union : (union items).nullable = (items.any (·.nullable) || items.isEmpty) := by
  have hitem : ∀ m ∈ items.flatMap members, isNamed m.kind = false → m ∈ items := by
    intro m hm hnamed
    obtain ⟨t, ht, hm⟩ := mem_flatMap.1 hm
    rwa [(h t ht).eq_of_member hm hnamed]
  have hflag : (items.any (·.nullable) || (items.flatMap members).any (·.isNull)
      || ((distinctMembers items).any (!·.isUnknown) &&
        (distinctMembers items).any fun m => m.isUnknown && m.nullable)) =
      items.any (·.nullable) := by
    rw [Bool.eq_iff_iff]
    simp only [Bool.or_eq_true, Bool.and_eq_true, any_eq_true]
    refine ⟨?_, fun h => .inl (.inl h)⟩
    rintro ((hnullable | ⟨m, hm, hnull⟩) | ⟨-, m, hm, hunknown, hnullable⟩)
    · exact hnullable
    · have hm := hitem m hm (isNamed_of_isNull hnull)
      exact ⟨m, hm, (h m hm).nullable hnull⟩
    · obtain ⟨y, hy, -, hkind, hflag⟩ := mem_distinctMembers hm
      exact ⟨y, hitem y hy (hkind ▸ isNamed_of_isUnknown hunknown), hflag.trans hnullable⟩
  by_cases hempty : items = []
  · subst hempty
    rfl
  · rw [isEmpty_eq_false_iff.2 hempty, Bool.or_false]
    unfold union
    dsimp only
    rw [hflag]
    split
    · next hnone =>
      obtain ⟨t, ht⟩ := exists_mem_of_ne_nil _ hempty
      obtain ⟨m, hm⟩ := exists_mem_of_ne_nil _ (h t ht).members_ne_nil
      have hm := mem_flatMap.2 ⟨t, ht, hm⟩
      have hnull := isNull_of_distinctMembers (dropUnknown_eq_nil hnone) m hm
      have hm := hitem m hm (isNamed_of_isNull hnull)
      exact (any_eq_true.2 ⟨m, hm, (h m hm).nullable hnull⟩).symm
    · rfl
    · rfl

theorem normal_union : (union items).Normal := by
  have hkinds := memberKinds_union h
  have hmember : ∀ m ∈ dropUnknown (distinctMembers items), m.isUnion = false ∧ m.isNull = false := by
    intro m hm
    have hm := dropUnknown_subset hm
    obtain ⟨y, -, hnull, hkind, -⟩ := mem_distinctMembers hm
    exact ⟨isUnion_of_mem_distinctMembers h hm, by rwa [isNull, ← hkind]⟩
  unfold union at hkinds ⊢
  rcases hkept : dropUnknown (distinctMembers items) with _ | ⟨first, _ | ⟨second, rest⟩⟩ <;>
    simp only [hkept] at hkinds hmember ⊢
  · exact rfl
  · obtain ⟨hunion, hnull⟩ := hmember first (mem_singleton_self first)
    obtain ⟨kind, nullable, postgres⟩ := first
    cases kind with
    | union => cases hunion
    | null => cases hnull
    | _ => trivial
  · rcases summary_cases (items.flatMap memberKinds) with ⟨-, hsummary⟩ | ⟨-, hsummary⟩
    · have hshort := congrArg List.length (hkinds.trans hsummary)
      split at hshort <;> simp [memberKinds, members] at hshort
    · have hnamed : (first :: second :: rest).map (·.kind) =
          ((items.flatMap memberKinds).filter isNamed).eraseDups := hkinds.trans hsummary
      refine ⟨by simp, hnamed ▸ Repetition.nodup_eraseDups _, fun m hm => ⟨?_, (hmember m hm).1⟩⟩
      exact isNamed_of_mem (hnamed ▸ mem_map_of_mem hm)

end

/-- Both types have members of the same kinds in the same order, and the same flag. -/
def Alike (t u : SqlType) : Prop := t.memberKinds = u.memberKinds ∧ t.nullable = u.nullable

theorem Normal.alike_union (h : t.Normal) : t.Alike (union [t]) := by
  have hall : ∀ u ∈ [t], u.Normal := forall_mem_singleton.2 h
  refine ⟨?_, ?_⟩
  · rw [memberKinds_union hall, flatMap_singleton, h.summary_memberKinds]
  · rw [nullable_union hall]
    simp

variable {x y : SqlType} {flat xs zs : List SqlType}

theorem summary_summary_append (kinds more : List (TypeKind SqlType)) :
    summary (summary kinds ++ more) = summary (kinds ++ more) := by
  refine summary_congr ?_ fun hnone => ?_
  · rw [filter_append, filter_append, filter_summary]
    exact Repetition.eraseDups_eraseDups_append _ _
  · rw [filter_append, filter_summary, append_eq_nil_iff, Repetition.eraseDups_eq_nil] at hnone
    simp [mem_unknown_summary, hnone.1]

/-! ## The order of the items -/

theorem exists_mem_insertMember (h : y ∈ m :: flat) :
    ∃ x ∈ insertMember m flat, x.kind = y.kind ∧ (y.nullable = true → x.nullable = true) := by
  induction flat with
  | nil => exact ⟨y, h, rfl, id⟩
  | cons first rest ih =>
    rw [insertMember]
    split
    · next hkind =>
      have hkind := eq_of_beq hkind
      rcases mem_cons.1 h with rfl | h
      · exact ⟨_, .head _, hkind, fun hy => by simp [hy]⟩
      · rcases mem_cons.1 h with rfl | h
        · exact ⟨_, .head _, rfl, fun hy => by simp [hy]⟩
        · exact ⟨y, .tail _ h, rfl, id⟩
    · rcases mem_cons.1 ((List.Perm.swap first m rest).mem_iff.1 h) with rfl | h
      · exact ⟨y, .head _, rfl, id⟩
      · obtain ⟨x, hx, hsame⟩ := ih h
        exact ⟨x, .tail _ hx, hsame⟩

/-- Each member of the items is found again, and is nullable there if it was. -/
theorem exists_mem_distinctMembers (h : y ∈ items.flatMap members) (hnull : y.isNull = false) :
    ∃ x ∈ distinctMembers items, x.kind = y.kind ∧ (y.nullable = true → x.nullable = true) := by
  have hfold : ∀ ms flat : List SqlType, ∀ y ∈ ms ++ flat,
      ∃ x ∈ ms.foldl (fun flat m => insertMember m flat) flat,
        x.kind = y.kind ∧ (y.nullable = true → x.nullable = true) := by
    intro ms
    induction ms with
    | nil => exact fun _ y hy => ⟨y, hy, rfl, id⟩
    | cons m rest ih =>
      intro flat y hy
      rcases mem_append.1 (perm_middle.mem_iff.2 hy : y ∈ rest ++ m :: flat) with hy | hy
      · exact ih _ y (mem_append_left _ hy)
      · obtain ⟨x, hx, hkind, hflag⟩ := exists_mem_insertMember hy
        obtain ⟨z, hz, hkind', hflag'⟩ := ih _ x (mem_append_right _ hx)
        exact ⟨z, hz, hkind'.trans hkind, fun h => hflag' (hflag h)⟩
  exact hfold _ [] y (by simpa using ⟨mem_flatMap.1 h, hnull⟩)

theorem nodup_kinds_distinctMembers (items : List SqlType) :
    ((distinctMembers items).map (·.kind)).Nodup := by
  rw [map_kind_distinctMembers]
  exact Repetition.nodup_eraseDups _

theorem marked_mem_distinctMembers (h : xs.flatMap members ⊆ zs.flatMap members)
    (h' : zs.flatMap members ⊆ xs.flatMap members) (hx : x ∈ distinctMembers xs) :
    x.marked ∈ (distinctMembers zs).map marked := by
  -- a member that is nullable in one list is nullable in the other
  have hflag : ∀ {xs zs : List SqlType}, xs.flatMap members ⊆ zs.flatMap members →
      ∀ x ∈ distinctMembers xs, ∃ z ∈ distinctMembers zs,
        z.kind = x.kind ∧ (x.nullable = true → z.nullable = true) := by
    intro xs zs hsub x hx
    obtain ⟨y, hy, hnull, hkind, hsame⟩ := mem_distinctMembers hx
    obtain ⟨z, hz, hkind', hle⟩ := exists_mem_distinctMembers (hsub hy) hnull
    exact ⟨z, hz, hkind'.trans hkind, fun h => hle (hsame.trans h)⟩
  obtain ⟨z, hz, hkind, hle⟩ := hflag h x hx
  obtain ⟨w, hw, hkind', hle'⟩ := hflag h' z hz
  obtain rfl : w = x :=
    inj_on_of_nodup_map (nodup_kinds_distinctMembers xs) hw hx (hkind'.trans hkind)
  exact mem_map.2 ⟨z, hz, Prod.ext hkind (Bool.eq_iff_iff.2 ⟨hle', hle⟩)⟩

theorem perm_distinctMembers (h : zs.Perm xs) :
    ((distinctMembers zs).map marked).Perm ((distinctMembers xs).map marked) := by
  have hnodup : ∀ items : List SqlType, ((distinctMembers items).map marked).Nodup := fun items =>
    List.Nodup.of_map Prod.fst (by rw [map_map]; exact nodup_kinds_distinctMembers items)
  have hsub : zs.flatMap members ⊆ xs.flatMap members := (h.flatMap_right _).subset
  have hsub' : xs.flatMap members ⊆ zs.flatMap members := (h.flatMap_right _).symm.subset
  refine (perm_ext_iff_of_nodup (hnodup zs) (hnodup xs)).2 fun p => ⟨fun hp => ?_, fun hp => ?_⟩
  · obtain ⟨x, hx, rfl⟩ := mem_map.1 hp
    exact marked_mem_distinctMembers hsub hsub' hx
  · obtain ⟨x, hx, rfl⟩ := mem_map.1 hp
    exact marked_mem_distinctMembers hsub' hsub hx

theorem perm_dropUnknown (h : zs.Perm xs) : ((dropUnknown (distinctMembers zs)).map marked).Perm
      ((dropUnknown (distinctMembers xs)).map marked) := by
  have hdrop : ∀ l : List SqlType, (dropUnknown l).map marked =
      if (l.map marked).any (!isUnknownKind ·.1) then
        (l.map marked).filter (!isUnknownKind ·.1) else l.map marked := by
    intro l
    rw [dropUnknown, any_map, filter_map]
    exact apply_ite (List.map marked) _ _ _
  have hperm := perm_distinctMembers h
  rw [hdrop, hdrop, hperm.any_eq]
  split
  · exact hperm.filter _
  · exact hperm

/-- The order of the items is no more than the order of the members. -/
theorem perm_union (hxs : ∀ t ∈ xs, t.Normal) (h : zs.Perm xs) :
    ((union zs).members.map marked).Perm ((union xs).members.map marked) ∧
      (union zs).nullable = (union xs).nullable := by
  have hzs : ∀ t ∈ zs, t.Normal := fun t ht => hxs t (h.mem_iff.1 ht)
  have hflag : (union zs).nullable = (union xs).nullable := by
    rw [nullable_union hzs, nullable_union hxs, h.any_eq, h.isEmpty_eq]
  refine ⟨?_, hflag⟩
  have hperm := perm_dropUnknown h
  rw [map_marked_union hzs, map_marked_union hxs, hflag]
  generalize (dropUnknown (distinctMembers zs)).map marked = l at hperm ⊢
  generalize (dropUnknown (distinctMembers xs)).map marked = k at hperm ⊢
  rcases k with _ | ⟨first, _ | ⟨second, rest⟩⟩
  · rw [hperm.eq_nil]
  · rw [hperm.eq_singleton]
  · rcases l with _ | ⟨_, _ | ⟨_, _⟩⟩
    · exact absurd hperm.length_eq (by simp)
    · exact absurd hperm.length_eq (by simp)
    · exact hperm

/-- A part of the items may be joined first. -/
theorem alike_regrouped {ys : List SqlType} (hne : xs ≠ []) (hxs : ∀ t ∈ xs, t.Normal)
    (hys : ∀ t ∈ ys, t.Normal) : (union (union xs :: ys)).Alike (union (xs ++ ys)) := by
  have hcons : ∀ t ∈ union xs :: ys, t.Normal := forall_mem_cons.2 ⟨normal_union hxs, hys⟩
  have hall : ∀ t ∈ xs ++ ys, t.Normal := forall_mem_append.2 ⟨hxs, hys⟩
  refine ⟨?_, ?_⟩
  · rw [memberKinds_union hcons, memberKinds_union hall, flatMap_cons, flatMap_append,
      memberKinds_union hxs]
    exact summary_summary_append _ _
  · have hempty : xs.isEmpty = false := isEmpty_eq_false_iff.2 hne
    simp [nullable_union hcons, nullable_union hall, nullable_union hxs, hempty, hne]

/-! ## The names of PostgreSQL types -/

/-- The name of the PostgreSQL type of the first member of the kind. -/
def named? (k : TypeKind SqlType) (ms : List SqlType) : Option (Option String) :=
  (ms.find? (·.kind == k)).map (·.postgres)

theorem named?_append (k : TypeKind SqlType) (ms more : List SqlType) :
    named? k (ms ++ more) = (named? k ms).or (named? k more) := by
  rw [named?, find?_append, Option.map_or]
  rfl

/-- A member that is there already keeps its name. -/
theorem named?_insertMember (k : TypeKind SqlType) (m : SqlType) (flat : List SqlType) :
    named? k (insertMember m flat) = named? k (flat ++ [m]) := by
  induction flat with
  | nil => rfl
  | cons first rest ih =>
    rw [insertMember]
    split
    · next hkind =>
      rw [cons_append, named?, named?, find?_cons, find?_cons]
      dsimp only
      split
      · rfl
      · next hk =>
        rw [eq_of_beq hkind] at hk
        simp [find?_append, hk]
    · rw [cons_append, named?, named?, find?_cons, find?_cons]
      split
      · rfl
      · exact ih

theorem named?_distinctMembers {k : TypeKind SqlType} (hk : k ≠ .null) (items : List SqlType) :
    named? k (distinctMembers items) = named? k (items.flatMap members) := by
  have hfold : ∀ ms flat : List SqlType,
      named? k (ms.foldl (fun flat m => insertMember m flat) flat) = named? k (flat ++ ms) := by
    intro ms
    induction ms with
    | nil => exact fun flat => by rw [append_nil]; rfl
    | cons m rest ih =>
      intro flat
      rw [foldl_cons, ih, named?_append, named?_insertMember, ← named?_append, append_assoc]
      rfl
  rw [distinctMembers, hfold, nil_append, named?, find?_filter, named?]
  congr 2
  funext x
  rw [Bool.eq_iff_iff, decide_eq_true_iff, Bool.not_eq_true']
  exact and_iff_right_of_imp fun hx => isNull_eq_false_iff.2 (eq_of_beq hx ▸ hk)

theorem named?_of_mem {ms : List SqlType} (hnodup : (ms.map (·.kind)).Nodup) (hm : m ∈ ms) :
    named? m.kind ms = some m.postgres := by
  obtain ⟨x, hx⟩ := Option.isSome_iff_exists.1
    (find?_isSome.2 ⟨m, hm, beq_self_eq_true m.kind⟩ : (ms.find? (·.kind == m.kind)).isSome)
  obtain rfl : x = m :=
    inj_on_of_nodup_map hnodup (mem_of_find?_eq_some hx) hm (eq_of_beq (find?_some hx :))
  rw [named?, hx]
  rfl

/-- A union has the name of the first member of each kind. -/
theorem named?_of_mem_union (h : ∀ t ∈ items, t.Normal) (hm : m ∈ (union items).members) :
    m = null ∨ m.kind ≠ .null ∧ named? m.kind (items.flatMap members) = some m.postgres := by
  have hkept : ∀ x ∈ dropUnknown (distinctMembers items), x.isUnion = false ∧
      x.kind ≠ .null ∧ named? x.kind (items.flatMap members) = some x.postgres := by
    intro x hx
    have hx := dropUnknown_subset hx
    obtain ⟨y, -, hnull, hkind, -⟩ := mem_distinctMembers hx
    rw [isNull_eq_false_iff, hkind] at hnull
    refine ⟨isUnion_of_mem_distinctMembers h hx, hnull, ?_⟩
    rw [← named?_distinctMembers hnull, named?_of_mem (nodup_kinds_distinctMembers items) hx]
  unfold union at hm
  dsimp only at hm
  split at hm
  · exact .inl (mem_singleton.1 hm)
  · next only hone =>
    obtain ⟨honly, hname⟩ := hkept only (hone ▸ mem_singleton_self only)
    obtain ⟨kind, nullable, postgres⟩ := only
    cases kind with
    | union => cases honly
    | _ =>
      obtain rfl := mem_singleton.1 hm
      exact .inr hname
  · exact .inr (hkept m hm).2

/-- Members of one kind have one name. -/
def OneName (ms : List SqlType) : Prop :=
  ∀ a ∈ ms, ∀ b ∈ ms, a.kind = b.kind → a.postgres = b.postgres

/-- With one name for each kind the members are those of any other order of the items. -/
theorem perm_members_union (hxs : ∀ t ∈ xs, t.Normal) (hname : OneName (xs.flatMap members))
    (h : zs.Perm xs) : (union zs).members.Perm (union xs).members := by
  -- a member can be told from its kind and its flag
  let unmarked (p : TypeKind SqlType × Bool) : SqlType :=
    { kind := p.1, nullable := p.2,
      postgres := if p.1 = .null then none else (named? p.1 (xs.flatMap members)).join }
  have hunmarked : ∀ zs : List SqlType, zs.Perm xs →
      ((union zs).members.map marked).map unmarked = (union zs).members := by
    intro zs h
    refine (map_map ..).trans ((map_congr_left fun m hm => ?_).trans (map_id _))
    rcases named?_of_mem_union (fun t ht => hxs t (h.mem_iff.1 ht)) hm with rfl | ⟨hnull, hm⟩
    · rfl
    · obtain ⟨y, hy, hpost⟩ := Option.map_eq_some_iff.1 hm
      have hmem : y ∈ xs.flatMap members :=
        (h.flatMap_right _).mem_iff.1 (mem_of_find?_eq_some hy)
      have hkind : y.kind = m.kind := eq_of_beq (find?_some hy :)
      obtain ⟨x, hx⟩ := Option.isSome_iff_exists.1
        (find?_isSome.2 ⟨y, hmem, by simp [hkind]⟩ :
          ((xs.flatMap members).find? (·.kind == m.kind)).isSome)
      have hsame : x.postgres = y.postgres :=
        hname x (mem_of_find?_eq_some hx) y hmem ((eq_of_beq (find?_some hx :)).trans hkind.symm)
      have hpostgres : (unmarked m.marked).postgres = m.postgres := by
        change (if m.kind = .null then none else (named? m.kind _).join) = _
        rw [if_neg hnull, named?, hx, Option.map_some, hsame, hpost, Option.join_some]
      obtain ⟨kind, nullable, postgres⟩ := m
      exact congrArg (SqlType.mk kind nullable) hpostgres
  rw [← hunmarked zs h, ← hunmarked xs (.refl xs)]
  exact (perm_union hxs h).1.map _

/-- Unions of normal types are normal and nullable if an item is. A part of the items may be joined
first. Another order of the items is another order of the members up to the names of PostgreSQL
types: a member has the name of the first one of its kind, and with one name for each kind the
members are the same. -/
theorem union_regrouped {xs ys : List SqlType} (hne : xs ≠ []) (hxs : ∀ t ∈ xs, t.Normal)
    (hys : ∀ t ∈ ys, t.Normal) :
    (union xs).Normal ∧ (union xs).nullable = xs.any (·.nullable) ∧
      (union (union xs :: ys)).Alike (union (xs ++ ys)) ∧
      ∀ zs, zs.Perm xs → ((union zs).members.map marked).Perm ((union xs).members.map marked) ∧
        (union zs).nullable = (union xs).nullable ∧
        (∀ m ∈ (union zs).members, m = null ∨
          m.kind ≠ .null ∧ named? m.kind (zs.flatMap members) = some m.postgres) ∧
        (OneName (xs.flatMap members) → (union zs).members.Perm (union xs).members) := by
  have hflag : (union xs).nullable = xs.any (·.nullable) := by
    rw [nullable_union hxs, isEmpty_eq_false_iff.2 hne, Bool.or_false]
  refine ⟨normal_union hxs, hflag, alike_regrouped hne hxs hys, fun zs h => ?_⟩
  obtain ⟨hmarked, hnullable⟩ := perm_union hxs h
  exact ⟨hmarked, hnullable, fun m hm => named?_of_mem_union (fun t ht => hxs t (h.mem_iff.1 ht)) hm,
    fun hname => perm_members_union hxs hname h⟩

/-- Grouping matters for the flags of members only, and with one name for each kind the order of the
items for the order of the members only. -/
theorem union_regrouped_nullable :
    (union [union [string, null], number] ≠ union [string, null, number] ∧
      (union [union [string, null], number]).Alike (union [string, null, number])) ∧
    (union [null, string]).members.Perm (union [string, null]).members := by
  have hall : ∀ t ∈ [string, null], t.Normal := by simp [Normal, string, null]
  obtain ⟨-, -, halike, hperm⟩ := @union_regrouped [string, null] [number] (by simp) hall
    (by simp [Normal, number])
  exact ⟨⟨by decide, halike⟩, (hperm _ (.swap ..)).2.2.2 (by unfold OneName; decide)⟩

/-- Where two types of one kind change places, the union has another name. -/
theorem not_perm_members_union :
    let text : SqlType := { string with postgres := some "text" }
    let varchar : SqlType := { string with postgres := some "varchar" }
    (∀ t ∈ [text, varchar, number], t.Normal) ∧ [varchar, text, number].Perm [text, varchar, number] ∧
      ¬ (union [varchar, text, number]).members.Perm (union [text, varchar, number]).members :=
  ⟨by simp [Normal, string, number], by decide, by decide⟩

end SqlTyping.SqlType
