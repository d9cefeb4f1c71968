import SqlTyping.Proofs.Repetition
import SqlTyping.SqlType.Union

/-!
# Types that are coherent about null

Whether the value of a union may be null is said by the flag of the union, and again by those of its
members. A type is coherent if this agrees in all its parts: a union that is not nullable has no
nullable members. It is formed if its parts are, whatever its own flag says. The union of coherent
types is coherent (`SqlType.coherent_union`).
-/

namespace SqlTyping.SqlType

open List

variable {lax : Prop} {t m x : SqlType} {items flat : List SqlType}

/-! ## Members of unions -/

theorem mem_insertMember (h : x ∈ insertMember m flat) :
    ∃ y ∈ m :: flat, y.kind = x.kind ∧ y.nullable = x.nullable := by
  induction flat with
  | nil => exact ⟨x, h, rfl, rfl⟩
  | cons first rest ih =>
    rw [insertMember] at h
    split at h
    · next hkind =>
      rcases mem_cons.1 h with rfl | h
      · cases hfirst : first.nullable with
        | true => exact ⟨first, by simp, rfl, hfirst⟩
        | false => exact ⟨m, by simp, (eq_of_beq hkind).symm, rfl⟩
      · exact ⟨x, by simp [h], rfl, rfl⟩
    · rcases mem_cons.1 h with rfl | h
      · exact ⟨x, by simp, rfl, rfl⟩
      · obtain ⟨y, hy, hsame⟩ := ih h
        exact ⟨y, (by simp : m :: rest ⊆ m :: first :: rest) hy, hsame⟩

/-- Each member has its kind and its flag from members of the items. -/
theorem mem_distinctMembers (h : x ∈ distinctMembers items) :
    ∃ y ∈ items.flatMap members, y.isNull = false ∧ y.kind = x.kind ∧ y.nullable = x.nullable := by
  have hfold : ∀ ms flat : List SqlType, ∀ x ∈ ms.foldl (fun flat m => insertMember m flat) flat,
      ∃ y ∈ ms ++ flat, y.kind = x.kind ∧ y.nullable = x.nullable := by
    intro ms
    induction ms with
    | nil => exact fun _ x hx => ⟨x, hx, rfl, rfl⟩
    | cons m rest ih =>
      intro flat x hx
      obtain ⟨y, hy, hkind, hnullable⟩ := ih _ x hx
      rcases mem_append.1 hy with hy | hy
      · exact ⟨y, by simp [hy], hkind, hnullable⟩
      · obtain ⟨z, hz, hkind', hnullable'⟩ := mem_insertMember hy
        exact ⟨z, (by simp : m :: flat ⊆ m :: rest ++ flat) hz, hkind'.trans hkind,
          hnullable'.trans hnullable⟩
  obtain ⟨y, hy, hsame⟩ := hfold _ _ x h
  rw [append_nil] at hy
  obtain ⟨hy, hnull⟩ := mem_filter.1 hy
  exact ⟨y, hy, by simpa using hnull, hsame⟩

theorem map_kind_insertMember (m : SqlType) (flat : List SqlType) :
    (insertMember m flat).map (·.kind) =
      if m.kind ∈ flat.map (·.kind) then flat.map (·.kind) else flat.map (·.kind) ++ [m.kind] := by
  induction flat with
  | nil => rfl
  | cons x rest ih =>
    rw [insertMember]
    by_cases hkind : x.kind = m.kind
    · simp [hkind]
    · have hne : m.kind ≠ x.kind := Ne.symm hkind
      rw [if_neg (by simpa using hkind), map_cons, ih, map_cons]
      simp only [mem_cons, hne, false_or]
      split <;> rfl

/-- The members have the kinds that appear, each once and in the order of first appearance. -/
theorem map_kind_distinctMembers (items : List SqlType) : (distinctMembers items).map (·.kind) =
      (((items.flatMap members).filter (!·.isNull)).map (·.kind)).eraseDups := by
  have hfold : ∀ ms flat : List SqlType, (flat.map (·.kind)).Nodup →
      (ms.foldl (fun flat m => insertMember m flat) flat).map (·.kind) =
        (flat.map (·.kind) ++ ms.map (·.kind)).eraseDups := by
    intro ms
    induction ms with
    | nil => exact fun flat h => by simp [Repetition.eraseDups_of_nodup h]
    | cons m rest ih =>
      intro flat h
      have hkinds := map_kind_insertMember m flat
      by_cases hm : m.kind ∈ flat.map (·.kind)
      · rw [if_pos hm] at hkinds
        rw [foldl_cons, ih _ (hkinds ▸ h), hkinds, eraseDups_append, eraseDups_append]
        simp only [map_cons, List.removeAll, filter_cons]
        simp [hm]
      · rw [if_neg hm] at hkinds
        have hnodup : ((insertMember m flat).map (·.kind)).Nodup := by
          rw [hkinds]
          exact h.append (nodup_singleton _) (disjoint_singleton.2 hm)
        rw [foldl_cons, ih _ hnodup, hkinds]
        simp
  exact hfold _ [] nodup_nil

theorem isNull_of_distinctMembers (h : distinctMembers items = []) :
    ∀ m ∈ items.flatMap members, m.isNull = true := by
  have hkinds := map_kind_distinctMembers items
  rw [h, map_nil, eq_comm, Repetition.eraseDups_eq_nil, map_eq_nil_iff, filter_eq_nil_iff] at hkinds
  simpa using hkinds

theorem dropUnknown_subset : dropUnknown flat ⊆ flat := by
  unfold dropUnknown
  split
  · exact filter_subset_self _
  · exact List.Subset.refl _

theorem dropUnknown_eq_nil (h : dropUnknown flat = []) : flat = [] := by
  unfold dropUnknown at h
  split at h
  · next hany =>
    obtain ⟨m, hm, hknown⟩ := any_eq_true.1 hany
    exact absurd hknown (filter_eq_nil_iff.1 h m hm)
  · exact h

/-- A union is the type of `NULL`, a member of its items, or has several of these. It is nullable if
an item is. -/
theorem union_cases (items : List SqlType) :
    union items = null ∨ (∃ only ∈ distinctMembers items, ∃ n, union items = only.withNullable n) ∨
      ∃ several n, several ⊆ distinctMembers items ∧ (∀ t ∈ items, t.nullable = true → n = true) ∧
        union items = ⟨.union several, n, none⟩ := by
  unfold union
  dsimp only
  split
  · exact .inl rfl
  · next only hone =>
    exact .inr (.inl ⟨only, dropUnknown_subset (hone ▸ mem_singleton_self only), _, rfl⟩)
  · refine .inr (.inr ⟨_, _, dropUnknown_subset, fun t ht hnullable => ?_, rfl⟩)
    rw [any_eq_true.2 ⟨t, ht, hnullable⟩]
    rfl

/-! ## Coherence -/

/-- The types that a type is made of. -/
def parts (t : SqlType) : List SqlType :=
  match t.kind with
  | .array part | .optional part => [part]
  | .union members => members
  | .composite _ fields | .object fields => fields.map Field.value
  | _ => []

def isUnion (t : SqlType) : Bool := t.kind matches .union _

/-- No member of a union is a union or the type of `NULL`. -/
def Flat (t : SqlType) : Prop :=
  ∀ ms, t.kind = .union ms → ∀ m ∈ ms, m.isUnion = false ∧ m.isNull = false

/-- A union that is not nullable has no nullable members, unless this is let go. -/
def FlagsFit (lax : Prop) (t : SqlType) : Prop :=
  ∀ ms, t.kind = .union ms → lax ∨ t.nullable = true ∨ ∀ m ∈ ms, m.nullable = false

inductive Coherent (lax : Prop) : SqlType → Prop where
  | intro {t : SqlType} : (∀ part ∈ t.parts, Coherent lax part) → t.Flat → t.FlagsFit lax →
      Coherent lax t

/-- The parts of the type are coherent, and it would be itself if it were nullable. -/
structure Formed (lax : Prop) (t : SqlType) : Prop where
  parts : ∀ part ∈ t.parts, part.Coherent lax
  flat : t.Flat

/-- The type is coherent whether it is nullable or not. -/
def Firm (lax : Prop) (t : SqlType) : Prop := ∀ n, (t.withNullable n).Coherent lax

theorem Coherent.formed (h : t.Coherent lax) : t.Formed lax := by
  cases h with
  | intro hparts hflat _ => exact ⟨hparts, hflat⟩

theorem Coherent.fits (h : t.Coherent lax) : t.FlagsFit lax := by
  cases h with
  | intro _ _ hfits => exact hfits

namespace Formed

/-- The flag of a type and its name in the database do not matter here. -/
theorem congr (h : t.Formed lax) (hkind : x.kind = t.kind) : x.Formed lax := by
  have hparts : x.parts = t.parts := by unfold SqlType.parts; rw [hkind]
  exact ⟨hparts ▸ h.parts, fun ms hms => h.flat ms (hkind.symm.trans hms)⟩

theorem withNullable (h : t.Formed lax) (n : Bool) : (t.withNullable n).Formed lax := h.congr rfl

theorem coherent (h : t.Formed lax) (hfits : t.FlagsFit lax) : t.Coherent lax :=
  .intro h.parts h.flat hfits

theorem of_lax (h : t.Formed lax) (hlax : lax) : t.Coherent lax := h.coherent fun _ _ => .inl hlax

theorem firm (h : t.Formed lax) (hunion : t.isUnion = false) : t.Firm lax := by
  refine fun n => (h.withNullable n).coherent fun ms hms => ?_
  rw [isUnion, show t.kind = .union ms from hms] at hunion
  cases hunion

theorem of_parts_eq_nil (h : t.parts = []) : t.Formed lax := by
  refine ⟨fun part hpart => ?_, fun ms hms m hm => ?_⟩
  · rw [h] at hpart
    cases hpart
  · rw [SqlType.parts, hms] at h
    cases (h ▸ hm : m ∈ [])

end Formed

namespace Coherent

/-- What is nullable may stay so. -/
theorem withNullable (h : t.Coherent lax) {n : Bool} (hn : t.nullable = true → n = true) :
    (t.withNullable n).Coherent lax :=
  (h.formed.withNullable n).coherent fun ms hms => (h.fits ms hms).imp_right (Or.imp_left hn)

theorem withPostgres (h : t.Coherent lax) (name : String) : (t.withPostgres name).Coherent lax :=
  Formed.coherent (h.formed.congr rfl) h.fits

/-- The members of a coherent type are coherent, and are nullable only if it is. -/
theorem members (h : t.Formed lax) (hm : m ∈ t.members) : m.Formed lax ∧ m.isUnion = false ∧
      (t.FlagsFit lax → m.nullable = true → lax ∨ t.nullable = true) := by
  unfold SqlType.members at hm
  split at hm
  · next ms hms =>
    have hpart : m ∈ t.parts := by rw [SqlType.parts, hms]; exact hm
    refine ⟨(h.parts m hpart).formed, (h.flat ms hms m hm).1, fun hfits hnullable => ?_⟩
    refine (hfits ms hms).imp_right fun hfits => hfits.resolve_right fun hall => ?_
    rw [hall m hm] at hnullable
    cases hnullable
  · next hunion =>
    obtain rfl := mem_singleton.1 hm
    refine ⟨h, ?_, fun _ => .inr⟩
    unfold isUnion
    split
    · next ms hms => exact absurd hms (hunion ms)
    · rfl

end Coherent

theorem withNullable_nullable (t : SqlType) : t.withNullable t.nullable = t := by
  cases t
  rfl

theorem Firm.withPostgres (h : t.Firm lax) (name : String) : (t.withPostgres name).Firm lax :=
  fun n => (h n).withPostgres name

/-! ## Unions and common types -/

/-- A member of a union of formed types. -/
theorem formed_of_distinctMembers (h : ∀ t ∈ items, t.Formed lax) (hx : x ∈ distinctMembers items) :
    x.Formed lax ∧ x.isUnion = false ∧ x.isNull = false ∧ (x.nullable = true →
      (∀ t ∈ items, t.FlagsFit lax) → lax ∨ ∃ t ∈ items, t.nullable = true) := by
  obtain ⟨y, hy, hnull, hkind, hnullable⟩ := mem_distinctMembers hx
  obtain ⟨t, ht, hy⟩ := mem_flatMap.1 hy
  obtain ⟨hformed, hunion, hflag⟩ := Coherent.members (h t ht) hy
  refine ⟨hformed.congr hkind.symm, ?_, ?_, fun hx hfits => ?_⟩
  · rw [isUnion, ← hkind]
    exact hunion
  · rw [isNull, ← hkind]
    exact hnull
  · exact (hflag (hfits t ht) (hnullable.trans hx)).imp_right fun hn => ⟨t, ht, hn⟩

theorem formed_union (h : ∀ t ∈ items, t.Formed lax) : (union items).Formed lax := by
  rcases union_cases items with heq | ⟨only, honly, n, heq⟩ | ⟨several, n, hsub, -, heq⟩
  · rw [heq]
    exact .of_parts_eq_nil rfl
  · rw [heq]
    exact (formed_of_distinctMembers h honly).1.withNullable n
  · rw [heq]
    refine ⟨fun m hm => ?_, fun ms hms m hm => ?_⟩
    · obtain ⟨hformed, hunion, -⟩ := formed_of_distinctMembers h (hsub hm)
      exact withNullable_nullable m ▸ hformed.firm hunion m.nullable
    · cases hms
      obtain ⟨-, hunion, hnull, -⟩ := formed_of_distinctMembers h (hsub hm)
      exact ⟨hunion, hnull⟩

theorem coherent_union (h : ∀ t ∈ items, t.Coherent lax) : (union items).Coherent lax := by
  have hformed : ∀ t ∈ items, t.Formed lax := fun t ht => (h t ht).formed
  refine (formed_union hformed).coherent fun ms hms => ?_
  -- only a union with several members is a union at all
  rcases union_cases items with heq | ⟨only, honly, n, heq⟩ | ⟨several, n, hsub, hnullable, heq⟩
  · rw [heq] at hms
    cases hms
  · obtain ⟨-, hunion, -⟩ := formed_of_distinctMembers hformed honly
    rw [heq] at hms
    rw [isUnion, show only.kind = .union ms from hms] at hunion
    cases hunion
  · rw [heq] at hms ⊢
    obtain rfl := TypeKind.union.inj hms
    by_cases hall : ∀ m ∈ several, m.nullable = false
    · exact .inr (.inr hall)
    · obtain ⟨m, hm, hn⟩ : ∃ m ∈ several, m.nullable = true := by simpa using hall
      obtain ⟨-, -, -, hflag⟩ := formed_of_distinctMembers hformed (hsub hm)
      refine (hflag hn fun t ht => (h t ht).fits).imp_right fun ⟨t, ht, hn⟩ => ?_
      exact .inl (hnullable t ht hn)

/-- Arguments with a common type are formed as their union is, but not coherent, since one of them
that is not nullable makes the whole not nullable. -/
theorem formed_coalesce (h : ∀ t ∈ items, t.Formed lax) : (coalesce items).Formed lax := by
  have hfilter : ∀ t ∈ items.filter (!·.isNull), t.Formed lax := fun t ht => h t (mem_filter.1 ht).1
  unfold coalesce
  dsimp only
  split
  · exact .of_parts_eq_nil rfl
  · next first rest hitems =>
    rw [hitems] at hfilter
    split
    · exact (hfilter first mem_cons_self).withNullable _
    · exact (formed_union hfilter).withNullable _

end SqlTyping.SqlType
