import SqlTyping.Proofs.Resolution.Params
import SqlTyping.Proofs.Types.Coherence

/-!
# Parameters that must not be null

A parameter is typed in each query that it occurs in, and there it is not nullable if one of its
occurrences must not be null. The entries of all queries are merged afterwards, and what they merge
to can be nullable again: where an entry without such an occurrence is, or where a type is without
its flag still that of `NULL` (`Statement.merged_params`).
-/

namespace SqlTyping

open List

variable {ctx : ResolveContext} {e : Param TypeExpr} {p : Param SqlType}

/-! ## Unions -/

namespace SqlType

/-- The type is nullable in a union with others, whatever its own flag says. -/
inductive HidesNull : SqlType → Prop where
  | null {t : SqlType} : t.kind = .null → HidesNull t
  | empty {t : SqlType} : t.kind = .union [] → HidesNull t
  | unknown {t m : SqlType} {ms : List SqlType} : t.kind = .union ms → m ∈ ms →
      m.isUnknown = true → m.nullable = true → HidesNull t
  | inside {t m : SqlType} {ms : List SqlType} : t.kind = .union ms → m ∈ ms → HidesNull m →
      HidesNull t

def Admits (t : SqlType) : Prop := t.nullable = true ∨ t.HidesNull

/-- A member of a union that makes other unions of it nullable. -/
def Leaks (m : SqlType) : Prop := m.HidesNull ∨ m.isUnknown = true ∧ m.nullable = true

variable {t m x : SqlType} {items flat : List SqlType}

theorem HidesNull.congr (h : m.HidesNull) (hkind : t.kind = m.kind) : t.HidesNull := by
  cases h with
  | null h => exact .null (hkind.trans h)
  | empty h => exact .empty (hkind.trans h)
  | unknown h hm hunknown hnullable => exact .unknown (hkind.trans h) hm hunknown hnullable
  | inside h hm hhides => exact .inside (hkind.trans h) hm hhides

theorem hidesNull_of_isNull (h : t.isNull = true) : t.HidesNull := by
  unfold isNull at h
  split at h
  · exact .null ‹_›
  · cases h

theorem admits_of_members (hm : m ∈ t.members) (h : m.Leaks) : t.Admits := by
  unfold members at hm
  split at hm
  · next ms hkind =>
    rcases h with h | ⟨hunknown, hnullable⟩
    · exact .inr (.inside hkind hm h)
    · exact .inr (.unknown hkind hm hunknown hnullable)
  · obtain rfl := mem_singleton.1 hm
    exact h.symm.imp And.right id

/-- A type whose members are all null. -/
theorem admits_of_all_isNull (h : ∀ m ∈ t.members, m.isNull = true) : t.Admits := by
  cases hms : t.members with
  | cons m ms =>
    have hm : m ∈ t.members := by simp [hms]
    exact admits_of_members hm (.inl (hidesNull_of_isNull (h m hm)))
  | nil =>
    unfold members at hms
    split at hms
    · next hkind => exact .inr (.empty (hms ▸ hkind))
    · cases hms

theorem leaks_distinctMembers (h : x ∈ distinctMembers items) (hx : x.Leaks) :
    ∃ y ∈ items.flatMap members, y.Leaks := by
  obtain ⟨y, hy, -, hkind, hnullable⟩ := mem_distinctMembers h
  refine ⟨y, hy, hx.imp (·.congr hkind) (And.imp (fun hunknown => ?_) hnullable.trans)⟩
  rwa [isUnknown, hkind]

/-- A union is nullable only where one of its items is, or hides that it can be null. -/
theorem admits_union (hitems : items ≠ []) (h : (union items).Admits) : ∃ t ∈ items, t.Admits := by
  have hmember : ∀ m ∈ items.flatMap members, m.Leaks → ∃ t ∈ items, t.Admits := by
    intro m hm h
    obtain ⟨t, ht, hm⟩ := mem_flatMap.1 hm
    exact ⟨t, ht, admits_of_members hm h⟩
  have hflat : ∀ m ∈ distinctMembers items, m.Leaks → ∃ t ∈ items, t.Admits := by
    intro m hm h
    obtain ⟨y, hy, hleaks⟩ := leaks_distinctMembers hm h
    exact hmember y hy hleaks
  have hflag : (items.any (·.nullable) || (items.flatMap members).any (·.isNull)
      || ((distinctMembers items).any (!·.isUnknown) &&
        (distinctMembers items).any fun m => m.isUnknown && m.nullable)) = true →
      ∃ t ∈ items, t.Admits := by
    simp only [Bool.or_eq_true, Bool.and_eq_true, any_eq_true]
    rintro ((⟨t, ht, hnullable⟩ | ⟨m, hm, hnull⟩) | ⟨-, m, hm, hunknown⟩)
    · exact ⟨t, ht, .inl hnullable⟩
    · exact hmember m hm (.inl (hidesNull_of_isNull hnull))
    · exact hflat m hm (.inr hunknown)
  unfold union at h
  dsimp only at h
  split at h
  · next hnone =>
    obtain ⟨t, ht⟩ := exists_mem_of_ne_nil _ hitems
    refine ⟨t, ht, admits_of_all_isNull fun m hm => ?_⟩
    exact isNull_of_distinctMembers (dropUnknown_eq_nil hnone) m (mem_flatMap.2 ⟨t, ht, hm⟩)
  · next only hone =>
    rcases h with h | h
    · exact hflag h
    · have honly := dropUnknown_subset (hone ▸ mem_singleton_self only)
      exact hflat only honly (.inl (h.congr rfl))
  · next several hnil hone =>
    rcases h with h | h
    · exact hflag h
    · cases h with
      | null h => cases h
      | empty h => exact absurd (TypeKind.union.inj h) hnil
      | unknown h hm hunknown hnullable =>
        cases h
        exact hflat _ (dropUnknown_subset hm) (.inr ⟨hunknown, hnullable⟩)
      | inside h hm hhides =>
        cases h
        exact hflat _ (dropUnknown_subset hm) (.inl hhides)

end SqlType

/-! ## Merging -/

namespace Param

/-- Merged two at a time, the entries come to one. -/
inductive Merged : List (Param SqlType) → Param SqlType → Prop where
  | single (p : Param SqlType) : Merged [p] p
  | merge {ps qs : List (Param SqlType)} {p q : Param SqlType} : Merged ps p → Merged qs q →
      Merged (ps ++ qs) (p.merge SqlType.union q)

/-- What the entries of a list for a name were merged of. -/
inductive Gathered (name : String) : List (Param SqlType) → List (Param SqlType) → Prop where
  | nil : Gathered name [] []
  | other {p : Param SqlType} {params ps : List (Param SqlType)} : p.name ≠ name →
      Gathered name params ps → Gathered name (p :: params) ps
  | entry {p : Param SqlType} {params ps qs : List (Param SqlType)} : p.name = name →
      Merged qs p → Gathered name params ps → Gathered name (p :: params) (qs ++ ps)

variable {p q : Param SqlType} {params more ps qs : List (Param SqlType)} {name : String}

namespace Merged

theorem ne_nil (h : Merged ps p) : ps ≠ [] := by
  induction h with
  | single => exact cons_ne_nil _ _
  | merge _ _ ih => exact append_ne_nil_of_left_ne_nil ih _

theorem eq_of_single (h : Merged [q] p) : p = q := by
  generalize hlist : [q] = list at h
  cases h with
  | single => exact (singleton_inj.1 hlist).symm
  | merge hp hq =>
    rcases append_eq_singleton_iff.1 hlist.symm with ⟨hnil, -⟩ | ⟨-, hnil⟩
    · exact absurd hnil hp.ne_nil
    · exact absurd hnil hq.ne_nil

/-- Merging is needed for an entry to be nullable that must not be null. -/
theorem two_le_length (h : Merged ps p)
    (hps : ∀ q ∈ ps, q.required = true → q.type.nullable = false) (hrequired : p.required = true)
    (hnullable : p.type.nullable = true) : 2 ≤ ps.length := by
  by_contra hlength
  have hone : ps.length = 1 := by
    have := length_pos_iff.2 h.ne_nil
    omega
  obtain ⟨q, rfl⟩ := length_eq_one_iff.1 hone
  rw [h.eq_of_single] at hrequired hnullable
  rw [hps q (mem_singleton_self q) hrequired] at hnullable
  cases hnullable

theorem admits (h : Merged ps p) (hp : p.type.Admits) : ∃ q ∈ ps, q.type.Admits := by
  induction h with
  | single p => exact ⟨p, mem_singleton_self p, hp⟩
  | merge _ _ ihp ihq =>
    obtain ⟨t, ht, hadmits⟩ := SqlType.admits_union (cons_ne_nil _ _) hp
    rcases mem_pair.1 ht with rfl | rfl
    · obtain ⟨r, hr, hadmits⟩ := ihp hadmits
      exact ⟨r, mem_append_left _ hr, hadmits⟩
    · obtain ⟨r, hr, hadmits⟩ := ihq hadmits
      exact ⟨r, mem_append_right _ hr, hadmits⟩

end Merged

namespace Gathered

theorem append (h : Gathered name params ps) (hmore : Gathered name more qs) :
    Gathered name (params ++ more) (ps ++ qs) := by
  induction h with
  | nil => exact hmore
  | other hne _ ih => exact .other hne ih
  | entry heq hmerged _ ih =>
    rw [append_assoc]
    exact .entry heq hmerged ih

theorem eq_nil (h : Gathered name params ps) (hname : name ∉ params.map Param.name) : ps = [] := by
  induction h with
  | nil => rfl
  | other _ _ ih => exact ih fun hmem => hname (.tail _ hmem)
  | entry heq => exact absurd (by simp [heq]) hname

theorem merged (h : Gathered name params ps) (hnodup : (params.map Param.name).Nodup)
    (hp : p ∈ params) (hname : p.name = name) : Merged ps p := by
  induction h with
  | nil => cases hp
  | other hne _ ih =>
    rcases mem_cons.1 hp with rfl | hp
    · exact absurd hname hne
    · exact ih (nodup_cons.1 hnodup).2 hp
  | entry heq hmerged hrest ih =>
    obtain ⟨hfirst, -⟩ := nodup_cons.1 hnodup
    rcases mem_cons.1 hp with rfl | hp
    · rwa [hrest.eq_nil (heq ▸ hfirst), append_nil]
    · exact absurd (mem_map.2 ⟨p, hp, hname.trans heq.symm⟩) hfirst

theorem put (h : Gathered name params ps) (hnodup : (params.map Param.name).Nodup)
    (hp : Gathered name [p] qs) : Gathered name (Param.put SqlType.union p params) (ps ++ qs) := by
  induction h with
  | nil => exact hp
  | @other q rest ps hne hrest ih =>
    rw [Param.put]
    split
    · next hname =>
      have hqs : qs = [] := hp.eq_nil (by simpa [← eq_of_beq hname] using Ne.symm hne)
      rw [hqs, append_nil]
      exact .other hne hrest
    · exact .other hne (ih (nodup_cons.1 hnodup).2)
  | @entry q rest ps qs' heq hmerged hrest ih =>
    obtain ⟨hfirst, hnodup⟩ := nodup_cons.1 hnodup
    rw [Param.put, append_assoc]
    split
    · next hname =>
      have hnew : p.name = _ := (eq_of_beq hname).symm.trans heq
      have hpart := hp.merged (by simp) (mem_singleton_self p) hnew
      have hps := hrest.eq_nil (heq ▸ hfirst)
      subst hps
      rw [nil_append, ← append_nil (qs' ++ qs)]
      exact .entry heq (hmerged.merge hpart) hrest
    · exact .entry heq hmerged (ih hnodup)

theorem perm (hperm : params.Perm more) (hnodup : (params.map Param.name).Nodup)
    (h : Gathered name params ps) : Gathered name more ps := by
  induction hperm generalizing ps with
  | nil => exact h
  | cons p _ ih =>
    have hrest := (nodup_cons.1 hnodup).2
    cases h with
    | other hne h => exact .other hne (ih hrest h)
    | entry heq hmerged h => exact .entry heq hmerged (ih hrest h)
  | swap p q rest =>
    cases h with
    | other hq h =>
      cases h with
      | other hp h => exact .other hp (.other hq h)
      | entry hp hmerged h => exact .entry hp hmerged (.other hq h)
    | entry hq hmerged h =>
      cases h with
      | other hp h => exact .other hp (.entry hq hmerged h)
      | entry hp => simp [hp, hq] at hnodup
  | trans hab _ iha ihb => exact ihb ((hab.map _).nodup_iff.1 hnodup) (iha hnodup h)

theorem insertAll (h : Gathered name params ps) (hnodup : (params.map Param.name).Nodup)
    (hmore : Gathered name more qs) :
    Gathered name (Param.insertAll SqlType.union params more) (ps ++ qs) := by
  have hinsert {params ps qs : List (Param SqlType)} {p : Param SqlType}
      (h : Gathered name params ps) (hnodup : (params.map Param.name).Nodup)
      (hp : Gathered name [p] qs) : Gathered name (Param.insert SqlType.union params p) (ps ++ qs) ∧
        ((Param.insert SqlType.union params p).map Param.name).Nodup := by
    have hput : ((Param.put SqlType.union p params).map Param.name).Nodup :=
      TidyList.nodup_names_put hnodup
    have hsort := mergeSort_perm (Param.put SqlType.union p params) fun a b =>
      decide (a.position ≤ b.position)
    exact ⟨(h.put hnodup hp).perm hsort.symm hput, (hsort.map _).nodup_iff.2 hput⟩
  induction hmore generalizing params ps with
  | nil => rwa [append_nil]
  | other hne _ ih =>
    obtain ⟨h, hnodup⟩ := hinsert h hnodup (.other hne .nil)
    rw [append_nil] at h
    exact ih h hnodup
  | entry heq hmerged _ ih =>
    obtain ⟨h, hnodup⟩ := hinsert h hnodup (.entry heq hmerged .nil)
    rw [append_nil] at h
    rw [← append_assoc]
    exact ih h hnodup

end Gathered

end Param

/-! ## Resolution -/

theorem ResolveContext.Types.nullable (h : ctx.Types e p) (hp : p.required = true) :
    p.type.nullable = false := by
  obtain ⟨levels, h⟩ := h
  rw [param] at h
  cases ht : e.type.resolve (ctx.typeContext levels .other) with
  | error error => rw [ht] at h; cases h
  | ok t =>
    rw [ht] at h
    cases h
    rw [show e.required = true from hp]
    rfl

/-- Only a type that hides null admits it where the entry must not be null. -/
theorem ResolveContext.Types.leaks (h : ctx.Types e p) (hp : p.type.Admits) :
    p.required = false ∧ p.type.nullable = true ∨ p.type.HidesNull := by
  rcases hp with hnullable | hhides
  · refine .inl ⟨Bool.eq_false_iff.2 fun hrequired => ?_, hnullable⟩
    rw [h.nullable hrequired] at hnullable
    cases hnullable
  · exact .inr hhides

/-- The entries of a name are gathered into its parameter. -/
theorem ResolveContext.Merges.gathered {es : List (Param TypeExpr)} {ps : List (Param SqlType)}
    (h : ctx.Merges es ps) (name : String) :
    ∃ qs, List.Forall₂ ctx.Types (es.filter (·.name == name)) qs ∧ Param.Gathered name ps qs := by
  induction h with
  | nil => exact ⟨[], .nil, .nil⟩
  | @single e p h =>
    obtain ⟨levels, h⟩ := h
    have hname : p.name = e.name := congrArg Param.name (param_eq_ok h)
    by_cases hentry : e.name = name
    · refine ⟨[p], ?_, .entry (hname.trans hentry) (.single p) .nil⟩
      rw [filter_cons_of_pos (by simpa using hentry)]
      exact .cons ⟨levels, h⟩ .nil
    · refine ⟨[], ?_, .other (hname ▸ hentry) .nil⟩
      rw [filter_cons_of_neg (by simpa using hentry)]
      exact .nil
  | append _ _ ih ih' =>
    obtain ⟨qs, htypes, hqs⟩ := ih
    obtain ⟨qs', htypes', hqs'⟩ := ih'
    refine ⟨qs ++ qs', ?_, hqs.append hqs'⟩
    rw [filter_append]
    exact rel_append htypes htypes'
  | merge _ ih =>
    obtain ⟨qs, htypes, hqs⟩ := ih
    exact ⟨qs, htypes, Param.Gathered.nil.insertAll nodup_nil hqs⟩

/-! ## Statements -/

namespace Statement

/-- The typed entry has the marks of all occurrences that it lists. -/
theorem declares_typed (st : Statement) {q : Param SqlType} (he : e ∈ (st.interface []).entries)
    (h : ctx.Types e q) :
    ∀ span ∈ q.spans, ∃ ref ∈ st.params,
      ref.mention = ⟨e.name, span⟩ ∧ (ref.required = true → q.required = true) := by
  intro span hspan
  obtain ⟨levels, hparam⟩ := h
  have hsame := ResolveContext.param_eq_ok hparam
  have hspans : q.spans = e.spans := congrArg Param.spans hsame
  have hflag : q.required = e.required := congrArg Param.required hsame
  obtain ⟨ref, href, hmention, hrequired, -⟩ := st.declares_entries e he span (hspans ▸ hspan)
  exact ⟨ref, href, hmention, hflag ▸ hrequired⟩

/-- A parameter of a typed statement is merged of its entries in all queries, each typed in its own.
One that must not be null is nullable only if there are several of them, and among these one that is
nullable, none of whose occurrences says that it must not be null, or one whose type hides that it
can be. -/
theorem merged_params {st : Statement} {store : Store} {mode : ResolveMode}
    {loaded : TypedInterface}
    (hr : (st.interface []).resolve store mode = .ok loaded) {p : Param SqlType}
    (hp : p ∈ loaded.params) :
    ∃ ps, List.Forall₂ (ResolveContext.ofStore store mode).Types
        ((st.interface []).entries.filter (·.name == p.name)) ps ∧ Param.Merged ps p ∧
      (p.required = true → p.type.nullable = true → 2 ≤ ps.length ∧ ∃ q ∈ ps,
        (∀ span ∈ q.spans, ∃ ref ∈ st.params,
          ref.mention = ⟨p.name, span⟩ ∧ (ref.required = true → q.required = true)) ∧
        (q.required = false ∧ q.type.nullable = true ∨ q.type.HidesNull)) := by
  have hrun : ((st.interface []).resolveIn (.ofStore store mode) []).run.run [] =
      (.ok loaded, ((st.interface []).resolveWith store mode []).2) := Prod.ext hr rfl
  obtain ⟨hordered, -⟩ := (st.interface []).ordered_resolveIn st.tidy_interface hrun
  obtain ⟨_, hmerges, hparams⟩ := (st.interface []).merges_resolveIn hrun
  obtain ⟨ps, htypes, hgathered⟩ := hmerges.merge.gathered p.name
  rw [← hparams] at hgathered
  have hmerged := hgathered.merged hordered.names hp rfl
  have hfrom : ∀ q ∈ ps, ∃ e ∈ (st.interface []).entries.filter (·.name == p.name),
      (ResolveContext.ofStore store mode).Types e q := by
    intro q hq
    obtain ⟨i, hi, rfl⟩ := getElem_of_mem hq
    have hlength := htypes.length_eq
    exact ⟨_, getElem_mem (hlength ▸ hi), htypes.get (hlength ▸ hi) hi⟩
  refine ⟨ps, htypes, hmerged, fun hrequired hnullable => ⟨?_, ?_⟩⟩
  · refine hmerged.two_le_length (fun q hq => ?_) hrequired hnullable
    obtain ⟨e, -, he⟩ := hfrom q hq
    exact he.nullable
  · obtain ⟨q, hq, hadmits⟩ := hmerged.admits (.inl hnullable)
    obtain ⟨e, hmem, he⟩ := hfrom q hq
    obtain ⟨hmem, hname⟩ := mem_filter.1 hmem
    rw [← eq_of_beq hname]
    exact ⟨q, hq, st.declares_typed hmem he, he.leaks hadmits⟩

/-- A parameter that must not be null at its first occurrence, and stands next to `NULL` in a query
inside. -/
def nullInside : String := "SELECT 1 = $x!, (SELECT NULL = $x)"

theorem merged_params_nullInside : ∃ st loaded, parse nullInside = .ok st ∧
    (st.interface []).resolve (.empty []) .strict = .ok loaded ∧ ∃ p ∈ loaded.params,
      p.required = true ∧ p.type.nullable = true ∧ ∃ ps, 2 ≤ ps.length ∧ Param.Merged ps p := by
  have hread : (parse nullInside).toOption.any fun st =>
      ((st.interface []).resolve (.empty []) .strict).toOption.any fun loaded =>
        loaded.params.any fun p => p.required && p.type.nullable := by
    decide +kernel
  obtain ⟨st, hparse, hread⟩ := exists_of_toOption_any hread
  obtain ⟨loaded, hr, hread⟩ := exists_of_toOption_any hread
  obtain ⟨p, hp, hfacts⟩ := any_eq_true.1 hread
  obtain ⟨hrequired, hnullable⟩ := Bool.and_eq_true_iff.1 hfacts
  obtain ⟨ps, -, hmerged, hwhy⟩ := merged_params hr hp
  exact ⟨st, loaded, hparse, hr, p, hp, hrequired, hnullable, ps, (hwhy hrequired hnullable).1,
    hmerged⟩

end Statement

end SqlTyping
