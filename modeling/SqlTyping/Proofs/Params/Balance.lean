import SqlTyping.Proofs.Params.Ledger

/-!
# What is left at the end of a scope

A scope ends with no occurrence that is not in its outline or around it (`Ledger.Within.run`). It
ends with all occurrences of its outline if a name is marked as used only where what it stands for
is read (`Ledger.Gains.run`). That is so unless a recursive query and a query around it go by one
name (`Outline.Apart`).
-/

namespace SqlTyping

open List
open Text (fold)

variable {mentions new : Finset Mention} {keys : Finset (List Char)}
  {outer : List Char → Option (Finset Mention)} {l : Ledger} {visible : Finset (List Char)}
  {key : List Char} {refs : List ParamRef} {es : List Entry} {o : Outline}

/-! ## Nothing is invented -/

namespace Ledger

/-- All occurrences that the ledger holds or sees are among the given ones. -/
structure Within (all : Finset Mention) (l : Ledger) : Prop where
  kept : l.kept ⊆ all
  named : ∀ e ∈ l.named, e.mentions ⊆ all
  outer : ∀ key mentions, l.outer key = some mentions → mentions ⊆ all

namespace Within

variable {all : Finset Mention} {l : Ledger}

theorem of_lookup (h : ∀ e ∈ es, e.mentions ⊆ all) (hl : lookup key es = some mentions) :
    mentions ⊆ all := by
  induction es with
  | nil => simp [lookup] at hl
  | cons e rest ih =>
    by_cases hk : e.key = key
    · rw [lookup, if_pos hk, Option.some.injEq] at hl
      exact hl ▸ h e (by simp)
    · rw [lookup, if_neg hk] at hl
      exact ih (fun e he => h e (by simp [he])) hl

theorem find? (h : l.Within all) (hf : l.find? key = some mentions) : mentions ⊆ all := by
  rw [Ledger.find?, Option.or_eq_some_iff] at hf
  rcases hf with hl | ⟨_, ho⟩
  · exact of_lookup h.named hl
  · exact h.outer key mentions ho

theorem unused_subset (h : ∀ e ∈ es, e.mentions ⊆ all) : unused es ⊆ all := by
  induction es with
  | nil => exact Finset.empty_subset _
  | cons e rest ih =>
    have hrest : unused rest ⊆ all := ih fun e he => h e (by simp [he])
    rw [unused]
    split
    · exact hrest
    · exact Finset.union_subset (h e (by simp)) hrest

theorem finish (h : l.Within all) : l.finish ⊆ all :=
  Finset.union_subset h.kept (unused_subset h.named)

theorem fresh (h : ∀ key mentions, outer key = some mentions → mentions ⊆ all) :
    (Ledger.fresh outer).Within all :=
  ⟨Finset.empty_subset _, by simp [Ledger.fresh], h⟩

theorem inner (h : l.Within all) : (Ledger.fresh l.find?).Within all := fresh fun _ _ => h.find?

theorem note (h : l.Within all) (hm : mentions ⊆ all) : (l.note mentions).Within all :=
  ⟨Finset.union_subset h.kept hm, h.named, h.outer⟩

theorem mark (h : l.Within all) (keys : Finset (List Char)) : (l.mark keys).Within all := by
  refine ⟨h.kept, fun e he => ?_, h.outer⟩
  obtain ⟨d, hd, heq⟩ := mentions_of_mem_useAll he
  exact heq ▸ h.named d hd

theorem add (h : l.Within all) (key : List Char) (hm : mentions ⊆ all) :
    (l.add key mentions).Within all := by
  refine ⟨h.kept, fun e he => ?_, h.outer⟩
  rcases mem_append.1 he with he | he
  · exact h.named e he
  · rw [mem_singleton.1 he]
    exact hm

end Within

/-- An outline brings in no occurrence but those of its own parameters. -/
theorem Within.run {all : Finset Mention} (hr : ∀ ref ∈ o.refs, ref.mention ∈ all)
    (h : l.Within all) : (o.run l).Within all := by
  induction o generalizing l with
  | skip => exact h
  | unread _ _ => exact h
  | param ref => exact h.note (by simpa using hr ref (by simp [Outline.refs]))
  | table name =>
    simp only [Outline.run]
    split
    · next mentions hf => exact (h.mark _).note (h.find? hf)
    · exact h
  | seq a b iha ihb =>
    exact ihb (fun ref hm => hr ref (by simp [Outline.refs, hm]))
      (iha (fun ref hm => hr ref (by simp [Outline.refs, hm])) h)
  | scope body ih => exact (h.mark _).note (ih hr h.inner).finish
  | define name body ih => exact (h.mark _).add _ (ih hr h.inner).finish
  | recursive name own first rest iho ihf ihr =>
    simp only [Outline.refs, mem_append] at hr
    have hown := fun ref hm => hr ref (.inl (.inl hm))
    have hfirst := fun ref hm => hr ref (.inl (.inr hm))
    have hrest := fun ref hm => hr ref (.inr hm)
    have hstart := (ihf hfirst h.inner).finish
    have hself : ∀ key mentions, Function.update l.find? (fold name)
        (some (first.run (.fresh l.find?)).finish) key = some mentions → mentions ⊆ all := by
      intro key mentions hkey
      by_cases hk : key = fold name
      · subst hk
        rw [Function.update_self, Option.some.injEq] at hkey
        exact hkey ▸ hstart
      · rw [Function.update_of_ne hk] at hkey
        exact h.find? hkey
    exact ((h.mark _).mark _).add _ (ihr hrest (ihf hfirst (iho hown (.fresh hself)))).finish

/-! ## Nothing is lost -/

/-- A name that one ledger has marked is marked in the other, where it stands for something too. -/
structure Sees (key : List Char) (l₁ l₂ : Ledger) : Prop where
  named : key ∈ l₁.names ↔ key ∈ l₂.names
  found : (l₂.find? key).isSome
  marks : key ∈ l₁.marks → key ∈ l₂.marks

namespace Sees

variable {key : List Char} {l₁ l₂ : Ledger}

theorem note (h : Sees key l₁ l₂) (m₁ m₂ : Finset Mention) : Sees key (l₁.note m₁) (l₂.note m₂) :=
  ⟨h.named, h.found, h.marks⟩

theorem mark (h : Sees key l₁ l₂) {k₁ k₂ : Finset (List Char)} (hk : key ∈ k₁ → key ∈ k₂) :
    Sees key (l₁.mark k₁) (l₂.mark k₂) := by
  refine ⟨by simpa using h.named, by simpa using h.found, fun hm => ?_⟩
  simp only [Ledger.mark, Finset.mem_union, Finset.mem_filter] at hm ⊢
  rcases hm with hm | ⟨hm, hn⟩
  · exact .inl (h.marks hm)
  · exact .inr ⟨hk hm, fun hn₂ => hn (h.named.2 hn₂)⟩

theorem add (h : Sees key l₁ l₂) (k : List Char) (m₁ m₂ : Finset Mention) :
    Sees key (l₁.add k m₁) (l₂.add k m₂) := by
  refine ⟨by simp [h.named], ?_, h.marks⟩
  have hfound := h.found
  rw [find?_isSome] at hfound ⊢
  rw [add_names, mem_append]
  exact hfound.imp_left .inl

theorem fresh (o₁ : List Char → Option (Finset Mention)) {o₂ : List Char → Option (Finset Mention)}
    (h : (o₂ key).isSome) : Sees key (.fresh o₁) (.fresh o₂) :=
  ⟨.rfl, h, id⟩

end Sees

/-- A query marks a name wherever it stands for something, so it marks it again in a scope that only
differs in other names. -/
theorem Sees.run {l₁ l₂ : Ledger} (h : Sees key l₁ l₂) (o : Outline) :
    Sees key (o.run l₁) (o.run l₂) := by
  induction o generalizing l₁ l₂ with
  | skip => exact h
  | unread _ _ => exact h
  | param ref => exact h.note _ _
  | table name =>
    simp only [Outline.run]
    cases h₁ : l₁.find? (fold name) with
    | none =>
      cases h₂ : l₂.find? (fold name) with
      | none => exact h
      | some m₂ =>
        rw [← l₁.note_empty, ← l₁.mark_empty]
        exact (h.mark (by simp)).note _ _
    | some m₁ =>
      cases h₂ : l₂.find? (fold name) with
      | none =>
        have hne : key ≠ fold name := by
          rintro rfl
          simpa [h₂] using h.found
        rw [← l₂.note_empty, ← l₂.mark_empty]
        exact (h.mark (by simp [hne])).note _ _
      | some m₂ => exact (h.mark id).note _ _
  | seq a b iha ihb => exact ihb (iha h)
  | scope body ih => exact (h.mark (ih (.fresh _ h.found)).marks).note _ _
  | define name body ih => exact (h.mark (ih (.fresh _ h.found)).marks).add _ _ _
  | recursive name own first rest iho ihf ihr =>
    have hself : ∀ m₂, (Function.update l₂.find? (fold name) (some m₂) key).isSome := by
      intro m₂
      by_cases hk : key = fold name
      · rw [hk, Function.update_self]
        rfl
      · rw [Function.update_of_ne hk]
        exact h.found
    have hstart := ihf (.fresh l₁.find? h.found)
    exact ((h.mark hstart.marks).mark (ihr (ihf (iho (.fresh _ (hself _))))).marks).add _ _ _

end Ledger

/-- The condition under which no parameter is lost, where the given names are visible. A recursive
query goes by a name that is not visible yet, and so do the queries of its own `WITH` clause: what
its first branch reads before they are defined, and what it reads of itself, is marked in the scope
around it. The clauses that are not read have no parameters. -/
def Outline.Apart (visible : Finset (List Char)) : Outline → Prop
  | skip | param _ | table _ => True
  | seq a b => a.Apart visible ∧ b.Apart (visible ∪ a.defs)
  | scope body | define _ body => body.Apart visible
  | recursive name own first rest =>
    let inside := insert (fold name) visible
    fold name ∉ visible ∧ Disjoint own.defs visible ∧ own.Apart inside ∧
      first.Apart (inside ∪ own.defs) ∧ rest.Apart (inside ∪ own.defs ∪ first.defs)
  | unread body => body.refs = []

instance Outline.decidableApart (visible : Finset (List Char)) :
    (o : Outline) → Decidable (o.Apart visible)
  | skip | param _ | table _ => .isTrue trivial
  | seq a b =>
    have := decidableApart visible a
    have := decidableApart (visible ∪ a.defs) b
    inferInstanceAs (Decidable (_ ∧ _))
  | scope body | define _ body => decidableApart visible body
  | recursive name own first rest =>
    have := decidableApart (insert (fold name) visible) own
    have := decidableApart (insert (fold name) visible ∪ own.defs) first
    have := decidableApart (insert (fold name) visible ∪ own.defs ∪ first.defs) rest
    inferInstanceAs (Decidable (_ ∧ _ ∧ _ ∧ _ ∧ _))
  | unread body => inferInstanceAs (Decidable (body.refs = []))

namespace Ledger

/-- Every name that stands for something is among the given ones. -/
def Covered (visible : Finset (List Char)) (l : Ledger) : Prop :=
  ∀ key, (l.find? key).isSome → key ∈ visible

theorem Covered.run (h : l.Covered visible) (o : Outline) :
    (o.run l).Covered (visible ∪ o.defs) := by
  intro key hkey
  rw [find?_isSome, Outline.mem_names_run, Outline.run_outer] at hkey
  rw [Finset.mem_union]
  rcases hkey with (hn | hd) | ho
  · exact .inl (h key ((find?_isSome l key).2 (.inl hn)))
  · exact .inr hd
  · exact .inl (h key ((find?_isSome l key).2 (.inr ho)))

/-- At the end of the scope all is there that the ledger holds, and all that the names stand for
that it has marked around itself. -/
structure Settled (l : Ledger) : Prop where
  named : ∀ e ∈ l.named, e.mentions ⊆ l.finish
  marks : ∀ key ∈ l.marks, ∀ mentions, l.outer key = some mentions → mentions ⊆ l.finish

theorem Settled.fresh (outer : List Char → Option (Finset Mention)) :
    (Ledger.fresh outer).Settled :=
  ⟨by simp [Ledger.fresh], by simp [Ledger.fresh]⟩

/-- Names may be marked if what they stand for is put in their place. -/
theorem Settled.mark (h : l.Settled)
    (hnew : ∀ key ∈ keys, ∀ mentions, l.find? key = some mentions → mentions ⊆ new) :
    (∀ e ∈ (l.mark keys).named, e.mentions ⊆ (l.mark keys).finish ∪ new) ∧
      ∀ key ∈ (l.mark keys).marks, ∀ mentions, l.outer key = some mentions →
        mentions ⊆ (l.mark keys).finish ∪ new := by
  have hfinish := finish_subset_mark hnew
  refine ⟨fun e he => ?_, fun key hkey mentions ho => ?_⟩
  · obtain ⟨d, hd, heq⟩ := mentions_of_mem_useAll he
    exact heq ▸ (h.named d hd).trans hfinish
  · rcases Finset.mem_union.1 hkey with hkey | hkey
    · exact (h.marks key hkey mentions ho).trans hfinish
    · obtain ⟨hkey, hn⟩ := Finset.mem_filter.1 hkey
      have hlookup : lookup key l.named = none := by
        rw [← Option.not_isSome_iff_eq_none, lookup_isSome]
        exact hn
      have hfind : l.find? key = some mentions := by rw [find?, hlookup, ho]; rfl
      exact (hnew key hkey mentions hfind).trans Finset.subset_union_right

theorem Settled.mark_note (h : l.Settled)
    (hnew : ∀ key ∈ keys, ∀ mentions, l.find? key = some mentions → mentions ⊆ new) :
    ((l.mark keys).note new).Settled := by
  obtain ⟨hnamed, hmarks⟩ := h.mark hnew
  refine ⟨?_, ?_⟩ <;> rw [finish_note]
  exacts [hnamed, hmarks]

theorem Settled.mark_add (h : l.Settled) (key : List Char)
    (hnew : ∀ key ∈ keys, ∀ mentions, l.find? key = some mentions → mentions ⊆ new) :
    ((l.mark keys).add key new).Settled := by
  obtain ⟨hnamed, hmarks⟩ := h.mark hnew
  refine ⟨fun e he => ?_, ?_⟩ <;> rw [finish_add]
  · rcases mem_append.1 he with he | he
    · exact hnamed e he
    · rw [mem_singleton.1 he]
      exact Finset.subset_union_right
  · exact hmarks

/-- What the end of a scope has gained by an outline: all its parameters, and nothing is gone. -/
structure Gains (refs : List ParamRef) (l l' : Ledger) : Prop where
  settled : l'.Settled
  keeps : l.finish ⊆ l'.finish
  refs : ∀ ref ∈ refs, ref.mention ∈ l'.finish

/-- The names that a settled inner scope has marked. -/
theorem Settled.inner {inner : Ledger} (h : inner.Settled) (ho : inner.outer = outer) :
    ∀ key ∈ inner.marks, ∀ mentions, outer key = some mentions → mentions ⊆ inner.finish :=
  fun key hkey mentions hm => h.marks key hkey mentions (by rw [ho, hm])

section

variable (hnew : ∀ key ∈ keys, ∀ mentions, l.find? key = some mentions → mentions ⊆ new)
  (hr : ∀ ref ∈ refs, ref.mention ∈ new)

include hnew hr

theorem Gains.of_finish {l' : Ledger} (h : l'.Settled)
    (hf : l'.finish = (l.mark keys).finish ∪ new) : Gains refs l l' where
  settled := h
  keeps := hf ▸ finish_subset_mark hnew
  refs ref hm := hf ▸ Finset.mem_union_right _ (hr ref hm)

theorem Gains.of_mark_note (h : l.Settled) : Gains refs l ((l.mark keys).note new) :=
  .of_finish hnew hr (h.mark_note hnew) (finish_note ..)

theorem Gains.of_mark_add (h : l.Settled) (key : List Char) :
    Gains refs l ((l.mark keys).add key new) :=
  .of_finish hnew hr (h.mark_add key hnew) (finish_add ..)

end

theorem Gains.trans {r₁ r₂ : List ParamRef} {l₁ l₂ l₃ : Ledger} (h₁ : Gains r₁ l₁ l₂)
    (h₂ : Gains r₂ l₂ l₃) : Gains (r₁ ++ r₂) l₁ l₃ where
  settled := h₂.settled
  keeps := h₁.keeps.trans h₂.keeps
  refs ref hm := by
    rcases mem_append.1 hm with hm | hm
    · exact h₂.keeps (h₁.refs ref hm)
    · exact h₂.refs ref hm

theorem Gains.of_empty (h : l.Settled) : Gains [] l l := ⟨h, subset_rfl, by simp⟩

/-- The first branch of a recursive query marks no name the first time that it does not mark the
second time, unless the query defines the name itself. -/
theorem mem_marks_whole {self : List Char → Option (Finset Mention)} {own first rest : Outline}
    (hown : key ∉ own.defs) (hself : (self key).isSome)
    (h : key ∈ (first.run (fresh l.find?)).marks) :
    key ∈ (rest.run (first.run (own.run (fresh self)))).marks := by
  have hsees : Sees key (fresh l.find?) (own.run (fresh self)) := by
    refine ⟨?_, ?_, by simp [fresh]⟩
    · simp [Outline.mem_names_run, hown]
    · rw [find?_isSome, Outline.run_outer]
      exact .inr hself
  exact Outline.marks_subset_run rest _ ((hsees.run first).marks h)

/-- Where names are kept apart, a scope ends with all parameters of the outline. -/
theorem Gains.run (ha : o.Apart visible) (hv : l.Covered visible) (hs : l.Settled) :
    Gains o.refs l (o.run l) := by
  induction o generalizing visible l with
  | skip => exact .of_empty hs
  | unread body _ =>
    rw [Outline.refs, show body.refs = [] from ha]
    exact .of_empty hs
  | param ref =>
    have h : Gains [ref] l ((l.mark ∅).note {ref.mention}) := .of_mark_note (by simp) (by simp) hs
    rwa [mark_empty] at h
  | table name =>
    rw [Outline.run, Outline.refs]
    split
    · next mentions hf =>
      refine .of_mark_note (fun key hkey m hm => ?_) (by simp) hs
      rw [Finset.mem_singleton.1 hkey, hf, Option.some.injEq] at hm
      exact hm ▸ subset_rfl
    · exact .of_empty hs
  | seq a b iha ihb =>
    have h₁ := iha ha.1 hv hs
    exact h₁.trans (ihb ha.2 (hv.run a) h₁.settled)
  | scope body ih =>
    have hi := ih ha (l := fresh l.find?) hv (.fresh _)
    exact .of_mark_note (hi.settled.inner (Outline.run_outer _ _)) hi.refs hs
  | define name body ih =>
    have hi := ih ha (l := fresh l.find?) hv (.fresh _)
    exact .of_mark_add (hi.settled.inner (Outline.run_outer _ _)) hi.refs hs _
  | recursive name own first rest iho ihf ihr =>
    obtain ⟨hname, hdisj, hao, haf, har⟩ := ha
    set start := first.run (fresh l.find?) with hstart
    set self := Function.update l.find? (fold name) (some start.finish) with hself
    have hvi : (fresh self).Covered (insert (fold name) visible) := by
      intro key hkey
      by_cases hk : key = fold name
      · exact hk ▸ Finset.mem_insert_self _ _
      · refine Finset.mem_insert_of_mem (hv key ?_)
        simpa [find?, fresh, lookup, hself, hk] using hkey
    have ho := iho hao hvi (.fresh _)
    have hf := ihf haf (hvi.run own) ho.settled
    have hw := (ho.trans hf).trans (ihr har ((hvi.run own).run first) hf.settled)
    show Gains _ l (((l.mark start.marks).mark _).add _ _)
    rw [mark_mark]
    refine .of_mark_add (fun key hkey mentions hm => ?_) hw.refs hs _
    have hvis : key ∈ visible := hv key (by rw [hm]; rfl)
    have hk : key ≠ fold name := fun heq => hname (heq ▸ hvis)
    have hselfkey : self key = some mentions := by rw [hself, Function.update_of_ne hk, hm]
    have hmarks : key ∈ (rest.run (first.run (own.run (fresh self)))).marks := by
      rcases Finset.mem_union.1 hkey with hkey | hkey
      · refine mem_marks_whole (fun hd => ?_) (by rw [hselfkey]; rfl) hkey
        exact Finset.disjoint_left.1 hdisj hd hvis
      · exact hkey
    exact hw.settled.inner (by simp [fresh]) key hmarks mentions hselfkey

end Ledger

end SqlTyping
