import Mathlib.Data.Finset.Basic
import Mathlib.Data.Finset.Lattice.Lemmas
import Mathlib.Logic.Function.Basic
import SqlTyping.Proofs.Params.Outline
import SqlTyping.Proofs.Text

/-!
# Bookkeeping of parameters

A ledger is what the scope of a query says about parameters: the occurrences that its interface
holds so far, and the named queries with theirs. A named query whose name is read is marked as used,
and its occurrences go where the name was read; one that is never marked keeps its occurrences until
the scope ends. `Outline.run` is the effect of an outline on a ledger.
-/

namespace SqlTyping

open List
open Text (fold)

namespace Ledger

/-- A named query, its name up to case. -/
structure Entry where
  key : List Char
  mentions : Finset Mention
  used : Bool

/-- What the first entry with a name holds. -/
def lookup (key : List Char) : List Entry → Option (Finset Mention)
  | [] => none
  | e :: rest => if e.key = key then some e.mentions else lookup key rest

/-- Marks the first entry of each name as used. -/
def useAll (keys : Finset (List Char)) : List Entry → List Entry
  | [] => []
  | e :: rest =>
    if e.key ∈ keys then { e with used := true } :: useAll (keys.erase e.key) rest
    else e :: useAll keys rest

/-- The occurrences in entries that are not used. -/
def unused : List Entry → Finset Mention
  | [] => ∅
  | e :: rest => if e.used then unused rest else e.mentions ∪ unused rest

end Ledger

structure Ledger where
  /-- The occurrences in the interface so far. -/
  kept : Finset Mention
  named : List Ledger.Entry
  /-- The named queries of the scopes around this one. -/
  outer : List Char → Option (Finset Mention)
  /-- The names of `outer` that are marked as used. -/
  marks : Finset (List Char)

namespace Ledger

def fresh (outer : List Char → Option (Finset Mention)) : Ledger := ⟨∅, [], outer, ∅⟩

def names (l : Ledger) : List (List Char) := l.named.map Entry.key

/-- What the named query holds that a name stands for. -/
def find? (l : Ledger) (key : List Char) : Option (Finset Mention) :=
  (lookup key l.named).or (l.outer key)

/-- The occurrences in the interface at the end of the scope. -/
def finish (l : Ledger) : Finset Mention := l.kept ∪ unused l.named

def note (l : Ledger) (mentions : Finset Mention) : Ledger := { l with kept := l.kept ∪ mentions }

def mark (l : Ledger) (keys : Finset (List Char)) : Ledger :=
  { l with named := useAll keys l.named, marks := l.marks ∪ keys.filter (· ∉ l.names) }

def add (l : Ledger) (key : List Char) (mentions : Finset Mention) : Ledger :=
  { l with named := l.named ++ [⟨key, mentions, false⟩] }

end Ledger

open Ledger in
/-- The ledger after an outline. A recursive query is gone through twice: first its first branch
alone, which says what stands for the query itself the second time. -/
def Outline.run : Outline → Ledger → Ledger
  | skip, l | unread _, l => l
  | param ref, l => l.note {ref.mention}
  | table name, l =>
    match l.find? (fold name) with
    | some mentions => (l.mark {fold name}).note mentions
    | none => l
  | seq a b, l => b.run (a.run l)
  | scope body, l =>
    let inner := body.run (fresh l.find?)
    (l.mark inner.marks).note inner.finish
  | define name body, l =>
    let inner := body.run (fresh l.find?)
    (l.mark inner.marks).add (fold name) inner.finish
  | recursive name own first rest, l =>
    let start := first.run (fresh l.find?)
    let self := Function.update l.find? (fold name) (some start.finish)
    let whole := rest.run (first.run (own.run (fresh self)))
    ((l.mark start.marks).mark whole.marks).add (fold name) whole.finish

namespace Ledger

/-! ## Entries -/

variable {keys : Finset (List Char)} {es : List Entry} {new : Finset Mention} {key : List Char}

@[simp]
theorem lookup_useAll (key : List Char) (keys : Finset (List Char)) (es : List Entry) :
    lookup key (useAll keys es) = lookup key es := by
  fun_induction useAll keys es with
  | case1 => rfl
  | case2 keys e rest _ ih => simp only [lookup, ih]
  | case3 keys e rest _ ih => simp only [lookup, ih]

@[simp]
theorem map_key_useAll (keys : Finset (List Char)) (es : List Entry) :
    (useAll keys es).map Entry.key = es.map Entry.key := by
  fun_induction useAll keys es with
  | case1 => rfl
  | case2 keys e rest _ ih => simp only [map_cons, ih]
  | case3 keys e rest _ ih => simp only [map_cons, ih]

theorem mentions_of_mem_useAll {e : Entry} (h : e ∈ useAll keys es) :
    ∃ d ∈ es, d.mentions = e.mentions := by
  fun_induction useAll keys es with
  | case1 => simp at h
  | case2 keys d rest _ ih =>
    rcases mem_cons.1 h with rfl | h
    · exact ⟨d, by simp, rfl⟩
    · obtain ⟨d', hd, he⟩ := ih h
      exact ⟨d', by simp [hd], he⟩
  | case3 keys d rest _ ih =>
    rcases mem_cons.1 h with rfl | h
    · exact ⟨e, by simp, rfl⟩
    · obtain ⟨d', hd, he⟩ := ih h
      exact ⟨d', by simp [hd], he⟩

theorem useAll_eq_self (h : ∀ e ∈ es, e.key ∉ keys) : useAll keys es = es := by
  induction es with
  | nil => rfl
  | cons e rest ih =>
    rw [useAll, if_neg (h e (by simp)), ih fun d hd => h d (by simp [hd])]

theorem useAll_empty (es : List Entry) : useAll ∅ es = es := useAll_eq_self (by simp)

theorem useAll_useAll (a b : Finset (List Char)) (es : List Entry) :
    useAll b (useAll a es) = useAll (a ∪ b) es := by
  induction es generalizing a b with
  | nil => rfl
  | cons e rest ih =>
    by_cases ha : e.key ∈ a <;> by_cases hb : e.key ∈ b <;>
      simp [useAll, ha, hb, ih, Finset.erase_union_distrib]

theorem unused_append (a b : List Entry) : unused (a ++ b) = unused a ∪ unused b := by
  induction a with
  | nil => simp [unused]
  | cons e rest ih =>
    simp only [cons_append, unused]
    split
    · exact ih
    · rw [ih, Finset.union_assoc]

theorem lookup_isSome : (lookup key es).isSome ↔ key ∈ es.map Entry.key := by
  induction es with
  | nil => simp [lookup]
  | cons e rest ih =>
    by_cases h : e.key = key
    · simp [lookup, h]
    · simp [lookup, h, ih, Ne.symm h]

/-- What marking takes out of the unused entries is what the names stand for. -/
theorem unused_subset_useAll
    (h : ∀ key ∈ keys, ∀ mentions, lookup key es = some mentions → mentions ⊆ new) :
    unused es ⊆ unused (useAll keys es) ∪ new := by
  induction es generalizing keys with
  | nil => simp [unused]
  | cons e rest ih =>
    by_cases hk : e.key ∈ keys
    · have hhead : e.mentions ⊆ new := h e.key hk _ (by simp [lookup])
      have hrest : unused rest ⊆ unused (useAll (keys.erase e.key) rest) ∪ new := by
        refine ih fun key hkey mentions hl => h key (Finset.mem_of_mem_erase hkey) mentions ?_
        rw [lookup, if_neg (Finset.ne_of_mem_erase hkey).symm, hl]
      simp only [useAll, if_pos hk, unused]
      split
      · exact hrest
      · exact Finset.union_subset (hhead.trans Finset.subset_union_right) hrest
    · have hrest : unused rest ⊆ unused (useAll keys rest) ∪ new := by
        refine ih fun key hkey mentions hl => h key hkey mentions ?_
        rw [lookup, if_neg (fun heq : e.key = key => hk (heq ▸ hkey)), hl]
      simp only [useAll, if_neg hk, unused]
      split
      · exact hrest
      · rw [Finset.union_assoc]
        exact Finset.union_subset_union_right hrest

/-! ## Ledgers -/

section

variable (l : Ledger) (key : List Char) (keys : Finset (List Char)) (mentions : Finset Mention)

@[simp] theorem fresh_names (outer : List Char → Option (Finset Mention)) :
    (fresh outer).names = [] := rfl
@[simp] theorem note_find? : (l.note mentions).find? = l.find? := rfl
@[simp] theorem note_names : (l.note mentions).names = l.names := rfl
@[simp] theorem mark_names : (l.mark keys).names = l.names := map_key_useAll keys l.named
@[simp] theorem add_names : (l.add key mentions).names = l.names ++ [key] := by simp [names, add]

@[simp]
theorem mark_find? : (l.mark keys).find? = l.find? := by
  funext key
  rw [find?, mark, lookup_useAll, find?]

theorem note_note (more : Finset Mention) :
    (l.note mentions).note more = l.note (mentions ∪ more) := by
  simp only [note, Finset.union_assoc]

theorem note_comm (more : Finset Mention) :
    (l.note mentions).note more = (l.note more).note mentions := by
  rw [note_note, note_note, Finset.union_comm]

theorem mark_note : (l.note mentions).mark keys = (l.mark keys).note mentions := rfl

theorem note_empty : l.note ∅ = l := by
  simp only [note, Finset.union_empty]

theorem mark_empty : l.mark ∅ = l := by
  simp [mark, useAll_empty]

theorem mark_mark (a b : Finset (List Char)) : (l.mark a).mark b = l.mark (a ∪ b) := by
  have hnames : (l.mark a).names = l.names := l.mark_names a
  rw [mark, hnames]
  simp only [mark, useAll_useAll, Finset.filter_union, Finset.union_assoc]

theorem finish_note : (l.note mentions).finish = l.finish ∪ mentions := by
  simp only [finish, note, Finset.union_right_comm]

theorem finish_add : (l.add key mentions).finish = l.finish ∪ mentions := by
  simp [finish, add, unused_append, unused, Finset.union_assoc]

theorem find?_isSome : (l.find? key).isSome ↔ key ∈ l.names ∨ (l.outer key).isSome := by
  rw [find?, Option.isSome_or, Bool.or_eq_true, lookup_isSome, names]

end

/-- What marking takes away at the end of a scope is what the names stand for. -/
theorem finish_subset_mark {l : Ledger}
    (h : ∀ key ∈ keys, ∀ mentions, l.find? key = some mentions → mentions ⊆ new) :
    l.finish ⊆ (l.mark keys).finish ∪ new := by
  have hunused : unused l.named ⊆ unused (useAll keys l.named) ∪ new :=
    unused_subset_useAll fun key hkey mentions hl => h key hkey mentions (by rw [find?, hl]; rfl)
  rw [finish, finish, Finset.union_assoc]
  exact Finset.union_subset_union_right hunused

end Ledger

namespace Outline

open Ledger

/-- The names that an outline defines in its own scope. -/
def defs : Outline → Finset (List Char)
  | skip | param _ | table _ | scope _ | unread _ => ∅
  | seq a b => a.defs ∪ b.defs
  | define name _ | recursive name _ _ _ => {fold name}

@[simp]
theorem run_outer (o : Outline) (l : Ledger) : (o.run l).outer = l.outer := by
  induction o generalizing l with
  | skip => rfl
  | param _ => rfl
  | table name =>
    simp only [run]
    split <;> rfl
  | seq a b iha ihb => rw [run, ihb, iha]
  | scope _ _ => rfl
  | define _ _ _ => rfl
  | recursive _ _ _ _ _ _ _ => rfl
  | unread _ _ => rfl

theorem mem_names_run {o : Outline} {l : Ledger} :
    key ∈ (o.run l).names ↔ key ∈ l.names ∨ key ∈ o.defs := by
  induction o generalizing l with
  | skip => simp [run, defs]
  | param _ => simp [run, defs]
  | table name =>
    simp only [run]
    split <;> simp [defs]
  | seq a b iha ihb => simp [run, defs, iha, ihb, or_assoc]
  | scope _ _ => simp [run, defs]
  | define _ _ _ => simp [run, defs]
  | recursive _ _ _ _ _ _ _ => simp [run, defs]
  | unread _ _ => simp [run, defs]

theorem marks_subset_run (o : Outline) (l : Ledger) : l.marks ⊆ (o.run l).marks := by
  induction o generalizing l with
  | skip => exact subset_rfl
  | param _ => exact subset_rfl
  | table name =>
    simp only [run]
    split
    · exact Finset.subset_union_left
    · exact subset_rfl
  | seq a b iha ihb => exact (iha l).trans (ihb _)
  | scope _ _ => exact Finset.subset_union_left
  | define _ _ _ => exact Finset.subset_union_left
  | recursive _ _ _ _ _ _ _ => exact Finset.subset_union_left.trans Finset.subset_union_left
  | unread _ _ => exact subset_rfl

/-- What is noted before an outline may as well be noted after it. -/
theorem run_note (o : Outline) (l : Ledger) (mentions : Finset Mention) :
    o.run (l.note mentions) = (o.run l).note mentions := by
  induction o generalizing l with
  | skip => rfl
  | param ref => exact l.note_comm _ _
  | table name =>
    simp only [run, note_find?]
    split
    · rw [mark_note, note_comm]
    · rfl
  | seq a b iha ihb => rw [run, run, iha, ihb]
  | scope body _ => simp only [run, note_find?, mark_note, note_comm _ mentions]
  | define _ _ _ => rfl
  | recursive _ _ _ _ _ _ _ => rfl
  | unread _ _ => rfl

end Outline

end SqlTyping
