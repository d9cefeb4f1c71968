import Mathlib.Data.List.Induction
import Mathlib.Data.List.Nodup

/-!
# Lists without repetitions

`eraseDups` keeps the first occurrence of every member. It commutes with `filter`, and what has
occurred before adds nothing. `eraseReps` takes out only what repeats the member before it.
-/

namespace SqlTyping.Repetition

open List

variable {α : Type} [BEq α] [LawfulBEq α]

theorem eraseDups_filter (p : α → Bool) (l : List α) :
    (l.filter p).eraseDups = l.eraseDups.filter p := by
  match l with
  | [] => rfl
  | a :: l =>
    have hlen : (l.filter fun b => !b == a).length < l.length + 1 :=
      Nat.lt_succ_of_le (length_filter_le _ l)
    have ih := eraseDups_filter p (l.filter fun b => !b == a)
    rw [eraseDups_cons, filter_cons, filter_cons]
    split
    · rw [eraseDups_cons, ← ih, filter_comm]
    · next hp =>
      have hne : (l.filter p).filter (fun b => !b == a) = l.filter p := by
        refine filter_eq_self.2 fun b hb => ?_
        have hpb := (mem_filter.1 hb).2
        simp only [Bool.not_eq_true', beq_eq_false_iff_ne]
        rintro rfl
        exact hp hpb
      rw [← ih, filter_comm, hne]
termination_by l.length

theorem nodup_eraseDups (l : List α) : l.eraseDups.Nodup := by
  match l with
  | [] => simp
  | a :: l =>
    have hlen : (l.filter fun b => !b == a).length < l.length + 1 :=
      Nat.lt_succ_of_le (length_filter_le _ l)
    rw [eraseDups_cons, nodup_cons]
    exact ⟨by simp, nodup_eraseDups _⟩
termination_by l.length

theorem eraseDups_of_nodup {l : List α} (h : l.Nodup) : l.eraseDups = l := by
  induction l with
  | nil => rfl
  | cons a l ih =>
    obtain ⟨ha, hl⟩ := nodup_cons.1 h
    have hne : (l.filter fun b => !b == a) = l := by
      refine filter_eq_self.2 fun b hb => ?_
      simp only [Bool.not_eq_true', beq_eq_false_iff_ne]
      rintro rfl
      exact ha hb
    rw [eraseDups_cons, hne, ih hl]

theorem eraseDups_append_of_subset {l m : List α} (h : ∀ a ∈ m, a ∈ l) :
    (l ++ m).eraseDups = l.eraseDups := by
  have hm : m.removeAll l = [] := by
    simpa [List.removeAll] using h
  rw [eraseDups_append, hm, eraseDups_nil, append_nil]

theorem eraseDups_append_eraseDups (l m : List α) :
    (l ++ m.eraseDups).eraseDups = (l ++ m).eraseDups := by
  have hm : m.eraseDups.removeAll l = (m.removeAll l).eraseDups := by
    simp only [List.removeAll, eraseDups_filter]
  rw [eraseDups_append, eraseDups_append, hm, eraseDups_of_nodup (nodup_eraseDups _)]

theorem eraseDups_eq_nil {l : List α} : l.eraseDups = [] ↔ l = [] := by
  simp only [eq_nil_iff_forall_not_mem, mem_eraseDups]

theorem eraseDups_of_forall_eq {l : List α} {a : α} (h : ∀ b ∈ l, b = a) (hmem : a ∈ l) :
    l.eraseDups = [a] := by
  cases l with
  | nil => cases hmem
  | cons b l =>
    obtain ⟨rfl, hl⟩ := forall_mem_cons.1 h
    rw [eraseDups_cons, filter_eq_nil_iff.2 fun c hc => by simp [hl c hc]]
    rfl

theorem eraseDups_eraseDups_append (l m : List α) :
    (l.eraseDups ++ m).eraseDups = (l ++ m).eraseDups := by
  rw [eraseDups_append, eraseDups_append, eraseDups_of_nodup (nodup_eraseDups _)]
  simp [List.removeAll]

theorem eraseDups_flatMap {β : Type} (l : List β) (f : β → List α) :
    (l.flatMap fun a => (f a).eraseDups).eraseDups = (l.flatMap f).eraseDups := by
  induction l with
  | nil => rfl
  | cons a l ih =>
    rw [flatMap_cons, flatMap_cons, eraseDups_eraseDups_append, ← eraseDups_append_eraseDups, ih,
      eraseDups_append_eraseDups]

/-- What stands for a repetition repeats what stands for its first occurrence. -/
theorem eraseDups_flatMap_eraseDups {β : Type} [BEq β] [LawfulBEq β] (l : List β)
    (f : β → List α) : (l.eraseDups.flatMap f).eraseDups = (l.flatMap f).eraseDups := by
  induction l using List.reverseRecOn with
  | nil => rfl
  | append_singleton l b ih =>
    by_cases hb : b ∈ l
    · have hsub : ∀ a ∈ [b].flatMap f, a ∈ l.flatMap f := fun a ha =>
        mem_flatMap.2 ⟨b, hb, by simpa using ha⟩
      rw [eraseDups_append_of_subset (by simpa using hb), ih, flatMap_append,
        eraseDups_append_of_subset hsub]
    · have hlast : (l ++ [b]).eraseDups = l.eraseDups ++ [b] := by
        rw [eraseDups_append]
        simp [List.removeAll, hb, eraseDups_cons]
      rw [hlast, flatMap_append, flatMap_append, eraseDups_append, eraseDups_append, ih]
      simp [List.removeAll]

/-! ## Adjacent repetitions -/

omit [BEq α] [LawfulBEq α] in
theorem eraseRepsBy_loop (r : α → α → Bool) (a : α) (l acc : List α) :
    List.eraseRepsBy.loop r a l acc = acc.reverse ++ List.eraseRepsBy.loop r a l [] := by
  induction l generalizing a acc with
  | nil => simp [List.eraseRepsBy.loop]
  | cons b l ih =>
    unfold List.eraseRepsBy.loop
    split
    · exact ih a acc
    · rw [ih b (a :: acc), ih b [a]]
      simp

theorem eraseReps_cons_cons (a b : α) (l : List α) :
    (a :: b :: l).eraseReps = if a == b then (b :: l).eraseReps else a :: (b :: l).eraseReps := by
  unfold List.eraseReps List.eraseRepsBy
  by_cases h : a = b
  · simp [List.eraseRepsBy.loop, h]
  · simp [List.eraseRepsBy.loop, beq_false_of_ne h, eraseRepsBy_loop _ b l [a]]

theorem eraseReps_cons (a : α) (l : List α) : ∃ t, (a :: l).eraseReps = a :: t := by
  induction l generalizing a with
  | nil => exact ⟨[], rfl⟩
  | cons b l ih =>
    rw [eraseReps_cons_cons]
    split
    · next h => exact eq_of_beq h ▸ ih a
    · exact ⟨_, rfl⟩

theorem mem_eraseReps {x : α} {l : List α} : x ∈ l.eraseReps ↔ x ∈ l := by
  match l with
  | [] => rfl
  | [a] => rfl
  | a :: b :: l =>
    have ih := mem_eraseReps (x := x) (l := b :: l)
    rw [eraseReps_cons_cons]
    split
    · next h => simp [ih, eq_of_beq h]
    · rw [mem_cons, ih, ← mem_cons]

theorem eraseReps_sublist (l : List α) : l.eraseReps.Sublist l := by
  match l with
  | [] => exact .slnil
  | [a] => exact .refl _
  | a :: b :: l =>
    have ih := eraseReps_sublist (b :: l)
    rw [eraseReps_cons_cons]
    split
    · exact ih.cons a
    · exact ih.cons_cons a

theorem isChain_eraseReps (l : List α) : l.eraseReps.IsChain (· ≠ ·) := by
  match l with
  | [] => exact .nil
  | [a] => exact .singleton a
  | a :: b :: l =>
    have ih := isChain_eraseReps (b :: l)
    rw [eraseReps_cons_cons]
    split
    · exact ih
    · next h =>
      obtain ⟨t, ht⟩ := eraseReps_cons b l
      rw [ht] at ih ⊢
      exact .cons_cons (ne_of_beq_false (eq_false_of_ne_true h)) ih

end SqlTyping.Repetition
