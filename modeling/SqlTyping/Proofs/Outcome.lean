import Mathlib.Data.List.Forall2

/-!
# Outcomes

What is known of the parts of a computation that succeeds or fails.
-/

namespace SqlTyping

open List

variable {ε α β : Type} {f : α → Except ε β} {l : List α} {bs : List β}

theorem bind_eq_ok {x : Except ε α} {b : β} (h : x >>= f = .ok b) :
    ∃ a, x = .ok a ∧ f a = .ok b := by
  cases x with
  | error e => cases h
  | ok a => exact ⟨a, rfl, h⟩

theorem bind_eq_error {x : Except ε α} {e : ε} (h : x >>= f = .error e) :
    x = .error e ∨ ∃ a, x = .ok a ∧ f a = .error e := by
  cases x with
  | error e' =>
    cases h
    exact .inl rfl
  | ok a => exact .inr ⟨a, rfl, h⟩

theorem exists_of_toOption_any {x : Except ε α} {p : α → Bool} (h : x.toOption.any p = true) :
    ∃ a, x = .ok a ∧ p a = true := by
  cases x with
  | error e => cases h
  | ok a => exact ⟨a, rfl, h⟩

theorem exists_of_isOk {x : Except ε α} (h : x.isOk = true) : ∃ a, x = .ok a := by
  cases x with
  | error e => cases h
  | ok a => exact ⟨a, rfl⟩

/-- What follows an outcome matters only for the value that the outcome has. -/
theorem bind_congr_ok {o : Except ε α} {g : α → Except ε β} (h : ∀ a, o = .ok a → f a = g a) :
    (o >>= f) = (o >>= g) := by
  cases o with
  | error e => rfl
  | ok a => exact h a rfl

theorem forall₂_of_mapM_eq_ok (h : l.mapM f = .ok bs) :
    List.Forall₂ (fun a b => f a = .ok b) l bs := by
  induction l generalizing bs with
  | nil =>
    cases h
    exact .nil
  | cons a l ih =>
    rw [mapM_cons] at h
    obtain ⟨b, hb, h⟩ := bind_eq_ok h
    obtain ⟨rest, hrest, h⟩ := bind_eq_ok h
    cases h
    exact .cons hb (ih hrest)

theorem exists_of_forall₂ {R : α → β → Prop} (h : List.Forall₂ R l bs) {a : α} (ha : a ∈ l) :
    ∃ b ∈ bs, R a b := by
  induction h with
  | nil => cases ha
  | cons hr _ ih =>
    rcases mem_cons.1 ha with rfl | ha
    · exact ⟨_, mem_cons_self, hr⟩
    · obtain ⟨b, hb, hr⟩ := ih ha
      exact ⟨b, mem_cons_of_mem _ hb, hr⟩

theorem forall_of_mapM_eq_ok {H : β → Prop} (h : l.mapM f = .ok bs)
    (hf : ∀ a ∈ l, ∀ b, f a = .ok b → H b) : ∀ b ∈ bs, H b := by
  intro b hb
  obtain ⟨a, ha, hab⟩ := exists_of_forall₂ (forall₂_of_mapM_eq_ok h).flip hb
  exact hf a ha b hab

theorem mapM_eq_ok_of_mapM_eq_some {g : α → Option β} (h : l.mapM g = some bs)
    (hg : ∀ a b, g a = some b → f a = .ok b) : l.mapM f = .ok bs := by
  induction l generalizing bs with
  | nil => cases h; rfl
  | cons a l ih =>
    rw [mapM_cons] at h ⊢
    obtain ⟨b, hb, h⟩ := Option.bind_eq_some_iff.1 h
    obtain ⟨rest, hrest, h⟩ := Option.bind_eq_some_iff.1 h
    cases h
    rw [hg a b hb, ih hrest]
    rfl

theorem exists_of_mapM_eq_error {e : ε} (h : l.mapM f = .error e) : ∃ a ∈ l, f a = .error e := by
  induction l with
  | nil => cases h
  | cons a l ih =>
    rw [mapM_cons] at h
    rcases bind_eq_error h with ha | ⟨b, -, h⟩
    · exact ⟨a, mem_cons_self, ha⟩
    · rcases bind_eq_error h with hrest | ⟨bs, -, h⟩
      · obtain ⟨a', hmem, herror⟩ := ih hrest
        exact ⟨a', mem_cons_of_mem a hmem, herror⟩
      · cases h

end SqlTyping
