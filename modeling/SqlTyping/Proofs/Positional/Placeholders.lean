import Mathlib.Data.List.Range
import SqlTyping.Positional

/-!
# Placeholders of one parameter

What is put in place of a parameter can be read back: `placeholderNumbers` reads the numbers of the
placeholders in a text. If `n` placeholders are taken, those of the next parameter are `n + 1` and
so on, one for each of its values, in their order (`Param.placeholders_ok`).
-/

namespace SqlTyping

open List

namespace Text

/-- The numbers that follow dollar signs in a text, of which `current` is being read. -/
def numbersFrom : (current : Option Nat) → List Char → List Nat
  | none, [] => []
  | some n, [] => [n]
  | none, c :: cs => numbersFrom (if c = '$' then some 0 else none) cs
  | some n, c :: cs =>
    if c.isDigit then numbersFrom (some (10 * n + (c.toNat - '0'.toNat))) cs
    else n :: numbersFrom (if c = '$' then some 0 else none) cs

theorem numbersFrom_digits {digits : List Char} (h : ∀ c ∈ digits, c.isDigit = true) (n : Nat) :
    numbersFrom (some n) digits = [Nat.ofDigitChars 10 digits n] := by
  induction digits generalizing n with
  | nil => rfl
  | cons c rest ih =>
    obtain ⟨hc, hrest⟩ := forall_mem_cons.1 h
    rw [numbersFrom, if_pos hc, ih hrest]
    rfl

/-- What is neither a digit nor a dollar sign ends a number. -/
theorem numbersFrom_append {c : Char} (hdigit : c.isDigit = false) (hdollar : c ≠ '$')
    (current : Option Nat) (a b : List Char) :
    numbersFrom current (a ++ c :: b) = numbersFrom current a ++ numbersFrom none b := by
  induction a generalizing current with
  | nil => cases current <;> simp [numbersFrom, hdigit, hdollar]
  | cons d rest ih =>
    cases current with
    | none => exact ih _
    | some n =>
      rw [cons_append, numbersFrom, numbersFrom]
      split
      · exact ih _
      · rw [ih, cons_append]

theorem numbersFrom_commas (parts : List (List Char)) :
    numbersFrom none ([','].intercalate parts) = parts.flatMap (numbersFrom none) := by
  induction parts with
  | nil => rfl
  | cons part rest ih =>
    cases rest with
    | nil => simp [List.intercalate]
    | cons next rest =>
      have hcons : [','].intercalate (part :: next :: rest) =
          part ++ ',' :: [','].intercalate (next :: rest) := by
        simp [List.intercalate]
      rw [hcons, numbersFrom_append (by decide) (by decide), ih]
      rfl

end Text

open Text

/-- The numbers of the placeholders in a text. -/
def placeholderNumbers (text : String) : List Nat := numbersFrom none text.toList

theorem placeholderNumbers_placeholder (n : Nat) : placeholderNumbers (placeholder n) = [n] := by
  have hlist : (placeholder n).toList = '$' :: Nat.toDigits 10 n := by
    rw [placeholder, String.toList_append, show toString n = n.repr from rfl, Nat.toList_repr]
    rfl
  have hdigits : ∀ c ∈ Nat.toDigits 10 n, c.isDigit = true := fun c hc =>
    Nat.isDigit_of_mem_toDigits (by decide) (by decide) hc
  rw [placeholderNumbers, hlist, numbersFrom, if_pos rfl, numbersFrom_digits hdigits,
    Nat.ofDigitChars_toDigits (by decide) (by decide)]

theorem placeholderNumbers_commas (parts : List String) :
    placeholderNumbers (",".intercalate parts) = parts.flatMap placeholderNumbers := by
  rw [placeholderNumbers, String.toList_intercalate]
  exact (numbersFrom_commas _).trans (flatMap_map _ _ _)

theorem placeholderNumbers_tuple (used : Nat) (values : List Json) :
    placeholderNumbers (placeholderTuple used values) = List.range' (used + 1) values.length := by
  have hlist (inside : String) : ("(" ++ inside ++ ")").toList = '(' :: (inside.toList ++ [')']) := by
    simp
  have hparens (inside : String) :
      placeholderNumbers ("(" ++ inside ++ ")") = placeholderNumbers inside := by
    rw [placeholderNumbers, hlist, numbersFrom, if_neg (by decide),
      numbersFrom_append (by decide) (by decide)]
    exact append_nil _
  rw [placeholderTuple, hparens, placeholderNumbers_commas, flatMap_map,
    range'_eq_map_range, map_eq_flatMap]
  simp only [placeholderNumbers_placeholder, Nat.add_right_comm used]

theorem placeholderNumbers_rows (used : Nat) (rows : List (List Json)) :
    (placeholderRows used rows).flatMap placeholderNumbers =
      List.range' (used + 1) rows.flatten.length := by
  induction rows generalizing used with
  | nil => rfl
  | cons row rest ih =>
    rw [placeholderRows, flatMap_cons, placeholderNumbers_tuple, ih, flatten_cons,
      length_append, ← range'_append_1, Nat.add_right_comm]

/-! ## Values of one parameter -/

theorem pickRows_ok {name : String} {fields : List String} {index : Nat} {items : List Json}
    {rows : List (List Json)} (h : pickRows name fields index items = .ok rows) :
    rows = items.map fun item => fields.map fun field => (item.member? field).getD .null := by
  induction items generalizing index rows with
  | nil =>
    cases h
    rfl
  | cons item rest ih =>
    rw [pickRows] at h
    cases hrow : pickFields fields item with
    | none => rw [hrow] at h; cases h
    | some row =>
      rw [hrow] at h
      cases hrest : pickRows name fields (index + 1) rest with
      | error e => rw [hrest] at h; cases h
      | ok others =>
        rw [hrest] at h
        cases h
        have hfields : row = fields.map fun field => (item.member? field).getD .null := by
          unfold pickFields at hrow
          split at hrow
          · exact (Option.some.inj hrow).symm
          · cases hrow
        rw [map_cons, ← ih hrest, hfields]

namespace Param

variable {τ : Type} {p : Param τ} {values : Json} {used : Nat} {new : Placeholders}

/-- The values that a parameter stands for: its value, or its elements, or the fields of its
elements, element by element. A field that an element does not have is null. -/
def laidOut? (p : Param τ) (values : Json) : Option (List Json) :=
  (values.member? p.name).bind fun value =>
    if p.spread then
      value.asArray?.map fun items =>
        if p.pick.isEmpty then items
        else items.flatMap fun item => p.pick.map fun field => (item.member? field).getD .null
    else some [value]

theorem spreadPlaceholders_ok {items : List Json} (h : p.spreadPlaceholders items used = .ok new) :
    (if p.pick.isEmpty then new.text = placeholderTuple used items ∧ new.values = items
    else ∃ rows, rows = (items.map fun item => p.pick.map fun field =>
        (item.member? field).getD .null) ∧
      new.text = ",".intercalate (placeholderRows used rows) ∧ new.values = rows.flatten) := by
  unfold spreadPlaceholders at h
  split at h
  · cases h
  · split at h
    · next hpick =>
      rw [if_pos hpick]
      split at h
      · cases h
      · cases h
        exact ⟨rfl, rfl⟩
    · next hpick =>
      rw [if_neg hpick]
      cases hrows : pickRows p.name p.pick 0 items with
      | error e => rw [hrows] at h; cases h
      | ok rows =>
        rw [hrows] at h
        cases h
        exact ⟨rows, pickRows_ok hrows, rfl, rfl⟩

/-- The placeholders of a parameter are numbered from the first free number on, in the order of its
values. -/
theorem placeholders_ok (h : p.placeholders values used = .ok new) :
    p.laidOut? values = some new.values ∧
      placeholderNumbers new.text = List.range' (used + 1) new.values.length := by
  unfold placeholders at h
  rw [laidOut?]
  cases hvalue : values.member? p.name with
  | none => rw [hvalue] at h; cases h
  | some value =>
    rw [hvalue] at h
    dsimp only [Option.bind_some] at h ⊢
    by_cases hspread : p.spread = true
    · rw [if_pos hspread] at h ⊢
      cases hitems : value.asArray? with
      | none => rw [hitems] at h; cases h
      | some items =>
        rw [hitems] at h
        have hok := spreadPlaceholders_ok h
        dsimp only [Option.map_some]
        by_cases hpick : p.pick.isEmpty = true
        · rw [if_pos hpick] at hok ⊢
          rw [hok.1, hok.2]
          exact ⟨rfl, placeholderNumbers_tuple used items⟩
        · rw [if_neg hpick] at hok ⊢
          obtain ⟨rows, rfl, htext, hvalues⟩ := hok
          rw [htext, hvalues, placeholderNumbers_commas, placeholderNumbers_rows]
          exact ⟨rfl, rfl⟩
    · rw [if_neg hspread] at h ⊢
      split at h
      · cases h
      · cases h
        exact ⟨rfl, placeholderNumbers_placeholder _⟩

end Param

end SqlTyping
