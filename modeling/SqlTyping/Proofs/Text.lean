import SqlTyping.Text.Blank
import SqlTyping.Text.Fold
import SqlTyping.Text.Lower
import SqlTyping.Text.Utf8

/-!
# Texts

When texts are equal up to case, and what is left of a text from a byte offset on.
-/

namespace SqlTyping.Text

open List

variable {word cs rest : List Char} {n : Nat}

/-! ## Comparison up to case -/

/-- What counts of a text when texts are compared up to case. -/
def fold (s : String) : List Char := s.toList.map Char.toLower

theorem eqFold_iff {a b : String} : eqFold a b = true ↔ fold a = fold b := by
  simp [eqFold, fold]

theorem fold_eq_nil {s : String} : fold s = [] ↔ s = "" := by
  simp [fold]

theorem eq_append_of_after? (h : after? word cs = some rest) : cs = word ++ rest := by
  fun_induction after? word cs with
  | case1 cs => simpa using h
  | case2 w ws c cs hc ih => rw [ih h, eq_of_beq hc, cons_append]
  | case3 => cases h
  | case4 => cases h

theorem afterFold?_eq_some_iff : afterFold? word cs = some rest ↔
      ∃ start, cs = start ++ rest ∧ start.map Char.toLower = word.map Char.toLower := by
  constructor
  · intro h
    fun_induction afterFold? word cs with
    | case1 cs => exact ⟨[], by simpa using h, rfl⟩
    | case2 w ws c cs hc ih =>
      obtain ⟨start, rfl, hstart⟩ := ih h
      exact ⟨c :: start, rfl, by rw [map_cons, map_cons, hstart, eq_of_beq hc]⟩
    | case3 => cases h
    | case4 => cases h
  · rintro ⟨start, rfl, hstart⟩
    induction word generalizing start with
    | nil => rw [map_eq_nil_iff.1 hstart]; rfl
    | cons w ws ih =>
      cases start with
      | nil => cases hstart
      | cons c start =>
        obtain ⟨hc, htail⟩ := List.cons.inj hstart
        rw [cons_append, afterFold?, if_pos (by simpa using hc.symm)]
        exact ih start htail

/-! ## Letters -/

section Letters

variable {c : Char}

theorem isUpper_iff : c.isUpper = true ↔ 65 ≤ c.toNat ∧ c.toNat ≤ 90 := decide_eq_true_iff

theorem isLower_iff : c.isLower = true ↔ 97 ≤ c.toNat ∧ c.toNat ≤ 122 :=
  (Bool.and_eq_true_iff).trans (and_congr decide_eq_true_iff decide_eq_true_iff)

theorem isDigit_iff : c.isDigit = true ↔ 48 ≤ c.toNat ∧ c.toNat ≤ 57 :=
  (Bool.and_eq_true_iff).trans (and_congr decide_eq_true_iff decide_eq_true_iff)

theorem isAlpha_iff : c.isAlpha = true ↔ c.isUpper = true ∨ c.isLower = true := Bool.or_eq_true_iff

theorem isAlpha_of_isDigit (h : c.isDigit = true) : c.isAlpha = false := by
  rw [← Bool.not_eq_true, isAlpha_iff, isUpper_iff, isLower_iff]
  rw [isDigit_iff] at h
  omega

theorem toLower_eq_self (h : c.isUpper = false) : c.toLower = c :=
  dif_neg fun hrange => Bool.false_ne_true (h.symm.trans (isUpper_iff.2 hrange))

theorem toNat_toLower (h : c.isUpper = true) : c.toLower.toNat = c.toNat + 32 := by
  have hval : c.toLower.val = c.val + 32 := congrArg Char.val (dif_pos (isUpper_iff.1 h))
  have hrange := isUpper_iff.1 h
  show c.toLower.val.toNat = _
  rw [hval, UInt32.toNat_add]
  exact Nat.mod_eq_of_lt (Nat.lt_of_le_of_lt (Nat.add_le_add_right hrange.2 32) (by decide))

theorem isAlpha_toLower (c : Char) : c.toLower.isAlpha = c.isAlpha := by
  cases hupper : c.isUpper with
  | false => rw [toLower_eq_self hupper]
  | true =>
    have hrange := isUpper_iff.1 hupper
    have hlower : c.toLower.isLower = true := by
      rw [isLower_iff, toNat_toLower hupper]
      omega
    rw [isAlpha_iff.2 (.inl hupper), isAlpha_iff.2 (.inr hlower)]

end Letters

/-- In ASCII, lower case is taken letter by letter. -/
theorem lowerChars_eq_map (h : ∀ c ∈ cs, c.toNat < 128) (before : List Char) :
    lowerChars before cs = cs.map Char.toLower := by
  induction cs generalizing before with
  | nil => rfl
  | cons c cs ih =>
    have hascii := h c (.head _)
    have hdot : c ≠ 'İ' := by rintro rfl; revert hascii; decide
    have hsigma : c ≠ 'Σ' := by rintro rfl; revert hascii; decide
    rw [lowerChars, if_neg hdot, if_neg hsigma, ih (fun d hd => h d (.tail _ hd)), lowerChar,
      if_pos hascii]
    rfl

/-! ## Byte offsets -/

theorem byteSize_append (a b : List Char) : byteSize (a ++ b) = byteSize a + byteSize b := by
  induction a with
  | nil => simp [byteSize]
  | cons c cs ih => simp [byteSize, ih, Nat.add_assoc]

/-- The text from an offset on is what follows the characters that take up the offset. -/
theorem dropBytes?_eq_some_iff :
    dropBytes? n cs = some rest ↔ ∃ before, cs = before ++ rest ∧ n = byteSize before := by
  constructor
  · intro h
    fun_induction dropBytes? n cs with
    | case1 cs => exact ⟨[], by simpa using h, rfl⟩
    | case2 => cases h
    | case3 n c cs hc ih =>
      obtain ⟨before, rfl, hn⟩ := ih h
      exact ⟨c :: before, rfl, by rw [byteSize, ← hn]; omega⟩
    | case4 => cases h
  · rintro ⟨before, rfl, rfl⟩
    induction before with
    | nil => rw [byteSize, dropBytes?]; rfl
    | cons c cs ih =>
      have hpos : 0 < c.utf8Size := c.utf8Size_pos
      obtain ⟨k, hk⟩ : ∃ k, byteSize (c :: cs) = k + 1 := ⟨_, (Nat.succ_pred (by
        rw [byteSize]; omega)).symm⟩
      rw [hk, cons_append, dropBytes?, ← hk, if_pos (by rw [byteSize]; omega), byteSize,
        Nat.add_sub_cancel_left, ih]

theorem dropBytes?_add {a : List Char} (h : dropBytes? n cs = some (a ++ rest)) :
    dropBytes? (n + byteSize a) cs = some rest := by
  obtain ⟨before, rfl, rfl⟩ := dropBytes?_eq_some_iff.1 h
  exact dropBytes?_eq_some_iff.2 ⟨before ++ a, by simp, (byteSize_append before a).symm⟩

section Slices

variable {a : List Char} {m : Nat}

theorem takeBytes?_eq_some (h : takeBytes? n cs = some a) :
    ∃ rest, cs = a ++ rest ∧ byteSize a = n := by
  fun_induction takeBytes? n cs generalizing a with
  | case1 cs =>
    cases h
    exact ⟨cs, rfl, rfl⟩
  | case2 => cases h
  | case3 n c cs hc ih =>
    obtain ⟨b, hb, rfl⟩ := Option.map_eq_some_iff.1 h
    obtain ⟨rest, rfl, hsize⟩ := ih hb
    exact ⟨rest, rfl, by rw [byteSize, hsize]; omega⟩
  | case4 => cases h

/-- From offset `m` to offset `n` the text is `a`. -/
def Between (cs : List Char) (m n : Nat) (a : List Char) : Prop :=
  ∃ rest, dropBytes? m cs = some (a ++ rest) ∧ dropBytes? n cs = some rest ∧ m + byteSize a = n

theorem slice?_eq_some (h : slice? m n cs = some a) : Between cs m n a := by
  unfold slice? at h
  split at h
  · next hle =>
    obtain ⟨b, hb, ha⟩ := Option.bind_eq_some_iff.1 h
    obtain ⟨rest, rfl, hsize⟩ := takeBytes?_eq_some ha
    have hend : m + byteSize a = n := by omega
    exact ⟨rest, hb, hend ▸ dropBytes?_add hb, hend⟩
  · cases h

theorem eq_nil_of_byteSize (h : byteSize cs = 0) : cs = [] := by
  cases cs with
  | nil => rfl
  | cons c rest =>
    have := c.utf8Size_pos
    rw [byteSize] at h
    omega

theorem exists_between {b : List Char} (hle : m ≤ n) (ha : dropBytes? m cs = some a)
    (hb : dropBytes? n cs = some b) : ∃ c, Between cs m n c := by
  obtain ⟨x, hx, rfl⟩ := dropBytes?_eq_some_iff.1 ha
  obtain ⟨y, hy, rfl⟩ := dropBytes?_eq_some_iff.1 hb
  rcases append_eq_append_iff.1 (hx.symm.trans hy) with ⟨c, rfl, rfl⟩ | ⟨c, rfl, rfl⟩
  · exact ⟨c, b, ha, hb, (byteSize_append x c).symm⟩
  · rw [byteSize_append] at hle
    obtain rfl : c = [] := eq_nil_of_byteSize (by omega)
    exact ⟨[], a, ha, by simpa using hb, by simp [byteSize]⟩

/-- The offset is in the text or at its end, and not within a character. -/
def Boundary (cs : List Char) (n : Nat) : Prop :=
  ∃ before after, cs = before ++ after ∧ n = byteSize before

theorem boundary_iff : Boundary cs n ↔ ∃ rest, dropBytes? n cs = some rest := by
  simp only [dropBytes?_eq_some_iff]
  exact exists_comm

end Slices

theorem splitBytes_append {x y : List Char} (h : byteSize x ≤ n) : splitBytes n (x ++ y) =
    (x ++ (splitBytes (n - byteSize x) y).1, (splitBytes (n - byteSize x) y).2) := by
  induction x generalizing n with
  | nil => rfl
  | cons c x ih =>
    rw [byteSize] at h ⊢
    rw [cons_append, splitBytes, if_pos (by omega), ih (by omega), Nat.sub_sub]
    rfl

/-- The characters before an offset. -/
theorem splitBytes_byteSize (before rest : List Char) :
    (splitBytes (byteSize before) (before ++ rest)).1 = before := by
  rw [splitBytes_append (Nat.le_refl _), Nat.sub_self]
  cases rest with
  | nil => exact append_nil before
  | cons c rest =>
    rw [splitBytes, if_neg (Nat.not_le_of_lt c.utf8Size_pos), append_nil]

end SqlTyping.Text
