import SqlTyping.Proofs.Text
import SqlTyping.Text.Place
import Mathlib.Data.List.Induction
import Mathlib.Order.Bounds.Defs
import Mathlib.Data.Set.Function

/-!
# Places and markers

A marker shows one line of a text and what a span covers of it. Both are told by byte offsets here:
where the line starts and ends, and the boundaries that stand for the ends of the span. Every offset
and every span has a place and a marker, also those that lie behind the text or in a character.
-/

namespace SqlTyping.Text

open List

variable {cs a b x y : List Char} {n : Nat}

/-! ## Slices -/

theorem takeBytes?_byteSize (a y : List Char) : takeBytes? (byteSize a) (a ++ y) = some a := by
  induction a with
  | nil => rw [byteSize, takeBytes?]
  | cons c cs ih =>
    obtain ⟨k, hk⟩ := Nat.exists_eq_add_one.2 (Nat.add_pos_left c.utf8Size_pos (byteSize cs))
    rw [byteSize, hk, cons_append, takeBytes?, ← hk, if_pos (Nat.le_add_right _ _),
      Nat.add_sub_cancel_left, ih, Option.map_some]

theorem slice?_append (x a y : List Char) :
    slice? (byteSize x) (byteSize (x ++ a)) (x ++ a ++ y) = some a := by
  have hdrop : dropBytes? (byteSize x) (x ++ a ++ y) = some (a ++ y) :=
    dropBytes?_eq_some_iff.2 ⟨x, append_assoc x a y, rfl⟩
  rw [slice?, byteSize_append, if_pos (Nat.le_add_right _ _), hdrop, Nat.add_sub_cancel_left]
  exact takeBytes?_byteSize a y

/-! ## Boundaries -/

theorem append_splitBytes (n : Nat) (cs : List Char) :
    (splitBytes n cs).1 ++ (splitBytes n cs).2 = cs := by
  fun_induction splitBytes n cs with
  | case1 => rfl
  | case2 n c cs hc before rest hsplit ih =>
    rw [hsplit] at ih
    exact congrArg (c :: ·) ih
  | case3 => rfl

theorem byteSize_splitBytes_le (n : Nat) (cs : List Char) : byteSize (splitBytes n cs).1 ≤ n := by
  fun_induction splitBytes n cs with
  | case1 => exact Nat.zero_le _
  | case2 n c cs hc before rest hsplit ih =>
    have hle : byteSize before ≤ n - c.utf8Size := by simpa only [hsplit] using ih
    rw [byteSize]
    omega
  | case3 => exact Nat.zero_le _

/-- The boundary that an offset stands for. -/
def Clamps (cs : List Char) (offset n : Nat) : Prop := IsGreatest {n | Boundary cs n ∧ n ≤ offset} n

theorem clamps_splitBytes (offset : Nat) (cs : List Char) :
    Clamps cs offset (byteSize (splitBytes offset cs).1) := by
  constructor
  · exact ⟨⟨_, _, (append_splitBytes offset cs).symm, rfl⟩, byteSize_splitBytes_le offset cs⟩
  · rintro _ ⟨⟨before, after, rfl, rfl⟩, hle⟩
    rw [splitBytes_append hle, byteSize_append]
    exact Nat.le_add_right _ _

/-! ## Lines -/

theorem lastLine_append (a : List Char) (h : '\n' ∉ b) : lastLine (a ++ b) = lastLine a ++ b := by
  have hb : ∀ c ∈ b.reverse, (c != '\n') = true := fun c hc =>
    bne_iff_ne.2 fun heq => h (heq ▸ mem_reverse.1 hc)
  rw [lastLine, lastLine, reverse_append, takeWhile_append_of_pos hb,
    reverse_append, reverse_reverse]

/-- A text up to a place is the lines before it and the start of the last one. -/
theorem exists_append_lastLine (cs : List Char) : ∃ earlier, cs = earlier ++ lastLine cs ∧
    '\n' ∉ lastLine cs ∧ (earlier = [] ∨ earlier.getLast? = some '\n') := by
  refine ⟨(cs.reverse.dropWhile (· != '\n')).reverse, ?_, ?_, ?_⟩
  · rw [lastLine, ← reverse_append, takeWhile_append_dropWhile, reverse_reverse]
  · intro hmem
    simpa using all_eq_true.1 all_takeWhile _ (mem_reverse.1 hmem)
  · rw [reverse_eq_nil_iff, getLast?_reverse]
    cases hrest : cs.reverse.dropWhile (· != '\n') with
    | nil => exact .inl rfl
    | cons c rest =>
      have := head?_dropWhile_not (· != '\n') cs.reverse
      rw [hrest] at this
      exact .inr (by simpa using this)

theorem length_splitOn (cs : List Char) : (cs.splitOn '\n').length = cs.count '\n' + 1 := by
  induction cs with
  | nil => rfl
  | cons c cs ih =>
    rw [splitOn_cons_eq_if_modifyHead, count_cons]
    split <;> simp [ih]

theorem head?_splitOn (cs : List Char) :
    (cs.splitOn '\n')[0]? = some (cs.takeWhile (· != '\n')) := by
  induction cs with
  | nil => rfl
  | cons c cs ih =>
    rw [splitOn_cons_eq_if_modifyHead, takeWhile_cons]
    split <;> simp_all [bne]

/-- As many line breaks stand before a place as there are lines before its own. -/
theorem getElem?_splitOn (before rest : List Char) :
    ((before ++ rest).splitOn '\n')[before.count '\n']? =
      some (lastLine before ++ rest.takeWhile (· != '\n')) := by
  induction before using List.reverseRecOn generalizing rest with
  | nil => exact head?_splitOn rest
  | append_singleton before c ih =>
    rw [append_assoc, singleton_append, count_append]
    by_cases hc : c = '\n'
    · subst hc
      rw [splitOn_append_cons_self, getElem?_append_right (by simp [length_splitOn])]
      simpa [length_splitOn, lastLine] using head?_splitOn rest
    · rw [lastLine_append before (by simpa using Ne.symm hc)]
      simpa [hc, takeWhile_cons, count_singleton] using ih (c :: rest)

/-! ## Markers -/

theorem exists_shorter (ha : a <+: cs) (hb : b <+: cs) : ∃ c, c <+: cs ∧
    byteSize c = min (byteSize a) (byteSize b) ∧ c.length = min a.length b.length := by
  rcases prefix_or_prefix_of_prefix ha hb with ⟨d, rfl⟩ | ⟨d, rfl⟩
  · exact ⟨a, ha, by simp [byteSize_append]⟩
  · exact ⟨b, hb, by simp [byteSize_append]⟩

/-- The characters of a text up to the byte `start`, and those of them on the line that `start` is
on. The line goes from the byte `first` to the byte `last`. -/
structure OnLine (cs : List Char) (first start last : Nat) (before left right : List Char) :
    Prop where
  before_eq : slice? 0 start cs = some before
  left_eq : slice? first start cs = some left
  right_eq : slice? start last cs = some right
  line_eq : slice? first last cs = some (left ++ right)
  unbroken : '\n' ∉ left
  opens : first = 0 ∨ ∃ n, slice? n first cs = some ['\n']
  counted : (cs.splitOn '\n')[before.count '\n']? = some (left ++ right)

theorem onLine (before rest : List Char) : ∃ earlier, OnLine (before ++ rest) (byteSize earlier)
    (byteSize before) (byteSize (before ++ rest.takeWhile (· != '\n'))) before (lastLine before)
    (rest.takeWhile (· != '\n')) := by
  obtain ⟨earlier, hbefore, hleft, hopens⟩ := exists_append_lastLine before
  have hrest := takeWhile_append_dropWhile (p := (· != '\n')) (l := rest)
  have hcounted := getElem?_splitOn before rest
  generalize lastLine before = left at *
  generalize rest.takeWhile (· != '\n') = right at *
  generalize rest.dropWhile (· != '\n') = after at *
  subst hrest
  refine ⟨earlier, ?_, ?_, ?_, ?_, hleft, ?_, hcounted⟩
  · exact slice?_append [] before (right ++ after)
  · simpa [hbefore] using slice?_append earlier left (right ++ after)
  · simpa using slice?_append before right after
  · simpa [hbefore] using slice?_append earlier (left ++ right) after
  · rcases hopens with rfl | hopens
    · exact .inl rfl
    · obtain ⟨first, rfl⟩ := getLast?_eq_some_iff.1 hopens
      exact .inr ⟨_, by simpa [hbefore] using slice?_append first ['\n'] (left ++ (right ++ after))⟩

/-- Two places of a text differ in the line or in the column. -/
theorem injOn_place (text : String) :
    Set.InjOn (Place.ofOffset text) {n | Boundary text.toList n} := by
  have hlt {a d : List Char} (hcount : a.count '\n' = (a ++ d).count '\n')
      (hlen : (lastLine a).length = (lastLine (a ++ d)).length) : d = [] := by
    rw [count_append, Nat.left_eq_add, count_eq_zero] at hcount
    rw [lastLine_append a hcount, length_append, Nat.left_eq_add] at hlen
    exact eq_nil_of_length_eq_zero hlen
  rintro _ ⟨a, x, ha, rfl⟩ _ ⟨b, y, hb, rfl⟩ heq
  simp only [Place.ofOffset, Place.mk.injEq, Nat.add_right_cancel_iff, ha, splitBytes_byteSize]
    at heq
  rw [← ha, hb, splitBytes_byteSize] at heq
  rcases append_eq_append_iff.1 (ha.symm.trans hb) with ⟨d, rfl, -⟩ | ⟨d, rfl, -⟩
  · rw [hlt heq.1 heq.2, append_nil]
  · rw [hlt heq.1.symm heq.2.symm, append_nil]

/-- A marker shows the line that the span starts on, and below it the part of the span on that line.
No offset is too large for it, and the end of a span may lie before its start. -/
theorem marker_placed (text : String) (span : Span) :
    (∃ first start stop last before left right marked,
      Clamps text.toList span.start start ∧ Clamps text.toList (max span.start span.stop) stop ∧
      OnLine text.toList first start last before left right ∧
      slice? start (min stop last) text.toList = some marked ∧
      Place.ofOffset text span.start = ⟨before.count '\n' + 1, left.length + 1⟩ ∧
      (marker text span).toList = left ++ right ++ '\n' ::
        (List.replicate left.length ' ' ++ List.replicate (max 1 marked.length) '^')) ∧
    Set.InjOn (Place.ofOffset text) {n | Boundary text.toList n} := by
  refine ⟨?_, injOn_place text⟩
  have hstart := clamps_splitBytes span.start text.toList
  have hstop := clamps_splitBytes (max span.start span.stop) text.toList
  have htext := append_splitBytes span.start text.toList
  have hle := byteSize_splitBytes_le span.start text.toList
  simp only [Place.ofOffset, marker]
  generalize (splitBytes span.start text.toList).1 = before at *
  generalize (splitBytes span.start text.toList).2 = rest at *
  rw [← htext] at hstart hstop ⊢
  rw [splitBytes_append (Nat.le_trans hle (Nat.le_max_left _ _))] at hstop
  rw [Nat.max_comm span.stop]
  have hcovered := append_splitBytes (max span.start span.stop - byteSize before) rest
  generalize (splitBytes (max span.start span.stop - byteSize before) rest).1 = covered at *
  obtain ⟨earlier, hline⟩ := onLine before rest
  have htoEnd : rest.takeWhile (· != '\n') <+: rest := takeWhile_prefix _
  obtain ⟨marked, hmarked, hsize, hlen⟩ := exists_shorter ⟨_, hcovered⟩ htoEnd
  refine ⟨_, _, _, _, _, _, _, marked, hstart, hstop, hline, ?_, rfl, ?_⟩
  · obtain ⟨after, hafter⟩ := hmarked
    rw [byteSize_append, byteSize_append, Nat.add_min_add_left, ← hsize, ← byteSize_append,
      ← hafter, ← append_assoc, slice?_append]
  · simp [hlen, Nat.max_comm]

end SqlTyping.Text
