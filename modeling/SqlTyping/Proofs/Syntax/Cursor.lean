import SqlTyping.Proofs.Repetition
import SqlTyping.Proofs.Syntax.Bounds
import SqlTyping.Syntax.Parse

/-!
# What a cursor remembers

Wherever rules lead a cursor, it stays between two characters of its text, and what it remembers is
decided by the log of the runs: the furthest place at which something was expected, and what was
expected there. So every error is reported at a place in the text. The numbers of open comments and
of constructs that are nested in each other are never taken below zero.
-/

namespace SqlTyping

open List Rule Text

namespace Cursor

variable {text : String} {log : List (Nat × String)} {notes more : List Note} {c c' : Cursor}
  {m : Mark}

/-- What was expected, and where. -/
def expectations (notes : List Note) : List (Nat × String) :=
  notes.filterMap fun
    | .expected offset label => some (offset, label)
    | _ => none

/-- What was expected at the offset, in order and without repetitions. -/
def labelsAt (log : List (Nat × String)) (offset : Nat) : List String :=
  ((log.filter (·.1 == offset)).map Prod.snd).eraseDups

/-- What the cursor knows of the text, and of the log of what was expected in it. -/
structure Knows (text : String) (log : List (Nat × String)) (c : Cursor) : Prop where
  isIn : c.mark.In text
  logged : ∀ entry ∈ log, Text.Boundary text.toList entry.1 ∧ entry.1 ≤ c.furthest
  furthest : c.furthest = 0 ∨ c.furthest ∈ log.map Prod.fst
  expected : c.expected = labelsAt log c.furthest
  tooDeep : ∀ offset ∈ c.tooDeep, Text.Boundary text.toList offset

theorem boundary_of_isIn (h : m.In text) : Text.Boundary text.toList m.offset :=
  boundary_iff.2 ⟨_, h⟩

theorem knows_ofText (text : String) : Knows text [] (ofText text) :=
  ⟨dropBytes?_eq_some_iff.2 ⟨[], rfl, rfl⟩, by simp, .inl rfl, rfl, by simp [ofText]⟩

namespace Knows

theorem boundary_furthest (h : Knows text log c) : Text.Boundary text.toList c.furthest := by
  rcases h.furthest with hzero | hmem
  · rw [hzero]
    exact ⟨[], _, rfl, rfl⟩
  · obtain ⟨entry, hentry, heq⟩ := mem_map.1 hmem
    exact heq ▸ (h.logged entry hentry).1

theorem expect (h : Knows text log c) (hm : m.In text) (label : String) :
    Knows text (log ++ [(m.offset, label)]) (c.expect m.offset label) := by
  have hlogged {offset : Nat} (hle : c.furthest ≤ offset) (hlast : m.offset ≤ offset) :
      ∀ entry ∈ log ++ [(m.offset, label)], Text.Boundary text.toList entry.1 ∧ entry.1 ≤ offset := by
    rw [forall_mem_append]
    refine ⟨fun entry hentry => ?_, by simpa using ⟨boundary_of_isIn hm, hlast⟩⟩
    exact (h.logged entry hentry).imp_right (Nat.le_trans · hle)
  have hfurthest : c.furthest = 0 ∨
      c.furthest ∈ (log ++ [(m.offset, label)]).map Prod.fst := by
    rw [map_append, mem_append]
    exact h.furthest.imp_right .inl
  unfold Cursor.expect
  split
  · next hlt =>
    refine ⟨h.isIn, hlogged (Nat.le_of_lt hlt) (Nat.le_refl _), .inr (by simp), ?_, h.tooDeep⟩
    have hbefore : log.filter (·.1 == m.offset) = [] := by
      refine filter_eq_nil_iff.2 fun entry hentry => ?_
      have hle := (h.logged entry hentry).2
      simp only [beq_iff_eq]
      omega
    simp [labelsAt, filter_append, hbefore, eraseDups_cons]
  · next hlt =>
    have hle := Nat.not_lt.1 hlt
    split
    · next hnew =>
      simp only [Bool.and_eq_true, beq_iff_eq, Bool.not_eq_true', contains_eq_mem,
        decide_eq_false_iff_not] at hnew
      obtain ⟨heq, hnew⟩ := hnew
      refine ⟨h.isIn, hlogged (Nat.le_refl _) hle, hfurthest, ?_, h.tooDeep⟩
      rw [h.expected, labelsAt, mem_eraseDups] at hnew
      show c.expected ++ [label] = _
      rw [h.expected, labelsAt, labelsAt, filter_append, map_append, eraseDups_append]
      generalize (log.filter (·.1 == c.furthest)).map Prod.snd = labels at hnew
      simp [heq, removeAll, hnew, eraseDups_cons]
    · next hold =>
      refine ⟨h.isIn, hlogged (Nat.le_refl _) hle, hfurthest, ?_, h.tooDeep⟩
      rw [h.expected, labelsAt, labelsAt, filter_append, map_append]
      refine (Repetition.eraseDups_append_of_subset fun other hother => ?_).symm
      have hother : m.offset = c.furthest ∧ other = label := by
        by_cases heq : m.offset = c.furthest <;> simp_all
      obtain ⟨heq, rfl⟩ := hother
      rw [← mem_eraseDups, ← labelsAt, ← h.expected]
      simpa [heq] using hold

/-- What was expected last is further on. -/
theorem furthest_le {more : List (Nat × String)} (h : Knows text log c)
    (h' : Knows text (log ++ more) c') : c.furthest ≤ c'.furthest := by
  rcases h.furthest with hzero | hmem
  · omega
  · obtain ⟨entry, hentry, heq⟩ := mem_map.1 hmem
    exact heq ▸ (h'.logged entry (mem_append_left _ hentry)).2

/-- A run adds to the log and keeps what the cursor knows. -/
theorem run {α : Type} {rule : Rule α} {ctx : Context} (h : Knows text log c)
    (hrun : rule.Notes ctx c notes) : Knows text (log ++ expectations notes) (rule ctx c).2 := by
  induction hrun generalizing log with
  | look => exact (append_nil log).symm ▸ h
  | begin => exact (append_nil log).symm ▸ { h with isIn := h.isIn.skipTrivia }
  | fail => exact h.expect h.isIn.skipTrivia _
  | read hscan hx =>
    rw [Rule.terminal, hx]
    exact (append_nil log).symm ▸ { h with isIn := h.isIn.skipTrivia.scan (hscan _ _ hx) }
  | miss hx =>
    rw [Rule.terminal, hx]
    exact h.expect h.isIn.skipTrivia _
  | stop _ hr ih =>
    rw [hr] at ih
    rw [bind_none hr]
    exact ih h
  | next _ hr _ ih ih' =>
    rw [hr] at ih
    rw [bind_some hr, expectations, filterMap_append, ← append_assoc]
    exact ih' (ih h)
  | @maybe _ rule ctx c _ _ ih =>
    have hisIn := h.isIn
    replace ih := ih h
    rw [Rule.maybe]
    revert ih
    rcases rule ctx c with ⟨_ | _, _⟩ <;> intro ih
    · exact { ih with isIn := hisIn }
    · exact ih
  | peek _ ih => exact { ih h with isIn := h.isIn }
  | @textOf _ rule ctx c _ _ ih =>
    replace ih := ih { h with isIn := h.isIn.skipTrivia }
    rw [Rule.textOf]
    revert ih
    rcases rule ctx { c with mark := c.mark.skipTrivia } with ⟨_ | _, _⟩ <;> exact id
  | @nested _ rule ctx c notes hclear hroom _ ih =>
    have hsame : expectations (.entered :: notes ++ [.left]) = expectations notes := by
      simp [expectations]
    rw [nested_of_lt hclear hroom, hsame]
    exact ih h
  | blocked hblocked =>
    refine (append_nil log).symm ▸ ?_
    rw [Rule.nested]
    split
    · exact h
    · next hclear =>
      rw [if_pos (hblocked (by simpa using hclear))]
      exact { h with
        isIn := h.isIn.skipTrivia
        tooDeep := fun _ heq => Option.some.inj heq ▸ boundary_of_isIn h.isIn.skipTrivia }
  | fueled _ ih => exact ih h

end Knows

/-- Where less of the text is left, one has come further. -/
theorem position_le (hc : c.mark.In text) (hc' : c'.mark.In text)
    (hle : c'.mark.rest.length ≤ c.mark.rest.length) : c.position ≤ c'.position := by
  obtain ⟨before, hbefore, hoffset⟩ := dropBytes?_eq_some_iff.1 hc
  obtain ⟨before', hbefore', hoffset'⟩ := dropBytes?_eq_some_iff.1 hc'
  rw [position, position, hoffset, hoffset']
  rcases append_eq_append_iff.1 (hbefore.symm.trans hbefore') with ⟨read, rfl, -⟩ | ⟨read, rfl, h⟩
  · rw [byteSize_append]
    omega
  · obtain rfl : read = [] := length_eq_zero_iff.1 (by rw [h, length_append] at hle; omega)
    rw [append_nil]

/-- The cursors that come up when rules are run on a text, each with the log of all runs so far: a new
one, those to which runs lead, and those that were set back to a place where one of them has been. -/
inductive Reached (text : String) : List Note → Cursor → Prop
  | new : Reached text [] (ofText text)
  | run {α : Type} {rule : Rule α} {ctx : Context} {c : Cursor} {notes more : List Note}
      (h : Reached text notes c) (hrun : rule.Notes ctx c more) :
      Reached text (notes ++ more) (rule ctx c).2
  | reset {c c' : Cursor} {notes notes' : List Note} (h : Reached text notes c)
      (h' : Reached text notes' c') : Reached text notes { c with mark := c'.mark }

theorem Reached.knows (h : Reached text notes c) : Knows text (expectations notes) c := by
  induction h with
  | new => exact knows_ofText text
  | run _ hrun ih =>
    rw [expectations, filterMap_append]
    exact ih.run hrun
  | reset _ _ ih ih' => exact { ih with isIn := ih'.isIn }

/-- An error of the parser is at a place in the text. -/
theorem boundary_of_parseWith {tolerant : Bool} {e : SyntaxError}
    (h : parseWith tolerant text = .error e) : Text.Boundary text.toList e.position := by
  have hwhole : Stable 0 (Grammar.ofText text).wholeStatement := .bind
  obtain ⟨notes, hnotes⟩ := hwhole.notes { tolerant } (ofText text)
  have hknows := (knows_ofText text).run hnotes
  rw [parseWith, Rule.run] at h
  revert h hknows
  rcases (Grammar.ofText text).wholeStatement { tolerant } (ofText text) with
    ⟨parsed, mark, furthest, expected, tooDeep⟩
  intro h hknows
  rcases tooDeep with _ | offset
  · cases parsed with
    | none => cases h; exact hknows.boundary_furthest
    | some st => cases h
  · cases h
    exact hknows.tooDeep _ rfl

/-! ## Rules that stay where they are if they fail -/

/-- The rules for one token, and for keywords in a row. -/
inductive Token : {α : Type} → Rule α → Prop
  | terminal {α : Type} (label : String) (scan : Scanner α) : Token (terminal label scan)
  | keyword (word : String) : Token (keyword word)
  | keywords (words : List String) : Token (keywords words)
  | oneOf {α : Type} (words : List (String × α)) : Token (oneOf words)
  | punct (mark : String) : Token (punct mark)
  | operatorWhere (label : String) (allowed : String → Bool) : Token (operatorWhere label allowed)
  | symbol (op : String) : Token (symbol op)

/-- The rule goes nowhere if it fails. -/
def Stays {α : Type} (rule : Rule α) : Prop :=
  ∀ ⦃ctx c c'⦄, rule ctx c = (none, c') → c'.mark = c.mark

namespace Stays

variable {α β : Type} {rule : Rule α}

theorem map {f : α → β} (h : Stays rule) : Stays (rule >>= fun a => pure (f a)) := by
  intro ctx c c' hrun
  rcases hr : rule ctx c with ⟨_ | a, c₁⟩
  · rw [bind_none hr] at hrun
    cases hrun
    exact h hr
  · rw [bind_some hr] at hrun
    cases hrun

theorem maybeCases {f : α → β} {next : Option α → Rule β} (hsome : ∀ a, next (some a) = pure (f a))
    (hnone : Stays (next none)) : Stays (maybe rule >>= next) := by
  intro ctx c c' hrun
  rcases hr : rule ctx c with ⟨_ | a, c₁⟩
  · rw [bind_some (maybe_none hr)] at hrun
    exact hnone (c := { c₁ with mark := c.mark }) hrun
  · rw [bind_some (maybe_some hr), hsome] at hrun
    cases hrun

theorem terminal (label : String) (scan : Scanner α) : Stays (terminal label scan) := by
  intro ctx c c' hrun
  rw [Rule.terminal] at hrun
  split at hrun
  · cases hrun
    exact mark_expect _ _ _
  · cases hrun

theorem oneOf (words : List (String × α)) : Stays (oneOf words) := by
  induction words with
  | nil =>
    intro ctx c c' hrun
    cases hrun
    rfl
  | cons entry words ih => exact maybeCases (f := fun span => ⟨entry.2, span⟩) (fun _ => rfl) ih

theorem operatorWhere (label : String) (allowed : String → Bool) :
    Stays (operatorWhere label allowed) := by
  refine maybeCases (f := id) (fun _ => rfl) fun ctx c c' hrun => ?_
  cases hrun
  exact mark_expect _ _ _

end Stays

theorem Token.stays {α : Type} {rule : Rule α} (h : Token rule) : Stays rule := by
  cases h with
  | terminal label scan => exact .terminal label scan
  | keyword word => exact (Stays.terminal _ _).map
  | keywords words =>
    intro ctx c c' hrun
    rw [Rule.keywords, attempt] at hrun
    split at hrun
    · cases hrun
    · cases hrun
      rfl
  | oneOf words => exact .oneOf words
  | punct mark => exact (Stays.terminal _ _).map
  | operatorWhere label allowed => exact .operatorWhere label allowed
  | symbol op => exact (Stays.operatorWhere _ _).map

/-! ## Texts that rules read -/

/-- A token stands where its span says. -/
theorem between_of_terminal {α : Type} {label : String} {scan : Scanner α} {token : Spanned α}
    {ctx : Context} (hscan : scan.Splits) (hc : c.mark.In text)
    (hrun : Rule.terminal label scan ctx c = (some token, c')) :
    ∃ x, scan c.mark.skipTrivia.rest = some x ∧
      Between text.toList token.span.start token.span.stop x.text := by
  rw [Rule.terminal] at hrun
  split at hrun
  · cases hrun
  · next x hx =>
    cases hrun
    exact ⟨x, hx, x.rest, hscan _ x hx ▸ hc.skipTrivia, hc.skipTrivia.scan (hscan _ x hx), rfl⟩

section

variable {α : Type} [Likeness α] {rule : Rule α} [hrule : Stable 0 rule] {ctx : Context}

theorem between_of_run {a : α} (hc : c.mark.In text) (hrun : rule ctx c = (some a, c')) :
    c'.mark.In text ∧ ∃ read, Between text.toList c.position c'.position read := by
  obtain ⟨notes, hnotes⟩ := hrule.notes ctx c
  have hc' := hnotes.isIn hc
  rw [hrun] at hc'
  exact ⟨hc', exists_between (position_le hc hc' (hrule.reads hrun).1) hc hc'⟩

/-- The text that is kept of what a rule reads stands there. -/
theorem between_of_textOf {words : String} (hc : c.mark.In text)
    (hrun : textOf rule ctx c = (some words, c')) :
    Between text.toList c.mark.skipTrivia.offset c'.position words.toList := by
  rw [textOf] at hrun
  split at hrun
  · cases hrun
  · next hr =>
    cases hrun
    obtain ⟨hc', read, rest, hread, hrest, hsize⟩ := between_of_run hc.skipTrivia hr
    have hstart := Option.some.inj (hread.symm.trans hc.skipTrivia)
    have hstop := Option.some.inj (hrest.symm.trans hc')
    rw [String.toList_ofList, ← hstart, ← hstop, length_append, Nat.add_sub_cancel, take_left]
    exact ⟨rest, hread, hrest, hsize⟩

end

/-! ## Counters -/

/-- The number of constructs around the current one, where the run was at `depth` before the note. It
is at most `maxDepth`, and one can leave only what was entered. -/
def depthAfter : (depth : Nat) → Note → Option Nat
  | depth, .expected _ _ => some depth
  | depth, .entered => if depth < maxDepth then some (depth + 1) else none
  | 0, .left => none
  | depth + 1, .left => some depth

/-- A run leaves all that it enters. -/
theorem foldlM_depthAfter {α : Type} {rule : Rule α} {ctx : Context} (h : rule.Notes ctx c notes) :
    notes.foldlM depthAfter ctx.depth = some ctx.depth := by
  induction h with
  | look | begin | fail | read | miss | blocked => rfl
  | stop _ _ ih | maybe _ ih | peek _ ih | textOf _ ih | fueled _ ih => exact ih
  | next _ _ _ ih ih' =>
    rw [foldlM_append, ih]
    exact ih'
  | nested _ hroom _ ih =>
    rw [cons_append, foldlM_cons, depthAfter, if_pos hroom]
    show foldlM _ _ _ = _
    rw [foldlM_append, ih]
    rfl

/-- The end of a block comment, where `opened` of them are open. There is none if one that is not
open would be closed. -/
def closeFrom? : (opened offset : Nat) → (rest : List Char) → Option Mark
  | _, n, [] => some ⟨[], n⟩
  | opened, n, '/' :: '*' :: rest => closeFrom? (opened + 1) (n + 2) rest
  | 0, _, '*' :: '/' :: _ => none
  | opened + 1, n, '*' :: '/' :: rest =>
    if opened = 0 then some ⟨rest, n + 2⟩ else closeFrom? opened (n + 2) rest
  | opened, n, c :: rest => closeFrom? opened (n + c.utf8Size) rest

/-- In a block comment, what is open can be closed. -/
theorem exists_closeFrom? (outer n : Nat) (rest : List Char) :
    ∃ m, closeFrom? (outer + 1) n rest = some m ∧
      Mark.skipFrom (.blockComment outer) n rest = m.skipTrivia := by
  generalize hopened : outer + 1 = opened
  fun_induction closeFrom? opened n rest generalizing outer with
  | case1 opened n => exact ⟨_, rfl, by simp [Mark.skipFrom, Mark.skipTrivia]⟩
  | case2 opened n rest ih =>
    rw [Mark.skipFrom]
    exact ih _ (by rw [hopened])
  | case3 => cases hopened
  | case4 =>
    obtain rfl : outer = 0 := by omega
    exact ⟨_, rfl, by rw [Mark.skipFrom, Mark.skipTrivia]⟩
  | case5 opened n rest hlast ih =>
    obtain ⟨inner, rfl⟩ := Nat.exists_eq_succ_of_ne_zero (n := outer) (by omega)
    rw [Mark.skipFrom]
    exact ih _ (by omega)
  | case6 opened n c rest hopen hzero hclose ih =>
    rw [Mark.skipFrom]
    · exact ih _ hopened
    · exact hopen
    · exact fun _ _ => hclose outer _ hopened.symm
    · exact fun _ _ _ => hclose outer _ hopened.symm

/-- Wherever cursors of a text are led, they are at places in the text, and so are the furthest place
at which something was expected and the place where nesting went too deep. Of the log of all runs the
cursor remembers what was expected at the last place in it. Terminals that fail stay where they are,
and runs do not take back what was expected; only the look-ahead for a query leaves nothing behind.
Each rule has runs with a log. The slices are those of tokens, of what a rule reads and of the text
that is kept of it; each is a part of the text. The counters are the number of constructs around the
current one and the number of open comments; neither is taken below zero. -/
theorem invariant_of_reached (h : Reached text notes c) :
    (Text.Boundary text.toList c.position ∧ Text.Boundary text.toList c.furthest ∧
      ∀ offset ∈ c.tooDeep, Text.Boundary text.toList offset) ∧
    ((∀ entry ∈ expectations notes, entry.1 ≤ c.furthest) ∧
      (c.furthest = 0 ∨ c.furthest ∈ (expectations notes).map Prod.fst) ∧
      c.expected = labelsAt (expectations notes) c.furthest ∧ c.expected.Nodup) ∧
    (∀ {α : Type} (rule : Rule α), Token rule → ∀ (ctx : Context) (c' : Cursor),
      rule ctx c = (none, c') → c'.position = c.position) ∧
    (∀ {α : Type} (rule : Rule α) (ctx : Context) (more : List Note), rule.Notes ctx c more →
      c.furthest ≤ (rule ctx c).2.furthest ∧ more.foldlM depthAfter ctx.depth = some ctx.depth) ∧
    (∀ ctx : Context, (startsQuery ctx c).2 = c) ∧
    (∀ {α : Type} [Likeness α] (rule : Rule α) [Stable 0 rule] (ctx : Context),
      (∃ more, rule.Notes ctx c more) ∧
      (∀ a c', rule ctx c = (some a, c') → ∃ read, Between text.toList c.position c'.position read) ∧
      ∀ words c', textOf rule ctx c = (some words, c') →
        Between text.toList c.mark.skipTrivia.offset c'.position words.toList) ∧
    (∀ {α : Type} (label : String) (scan : Scanner α), scan.Splits → ∀ (ctx : Context) token c',
      terminal label scan ctx c = (some token, c') → ∃ x, scan c.mark.skipTrivia.rest = some x ∧
        Between text.toList token.span.start token.span.stop x.text) ∧
    (∀ n rest, ∃ m, closeFrom? 0 n ('/' :: '*' :: rest) = some m ∧
      Mark.skipFrom .between n ('/' :: '*' :: rest) = m.skipTrivia) ∧
    ∀ (tolerant : Bool) (e : SyntaxError), parseWith tolerant text = .error e →
      Text.Boundary text.toList e.position := by
  have hknows := h.knows
  refine ⟨⟨boundary_of_isIn hknows.isIn, hknows.boundary_furthest, hknows.tooDeep⟩,
    ⟨fun entry hentry => (hknows.logged entry hentry).2, hknows.furthest, hknows.expected,
      hknows.expected ▸ Repetition.nodup_eraseDups _⟩, ?_, ?_, fun _ => rfl, ?_, ?_, ?_,
    fun _ _ => boundary_of_parseWith⟩
  · exact fun rule hrule ctx c' hrun => congrArg Mark.offset (hrule.stays hrun)
  · exact fun rule ctx more hmore => ⟨hknows.furthest_le (hknows.run hmore), foldlM_depthAfter hmore⟩
  · exact fun rule hrule ctx => ⟨hrule.notes ctx c,
      fun _ _ hrun => (between_of_run hknows.isIn hrun).2, fun _ _ => between_of_textOf hknows.isIn⟩
  · exact fun label scan hscan ctx token c' => between_of_terminal hscan hknows.isIn
  · exact fun n rest => exists_closeFrom? 0 (n + 2) rest

theorem invariant_after_select :
    let c := (keyword "SELECT" ⟨false, 0⟩ (ofText "SELECT é")).2
    let c' := (keyword "FROM" ⟨false, 0⟩ c).2
    c'.position = 6 ∧ c'.furthest = 7 ∧ c'.expected = labelsAt [(7, "FROM")] 7 ∧
      Text.Boundary "SELECT é".toList c'.furthest := by
  have hselect : (keyword "SELECT").Notes ⟨false, 0⟩ (ofText "SELECT é") [] :=
    .next (.read (Lexeme.splits_keyword _) rfl) rfl .look
  have hfrom : (keyword "FROM").Notes ⟨false, 0⟩ (keyword "SELECT" ⟨false, 0⟩ (ofText "SELECT é")).2
      [.expected 7 "FROM"] := .stop (.miss rfl) rfl
  have hinvariant := invariant_of_reached (.run (.run .new hselect) hfrom)
  exact ⟨by decide, by decide, hinvariant.2.1.2.2.1, hinvariant.1.2.1⟩

end Cursor

end SqlTyping
