import SqlTyping.Proofs.Layout.Survey
import SqlTyping.Proofs.Syntax.Agreement
import SqlTyping.Proofs.Syntax.ParamRef

/-!
# Where rules lay out what they read

`Lays` says that what a rule reads fits between where the rule starts and where it leads, and that
its parameters stand in the text where they say; there is one lemma for each combinator and each
terminal. `Reads` follows a rule part by part.
-/

namespace SqlTyping.Survey

open List
open Rule (Nonblank)

variable {α β : Type} {S : Survey} {b k d : Nat} {rule : Rule α} {next : α → Rule β} {m : S.Spot}
  {P : β → S.Spot → Prop} {scan : Scanner α} {item : Rule (Option α)} {a : α}

/-- From every spot past `b` the rule reads at least `k` characters, and `Q` holds of what it reads,
of where it starts and of where it leads. -/
def Lays (S : Survey) (b k : Nat) (rule : Rule α) (Q : α → Nat → S.Spot → Prop) : Prop :=
  ∀ d (m : S.Spot), b ≤ m.index → S.Ensures rule d m fun a m' => m.To k m' ∧ Q a m.index m'

/-- Each parameter is the one that is read where its span starts. -/
def Stands (S : Survey) (refs : List ParamRef) : Prop :=
  ∀ ref ∈ refs, ref.StandsIn S.text S.tolerant

@[simp] theorem stands_nil : S.Stands [] := nofun

@[simp] theorem stands_append {refs more : List ParamRef} :
    S.Stands (refs ++ more) ↔ S.Stands refs ∧ S.Stands more := forall_mem_append

@[simp] theorem stands_singleton {ref : ParamRef} :
    S.Stands [ref] ↔ ref.StandsIn S.text S.tolerant := forall_mem_singleton

@[simp] theorem stands_flatMap {refs : α → List ParamRef} {list : List α} :
    S.Stands (list.flatMap refs) ↔ ∀ a ∈ list, S.Stands (refs a) := by
  simp only [Stands, mem_flatMap]
  exact ⟨fun h a ha ref href => h ref ⟨a, ha, href⟩, fun h ref ⟨a, ha, href⟩ => h a ha ref href⟩

/-- What is read fits where it was read, and its parameters stand in the text. -/
abbrev laid (S : Survey) (of : α → Layout) (refs : α → List ParamRef := fun _ => []) :
    α → Nat → S.Spot → Prop :=
  fun a i m => (of a).Fits S m.deep i m.index ∧ S.Stands (refs a)

/-- A lexeme that ends where the rule leads. -/
def token (S : Survey) (scan : Scanner α) (a : Spanned α) (i : Nat) (m : S.Spot) : Prop :=
  (∃ j, i ≤ j ∧ j < m.index ∧ a.span = S.span j m.index) ∧
    ∃ cs x, scan cs = some x ∧ x.value = a.value

theorem token.leaf {a : Spanned α} {i : Nat} (h : S.token scan a i m) :
    (Layout.leaf a.span).Fits S m.deep i m.index := by
  obtain ⟨⟨j, hij, hj, hspan⟩, -⟩ := h
  rw [hspan]
  exact .leaf (by omega)

/-- If the answer is yes, something has been read. -/
abbrev moved (S : Survey) (k : Nat) (yes : Bool) (i : Nat) (m : S.Spot) : Prop :=
  yes = true → i + k ≤ m.index

/-- What is read has no place in a tree. -/
abbrev any (S : Survey) : α → Nat → S.Spot → Prop := S.laid fun _ => .empty

namespace Lays

variable {Q Q' : α → Nat → S.Spot → Prop} {of : α → Layout} {refs : α → List ParamRef}

theorem mono {b' k' : Nat} (h : S.Lays b k rule Q) (hb : b ≤ b' ∧ k' ≤ k)
    (hq : ∀ a i m', Q a i m' → Q' a i m') : S.Lays b' k' rule Q' := by
  intro d m hm
  refine (h d m (by omega)).mono fun a m' hread => ?_
  exact ⟨by omega, hq _ _ _ hread.2⟩

theorem past {b' : Nat} (h : S.Lays b k rule Q) (hb : b ≤ b') : S.Lays b' k rule Q :=
  h.mono ⟨hb, Nat.le_refl _⟩ fun _ _ _ hread => hread

theorem bind (h : S.Lays b k rule Q) (hm : b ≤ m.index)
    (hn : ∀ a m', m.To k m' → Q a m.index m' → S.Ensures (next a) d m' P) :
    S.Ensures (rule >>= next) d m P :=
  (h d m hm).bind fun a m' hread => hn a m' hread.1 hread.2

theorem maybeCases {next : Option α → Rule β} (h : S.Lays b k rule Q) (hm : b ≤ m.index)
    (hsome : ∀ a m', m.To k m' → Q a m.index m' → S.Ensures (next (some a)) d m' P)
    (hnone : ∀ m', m.To 0 m' → S.Ensures (next none) d m' P) :
    S.Ensures (Rule.maybe rule >>= next) d m P :=
  (h d m hm).maybeCases (fun a m' hread => hsome a m' hread.1 hread.2)
    fun m' hindex hdeep => hnone m' (by omega)

theorem foundCases {yes no : Rule β} (h : S.Lays b k rule Q) (hm : b ≤ m.index)
    (hy : ∀ m', m.To k m' → S.Ensures yes d m' P) (hn : ∀ m', m.To 0 m' → S.Ensures no d m' P) :
    S.Ensures (Rule.found rule >>= fun test => if test = true then yes else no) d m P := by
  rw [Rule.found_bind]
  exact h.maybeCases hm (fun _ m' hto _ => hy m' hto) hn

theorem pure (h : ∀ m : S.Spot, Q a m.index m) : S.Lays b 0 (pure a) Q :=
  fun _ m _ => .pure ⟨by omega, h m⟩

theorem attempt (h : S.Lays b k rule Q) : S.Lays b k (Rule.attempt rule) Q :=
  fun d m hm => (h d m hm).attempt

theorem nested (h : S.Lays b k rule Q) : S.Lays b k (Rule.nested rule) Q :=
  fun d m hm => (h (d + 1) m hm).nested

theorem firstOf {rules : List (Rule α)} (h : ∀ rule ∈ rules, S.Lays b k rule Q) :
    S.Lays b k (Rule.firstOf rules) Q := by
  intro d m hm
  refine Ensures.firstOf fun rule hmem m' hindex hdeep => ?_
  refine (h rule hmem d m' (by omega)).mono fun a m₁ hread => ?_
  rw [hindex] at hread
  exact ⟨by omega, hread.2⟩

theorem maybe (h : S.Lays b k rule (S.laid of refs)) :
    S.Lays b 0 (Rule.maybe rule) (S.laid (.opt of) (·.toList.flatMap refs)) := by
  intro d m hm
  refine (h d m hm).maybe.mono fun result m' htried => ?_
  cases result with
  | none =>
    obtain ⟨hindex, hdeep⟩ := htried
    exact ⟨by omega, .empty, stands_nil⟩
  | some a =>
    obtain ⟨hto, hfits, hrefs⟩ := htried
    exact ⟨by omega, hfits, by simpa using hrefs⟩

theorem found (h : S.Lays b k rule Q) : S.Lays b 0 (Rule.found rule) (S.moved k) :=
  fun _ _ hm => h.maybeCases hm (fun _ _ hto _ => .pure ⟨by omega, fun _ => hto.1⟩)
    fun _ _ => .pure ⟨by omega, nofun⟩

theorem maybeD {fallback : α} (h : S.Lays b k rule (S.laid of refs))
    (hof : of fallback = .empty) (hrefs : refs fallback = []) :
    S.Lays b 0 (Rule.maybeD fallback rule) (S.laid of refs) := by
  intro d m hm
  refine h.maybeCases hm (fun a m' hto hread => .pure ⟨by omega, hread⟩) fun m' hto =>
    .pure ⟨by omega, ?_⟩
  show (of fallback).Fits S m'.deep m.index m'.index ∧ S.Stands (refs fallback)
  rw [hof, hrefs]
  exact ⟨.empty, stands_nil⟩

/-- What holds of a part holds of the part in the whole. -/
def Widens (Q : α → Nat → S.Spot → Prop) : Prop :=
  ∀ ⦃a i m i' m'⦄, i' ≤ i → m.To 0 m' → Q a i m → Q a i' m'

theorem manyOf (hq : Widens Q)
    (h : S.Lays b 0 item fun result i m => ∀ a, result = some a → Q a i m) :
    S.Lays b 0 (Rule.many item) fun list i m => ∀ a ∈ list, Q a i m := by
  have hwithin : ∀ fuel : List Char,
      S.Lays b 0 (Rule.manyWithin item fuel) fun list i m => ∀ a ∈ list, Q a i m := by
    intro fuel
    induction fuel with
    | nil =>
      intro d m hm
      refine h.bind hm fun result m' hto hread => .pure ⟨hto, fun a ha => ?_⟩
      exact hread a (Option.mem_toList.1 ha)
    | cons _ fuel ih =>
      intro d m hm
      refine h.bind hm fun result m' hto hread => ?_
      cases result with
      | none => exact .pure ⟨hto, nofun⟩
      | some a =>
        refine ih.bind (by omega) fun rest m'' hto' hrest =>
          .pure ⟨by omega, forall_mem_cons.2 ⟨?_, ?_⟩⟩
        · exact hq (Nat.le_refl _) hto' (hread a rfl)
        · exact fun a ha => hq hto.1 (by omega) (hrest a ha)
  exact fun d m hm c result c' hc hrun => hwithin c.mark.rest d m hm hc hrun

theorem starOf (hq : Widens Q) (h : S.Lays b k rule Q) :
    S.Lays b 0 (Rule.star rule) fun list i m => ∀ a ∈ list, Q a i m := by
  refine manyOf hq fun d m hm => (h d m hm).maybe.mono fun result m' htried => ?_
  cases result with
  | none =>
    obtain ⟨hindex, hdeep⟩ := htried
    exact ⟨by omega, no_result⟩
  | some a =>
    obtain ⟨hto, hread⟩ := htried
    exact ⟨by omega, fun _ ha => Option.some.inj ha ▸ hread⟩

theorem widens_laid : Widens (S.laid of refs) :=
  fun _ _ _ _ _ hi hto hread => ⟨hread.1.mono (by omega), hread.2⟩

theorem many (h : S.Lays b 0 item (S.laid (.opt of) (·.toList.flatMap refs))) :
    S.Lays b 0 (Rule.many item) (S.laid (.all of) (·.flatMap refs)) := by
  refine (manyOf (b := b) (Q := S.laid of refs) widens_laid ?_).mono (by omega)
    fun list i m hlist => ⟨Layout.Fits.all.2 fun a ha => (hlist a ha).1,
      stands_flatMap.2 fun a ha => (hlist a ha).2⟩
  refine h.mono (by omega) fun result i m hread a ha => ?_
  subst ha
  exact ⟨hread.1, by simpa using hread.2⟩

theorem star (h : S.Lays b k rule (S.laid of refs)) :
    S.Lays b 0 (Rule.star rule) (S.laid (.all of) (·.flatMap refs)) := h.maybe.many

theorem plus (h : S.Lays b k rule (S.laid of refs)) :
    S.Lays b k (Rule.plus rule) (S.laid (.all of) (·.flatMap refs)) :=
  fun _ _ hm => h.attempt.bind hm fun _ _ hto hfirst => h.star.bind (by omega) fun _ _ hto' hrest =>
    .pure ⟨by omega, .both (hfirst.1.mono (by omega)) (hrest.1.mono (by omega)),
      stands_append.2 ⟨hfirst.2, hrest.2⟩⟩

/-- A rule stays in the text. If what it reads has no place in a tree, no more has to be known. -/
theorem ofStable [Likeness α] [h : Rule.Stable 0 rule]
    (hk : ∀ {ctx c a c'}, rule ctx c = (some a, c') →
      c'.mark.rest.length + k ≤ c.mark.rest.length) : S.Lays 0 k rule S.any := by
  intro d m _ c result c' hc hrun
  obtain ⟨log, hlog⟩ := h.notes ⟨S.tolerant, d⟩ c
  have hin := hlog.isIn hc.isIn
  have hclear : (rule ⟨S.tolerant, d⟩ c).2.tooDeep = none → c.tooDeep = none := h.clear
  rw [hrun] at hin hclear
  obtain ⟨m', hm'⟩ : ∃ m' : S.Spot, c'.At m' := Cursor.exists_at hin
  have hdeep : m.deep ≤ c'.deep := by
    rw [← hc.deep, Cursor.deep, Cursor.deep]
    cases hd : c'.tooDeep with
    | none => simp [hclear hd]
    | some _ => split <;> simp
  refine ⟨hdeep, fun a ha => ⟨m', hm', ⟨?_, hm'.deep ▸ hdeep⟩, .empty, stands_nil⟩⟩
  have hle := hk (ha ▸ hrun)
  have hlen := hc.length
  have hlen' := hm'.length
  omega

theorem stable [Likeness α] [h : Rule.Stable 0 rule] : S.Lays 0 0 rule S.any :=
  ofStable fun hrun => (h.reads hrun).1

theorem consumes [Likeness α] [Rule.Stable 0 rule] [h : rule.Consumes] : S.Lays 0 1 rule S.any :=
  ofStable h.shorter

/-! ## Terminals -/

/-- Where a lexeme starts and stops, and what it is. -/
theorem ensures_terminal (label : String) (hs : scan.Splits) :
    S.Ensures (Rule.terminal label scan) d m fun token m' => ∃ i x,
      m.index ≤ i ∧ i + x.text.length = m'.index ∧ (S.mark m.index).skipTrivia = S.mark i ∧
        scan (S.mark i).rest = some x ∧ S.mark m'.index = ⟨x.rest, S.offset i + x.size⟩ ∧
        token.span = S.span i m'.index ∧ token.value = x.value ∧ m'.deep = m.deep := by
  intro c result c' hc hrun
  obtain ⟨m₁, hto, hm₁⟩ := hc.skipTrivia
  have hmark : c.mark.skipTrivia = S.mark m₁.index := hm₁.mark
  rw [Rule.terminal] at hrun
  cases hx : scan c.mark.skipTrivia.rest with
  | none =>
    rw [hx] at hrun
    cases hrun
    refine ⟨?_, no_result⟩
    rw [Cursor.deep_expect, hc.deep]
  | some x =>
    rw [hx] at hrun
    cases hrun
    have hsplit := hs _ x hx
    obtain ⟨m₂, hm₂⟩ := Cursor.exists_at (S := S)
      (c := { c with mark := ⟨x.rest, c.mark.skipTrivia.offset + x.size⟩ })
      (Mark.In.scan hc.isIn.skipTrivia hsplit)
    have hlen₁ : m₁.index + c.mark.skipTrivia.rest.length = S.text.length := hm₁.length
    have hlen₂ : m₂.index + x.rest.length = S.text.length := hm₂.length
    rw [hsplit, length_append] at hlen₁
    refine ⟨Nat.le_of_eq hc.deep.symm, fun a ha => ?_⟩
    cases ha
    refine ⟨m₂, hm₂, m₁.index, x, hto.1, by omega, hc.mark ▸ hmark, hmark ▸ hx, ?_, ?_, rfl,
      hm₂.deep.symm.trans hc.deep⟩
    · rw [← hm₂.mark]
      dsimp only
      rw [hmark, Survey.mark]
    · have hstop : c.mark.skipTrivia.offset + x.size = S.offset m₂.index :=
        congrArg Mark.offset hm₂.mark
      rw [hstop, hmark, Survey.mark, Survey.span]

theorem terminal (label : String) (hs : scan.Splits) (hp : scan.Proper) :
    S.Lays 0 1 (Rule.terminal label scan) (S.token scan) := by
  intro d m hm
  refine (ensures_terminal label hs).mono fun token m' hread => ?_
  obtain ⟨i, x, hi, hlen, -, hx, -, hspan, hvalue, hdeep⟩ := hread
  have hpos := length_pos_iff.2 (hp _ x hx)
  exact ⟨by omega, ⟨i, by omega, by omega, hspan⟩, _, x, hx, hvalue.symm⟩

theorem keyword (word : String) [hword : Nonblank word] :
    S.Lays 0 1 (Rule.keyword word) (S.laid .leaf) :=
  fun _ _ hm => (terminal word (Lexeme.splits_keyword word)
    (Lexeme.proper_keyword hword.ne)).bind hm fun _ _ hto htoken =>
      .pure ⟨hto, htoken.leaf, stands_nil⟩

theorem keywords (words : List String) [Rule.Stable 0 (Rule.allOf words)]
    [(Rule.allOf words).Consumes] : S.Lays 0 1 (Rule.keywords words) (S.laid .leaf) := by
  refine Lays.attempt fun d m hm => Ensures.begin fun m₀ hto₀ => ?_
  refine Lays.consumes.bind (Nat.zero_le _) fun _ m₁ hto₁ _ => ?_
  change S.Ensures (Rule.spanFrom (S.offset m₀.index) >>= Pure.pure) d m₁ _
  exact .spanFrom (by omega) (.pure ⟨by omega, .leaf (by omega), stands_nil⟩)

theorem oneOf {words : List (String × α)} (hwords : ∀ entry ∈ words, entry.1 ≠ "") :
    S.Lays 0 1 (Rule.oneOf words) (S.laid fun token => .leaf token.span) := by
  induction words with
  | nil => exact fun _ _ _ => .reject
  | cons entry words ih =>
    obtain ⟨word, a⟩ := entry
    intro d m hm
    have hblank : Nonblank word := ⟨hwords _ (.head _)⟩
    refine (keyword word).maybeCases hm
      (fun span m' hto hleaf => .pure ⟨hto, hleaf⟩) fun m' hto => ?_
    refine (ih (fun entry hm => hwords entry (.tail _ hm)) d m' (by omega)).mono
      fun a m₁ hread => ?_
    exact ⟨by omega, hread.2.1.mono (by omega), stands_nil⟩

theorem anyOf (words : List String) (hwords : ∀ word ∈ words, word ≠ "" ) :
    S.Lays 0 1 (Rule.anyOf words) (S.laid fun token => .leaf token.span) := by
  refine oneOf fun entry hm => ?_
  obtain ⟨word, hw, rfl⟩ := mem_map.1 hm
  exact hwords word hw

theorem punct (mark : String) [hmark : Nonblank mark] :
    S.Lays 0 1 (Rule.punct mark) (S.laid .leaf) :=
  fun _ _ hm => (terminal mark (Lexeme.splits_punctuation mark)
    (Lexeme.proper_punctuation hmark.ne)).bind hm fun _ _ hto htoken =>
      .pure ⟨hto, htoken.leaf, stands_nil⟩

theorem operatorWhere (label : String) (allowed : String → Bool) :
    S.Lays 0 1 (Rule.operatorWhere label allowed) fun token i m =>
      S.token Lexeme.operator token i m ∧ allowed token.value = true := by
  have htoken : S.Lays 0 1 (do
      let op ← Rule.terminal "operator" Lexeme.operator
      if allowed op.value then return op else Rule.reject) fun token i m =>
        S.token Lexeme.operator token i m ∧ allowed token.value = true :=
    fun _ _ hm => (terminal "operator" Lexeme.splits_operator Lexeme.proper_operator).bind hm
      fun _ _ hto htoken => .cond (fun hallowed => .pure ⟨hto, htoken, hallowed⟩) fun _ => .reject
  exact fun _ _ hm => htoken.maybeCases hm (fun _ _ hto hread => .pure ⟨hto, hread⟩)
    fun _ _ => .fail label

theorem identifier : S.Lays 0 1 Rule.identifier (S.token (Lexeme.identifier false)) :=
  terminal _ (Lexeme.splits_identifier _) (Lexeme.proper_identifier _)

theorem label : S.Lays 0 1 Rule.label (S.token (Lexeme.identifier true)) :=
  terminal _ (Lexeme.splits_identifier _) (Lexeme.proper_identifier _)

theorem param : S.Lays 0 1 Rule.param (S.token Lexeme.param) :=
  terminal _ Lexeme.splits_param Lexeme.proper_param

/-- A separator and the item after it. -/
theorem nextItem (separator : String) [Nonblank separator] (h : S.Lays b k rule (S.laid of refs)) :
    S.Lays b 1 (do
      let _ ← Rule.punct separator
      match ← Rule.maybe rule with
      | some a => return some a
      | none => if ← Rule.isTolerant then return none else Rule.reject)
      (S.laid (.opt of) (·.toList.flatMap refs)) := by
  intro d m hm
  refine (punct separator).bind (by omega) fun _ m₁ hto₁ _ => ?_
  refine h.maybeCases (by omega) (fun a m₂ hto₂ hread => .pure
    ⟨by omega, hread.1.mono (by omega), by simpa using hread.2⟩) fun m₂ hto₂ => ?_
  exact .isTolerant (.cond (fun _ => .pure ⟨by omega, .empty, stands_nil⟩) fun _ => .reject)

theorem separated (separator : String) [Nonblank separator] (h : S.Lays b k rule (S.laid of refs)) :
    S.Lays b k (Rule.separated separator rule) (S.laid (.all of) (·.flatMap refs)) := by
  intro d m hm
  refine h.attempt.bind hm fun first m₁ hto₁ hfirst => ?_
  refine Lays.bind (Lays.many fun d m hm => (nextItem separator h).maybeCases hm
    (fun _ m₂ hto₂ hread => .pure ⟨by omega, hread⟩)
    fun m₂ hto₂ => .pure ⟨by omega, .empty, stands_nil⟩)
    (by omega) fun rest m₂ hto₂ hrest => ?_
  exact .pure ⟨by omega, .both (hfirst.1.mono (by omega)) (hrest.1.mono (by omega)),
    stands_append.2 ⟨hfirst.2, hrest.2⟩⟩

theorem parens (h : S.Lays (b + 1) k rule (S.laid of refs)) :
    S.Lays b 1 (Rule.parens rule) (S.laid of refs) := by
  intro d m hm
  refine (punct "(").bind (by omega) fun _ m₁ hto₁ _ => ?_
  refine h.bind (by omega) fun a m₂ hto₂ hread => ?_
  refine (punct ")").bind (by omega) fun _ m₃ hto₃ _ => ?_
  exact .pure ⟨by omega, hread.1.mono (by omega), hread.2⟩

end Lays

/-! ## Parts one after the other -/

@[simp] theorem fits_empty {deep lo hi : Nat} : Layout.empty.Fits S deep lo hi := .empty

@[simp] theorem fits_both {deep lo hi : Nat} {first second : Layout} :
    (first.both second).Fits S deep lo hi ↔
      first.Fits S deep lo hi ∧ second.Fits S deep lo hi := by
  constructor
  · intro h
    cases h with
    | both left right => exact ⟨left, right⟩
  · exact fun h => .both h.1 h.2

section

variable {deep lo hi : Nat} {of : α → Layout}

@[simp] theorem fits_all_nil : (Layout.all of []).Fits S deep lo hi := .empty

@[simp] theorem fits_all_cons {a : α} {rest : List α} : (Layout.all of (a :: rest)).Fits S deep lo hi
    ↔ (of a).Fits S deep lo hi ∧ (Layout.all of rest).Fits S deep lo hi := fits_both

@[simp] theorem fits_all_append {first second : List α} :
    (Layout.all of (first ++ second)).Fits S deep lo hi ↔
      (Layout.all of first).Fits S deep lo hi ∧ (Layout.all of second).Fits S deep lo hi := by
  simp only [Layout.Fits.all, forall_mem_append]

@[simp] theorem fits_all_toList {a : Option α} :
    (Layout.all of a.toList).Fits S deep lo hi ↔ (Layout.opt of a).Fits S deep lo hi := by
  cases a with
  | none => rfl
  | some a => exact fits_all_cons.trans (and_iff_left .empty)

end

/-- At least `j` characters after `b` comes `b'`. -/
class Past (b' b j : Nat) : Prop where
  le : b' ≤ b + j

instance {b j : Nat} : Past 0 b j := ⟨Nat.zero_le _⟩

instance {b j : Nat} : Past b b j := ⟨Nat.le_add_right b j⟩

instance {b j : Nat} : Past (b + 1) b (j + 1) := ⟨by omega⟩

/-- From a spot past `b` on, whose offset is `start`, at least `j` characters have been read, `s`
fits there, and the parameters `refs` stand in the text. The rule reads on, at least `k` characters
in all, and `Q` holds of the whole. -/
def Reads (S : Survey) (b j start : Nat) (s : Layout) (refs : List ParamRef) (rule : Rule α)
    (k : Nat) (Q : α → Nat → S.Spot → Prop) : Prop :=
  ∀ d (m₀ m : S.Spot), b ≤ m₀.index → start = S.offset m₀.index → m₀.To j m →
    s.Fits S m.deep m₀.index m.index → S.Stands refs →
    S.Ensures rule d m fun a m' => m₀.To k m' ∧ Q a m₀.index m'

section

variable {b' i j start : Nat} {s t : Layout} {refs more : List ParamRef} {of : α → Layout}
  {ps : α → List ParamRef} {Q : α → Nat → S.Spot → Prop} {P : β → Nat → S.Spot → Prop}

/-- What has been read is all that there is to a node. -/
def Makes (S : Survey) (s : Layout) (refs : List ParamRef) (t : Layout) (more : List ParamRef) :
    Prop :=
  ∀ deep lo hi, s.Fits S deep lo hi → S.Stands refs → t.Fits S deep lo hi ∧ S.Stands more

@[simp] theorem makes_iff : S.Makes s refs t more ↔ ∀ deep lo hi, s.Fits S deep lo hi →
    S.Stands refs → t.Fits S deep lo hi ∧ S.Stands more := Iff.rfl

namespace Reads

/-- All parts have been read. -/
theorem done [hk : Past k 0 j] (h : S.Makes s refs (of a) (ps a)) :
    S.Reads b j start s refs (Pure.pure a) k (S.laid of ps) := by
  have hle := hk.le
  exact fun _ _ _ _ _ hto hs hrefs => .pure ⟨by omega, h _ _ _ hs hrefs⟩

/-- What has been read is no node. -/
theorem nil [Past k 0 j] (hof : of a = .empty) (hps : ps a = []) :
    S.Reads b j start s refs (Pure.pure a) k (S.laid of ps) := by
  refine done fun _ _ _ _ _ => ?_
  rw [hof, hps]
  exact ⟨.empty, stands_nil⟩

/-- All parts of a node have been read, and its span ends here. -/
theorem ended {f : Span → α} [hk : Past k 0 (j + 1)] (h : S.Makes s refs t more)
    (hQ : ∀ {span i} {m : S.Spot}, (Layout.group span t).Fits S m.deep i m.index →
      S.Stands more → Q (f span) i m) :
    S.Reads b (j + 1) start s refs (Rule.spanFrom start >>= fun span => Pure.pure (f span)) k Q := by
  have hle := hk.le
  rintro d m₀ m hm rfl hto hs hrefs
  obtain ⟨hfits, hstands⟩ := h _ _ _ hs hrefs
  exact .spanFrom (by omega) (.pure ⟨by omega, hQ (.group (by omega) hfits) hstands⟩)

theorem spanned {f : Span → α} [Past k 0 (j + 1)]
    (hof : ∀ span, (of (f span), ps (f span)) = (.group span t, more)) (h : S.Makes s refs t more) :
    S.Reads b (j + 1) start s refs (Rule.spanFrom start >>= fun span => Pure.pure (f span)) k
      (S.laid of ps) := by
  refine ended h fun {span _ _} hfits hstands => ?_
  obtain ⟨hgroup, hrefs⟩ := Prod.mk.inj (hof span)
  rw [laid, hgroup, hrefs]
  exact ⟨hfits, hstands⟩

theorem cond {test : Bool} {yes no : Rule α} (hy : S.Reads b j start s refs yes k Q)
    (hn : S.Reads b j start s refs no k Q) :
    S.Reads b j start s refs (if test = true then yes else no) k Q := by
  cases test with
  | false => exact hn
  | true => exact hy

theorem weaken (h : S.Reads b j start t more rule k Q) (hmakes : S.Makes s refs t more) :
    S.Reads b j start s refs rule k Q :=
  fun d m₀ m hm hstart hto hs hrefs =>
    (hmakes _ _ _ hs hrefs).elim (h d m₀ m hm hstart hto)

theorem map {f : α → β} {of' : β → Layout} {ps' : β → List ParamRef}
    (h : S.Reads b j start s refs rule k (S.laid of ps))
    (hof : ∀ a, (of' (f a), ps' (f a)) = (of a, ps a)) :
    S.Reads b j start s refs (rule >>= fun a => Pure.pure (f a)) k (S.laid of' ps') := by
  intro d m₀ m hm hstart hto hs hrefs
  refine (h d m₀ m hm hstart hto hs hrefs).bind fun a m' hread => .pure ⟨hread.1, ?_⟩
  obtain ⟨hof, hps⟩ := Prod.mk.inj (hof a)
  rw [laid, hof, hps]
  exact hread.2

theorem reject : S.Reads b j start s refs (Rule.reject : Rule α) k Q :=
  fun _ _ _ _ _ _ _ _ => .reject

theorem fail (label : String) : S.Reads b j start s refs (Rule.fail label : Rule α) k Q :=
  fun _ _ _ _ _ _ _ _ => .fail label

end Reads

namespace Lays

theorem forget (h : S.Lays b k rule (S.laid of ps)) : S.Lays b k rule (S.laid of) :=
  h.mono ⟨Nat.le_refl _, Nat.le_refl _⟩ fun _ _ _ hread => ⟨hread.1, stands_nil⟩

theorem reads (h : ∀ start, S.Reads b 0 start .empty [] rule k Q) : S.Lays b k rule Q :=
  fun d m hm => h _ d m m hm rfl (by omega) .empty stands_nil

/-- What is read from the next lexeme on. -/
theorem beginAt {next : Nat → Rule α} (h : ∀ start, S.Reads b 0 start .empty [] (next start) k Q)
    (hQ : ∀ {a i i' m}, i ≤ i' → Q a i' m → Q a i m) : S.Lays b k (Rule.begin >>= next) Q := by
  intro d m hm
  refine Ensures.begin fun m₁ hto => ?_
  refine (h _ d m₁ m₁ (by omega) rfl (by omega) .empty stands_nil).mono fun a m' hread => ?_
  exact ⟨by omega, hQ (by omega) hread.2⟩

theorem begin {next : Nat → Rule α}
    (h : ∀ start, S.Reads b 0 start .empty [] (next start) k (S.laid of ps)) :
    S.Lays b k (Rule.begin >>= next) (S.laid of ps) :=
  beginAt h fun hle hread => hread.imp_left (·.mono (by omega))

/-- A part that is no node. -/
theorem pass [hb : Past b' b j] (h : S.Lays b' i rule Q)
    (hn : ∀ a, S.Reads b (j + i) start s refs (next a) k P) :
    S.Reads b j start s refs (rule >>= next) k P := by
  have hle := hb.le
  intro d m₀ m hm hstart hto hs hrefs
  exact h.bind (by omega) fun a m₁ hto₁ _ =>
    hn a d m₀ m₁ hm hstart (by omega) (hs.mono (by omega)) hrefs

theorem add [hb : Past b' b j] (h : S.Lays b' i rule (S.laid of ps))
    (hn : ∀ a, S.Reads b (j + i) start (s.both (of a)) (refs ++ ps a) (next a) k P) :
    S.Reads b j start s refs (rule >>= next) k P := by
  have hle := hb.le
  intro d m₀ m hm hstart hto hs hrefs
  exact h.bind (by omega) fun a m₁ hto₁ ha => hn a d m₀ m₁ hm hstart (by omega)
    (.both (hs.mono (by omega)) (ha.1.mono (by omega))) (stands_append.2 ⟨hrefs, ha.2⟩)

/-- The only part that is a node, at the end. -/
theorem rest [hb : Past b' b j] [hk : Past k 0 (j + i)] (h : S.Lays b' i rule (S.laid of ps)) :
    S.Reads b j start s refs rule k (S.laid of ps) := by
  have hle := hb.le
  have hle' := hk.le
  intro d m₀ m hm hstart hto hs hrefs
  exact (h d m (by omega)).mono fun a m' hread =>
    ⟨by omega, hread.2.1.mono (by omega), hread.2.2⟩

/-- A part that may be missing. -/
theorem addCases {next : Option α → Rule β} [hb : Past b' b j] (h : S.Lays b' i rule (S.laid of ps))
    (hsome : ∀ a, S.Reads b (j + i) start (s.both (of a)) (refs ++ ps a) (next (some a)) k P)
    (hnone : S.Reads b j start s refs (next none) k P) :
    S.Reads b j start s refs (Rule.maybe rule >>= next) k P := by
  have hle := hb.le
  intro d m₀ m hm hstart hto hs hrefs
  refine h.maybeCases (by omega) (fun a m₁ hto₁ ha => ?_) fun m₁ hto₁ => ?_
  · exact hsome a d m₀ m₁ hm hstart (by omega)
      (.both (hs.mono (by omega)) (ha.1.mono (by omega))) (stands_append.2 ⟨hrefs, ha.2⟩)
  · exact hnone d m₀ m₁ hm hstart (by omega) (hs.mono (by omega)) hrefs

theorem passCases {next : Option α → Rule β} [hb : Past b' b j] (h : S.Lays b' i rule Q)
    (hsome : ∀ a, S.Reads b (j + i) start s refs (next (some a)) k P)
    (hnone : S.Reads b j start s refs (next none) k P) :
    S.Reads b j start s refs (Rule.maybe rule >>= next) k P := by
  have hle := hb.le
  intro d m₀ m hm hstart hto hs hrefs
  refine h.maybeCases (by omega) (fun a m₁ hto₁ _ => ?_) fun m₁ hto₁ => ?_
  · exact hsome a d m₀ m₁ hm hstart (by omega) (hs.mono (by omega)) hrefs
  · exact hnone d m₀ m₁ hm hstart (by omega) (hs.mono (by omega)) hrefs

theorem ifMoved {rule : Rule Bool} {yes no : Rule β} [hb : Past b' b j]
    (h : S.Lays b' 0 rule (S.moved i)) (hy : S.Reads b (j + i) start s refs yes k P)
    (hn : S.Reads b j start s refs no k P) :
    S.Reads b j start s refs (rule >>= fun test => if test = true then yes else no) k P := by
  have hle := hb.le
  intro d m₀ m hm hstart hto hs hrefs
  refine h.bind (by omega) fun test m₁ hto₁ hmoved => .cond (fun htest => ?_) fun _ => ?_
  · have hread := hmoved htest
    exact hy d m₀ m₁ hm hstart (by omega) (hs.mono (by omega)) hrefs
  · exact hn d m₀ m₁ hm hstart (by omega) (hs.mono (by omega)) hrefs

end Lays

namespace Reads

theorem keyword {next : Rule β} (word : String) [Nonblank word]
    (hn : S.Reads b (j + 1) start s refs next k P) :
    S.Reads b j start s refs (Rule.keyword word >>= fun _ => next) k P :=
  (Lays.keyword word).pass fun _ => hn

theorem punct {next : Rule β} (mark : String) [Nonblank mark]
    (hn : S.Reads b (j + 1) start s refs next k P) :
    S.Reads b j start s refs (Rule.punct mark >>= fun _ => next) k P :=
  (Lays.punct mark).pass fun _ => hn

variable [Likeness α] [Rule.Stable 0 rule] {yes no : Rule β}

/-- A part that is no node and may be empty. -/
theorem look (hn : ∀ a, S.Reads b j start s refs (next a) k P) :
    S.Reads b j start s refs (rule >>= next) k P := Lays.stable.pass hn

theorem ifPeeked (hy : S.Reads b j start s refs yes k P) (hn : S.Reads b j start s refs no k P) :
    S.Reads b j start s refs (Rule.peek rule >>= fun test => if test = true then yes else no) k P :=
  look fun _ => .cond hy hn

variable [rule.Consumes]

/-- A part that is no node and is not empty. -/
theorem skip (hn : ∀ a, S.Reads b (j + 1) start s refs (next a) k P) :
    S.Reads b j start s refs (rule >>= next) k P := Lays.consumes.pass hn

theorem ifFound (hy : S.Reads b (j + 1) start s refs yes k P)
    (hn : S.Reads b j start s refs no k P) :
    S.Reads b j start s refs (Rule.found rule >>= fun test => if test = true then yes else no) k
      P := by
  rw [Rule.found_bind]
  exact Lays.consumes.passCases (fun _ => hy) hn

end Reads

end

end SqlTyping.Survey
