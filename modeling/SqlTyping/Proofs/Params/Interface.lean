import SqlTyping.Proofs.Layout.Spans
import SqlTyping.Proofs.Params.Balance
import SqlTyping.Proofs.Params.Extraction

/-!
# Parameters of a statement and of its interface

The interface of a parsed statement lists parameters of the statement only, each place in the text
once and under the name that stands there (`Statement.listed_parsed`). Which of them it lists is
what the outline of the statement keeps. That is all of them, unless a recursive query goes by a
name that stands for another query already, or a clause is not read.
-/

namespace SqlTyping

open List

variable {o : Outline} {m : Mention} {H : Param TypeExpr → Prop} {st : Statement} {text : String}
  {tolerant : Bool}

/-! ## What an outline keeps -/

namespace Outline

/-- The occurrences of parameters at the end of an outline. -/
def kept (o : Outline) : Finset Mention := (o.run (.fresh fun _ => none)).finish

theorem exists_ref_of_mem_kept (h : m ∈ o.kept) : ∃ ref ∈ o.refs, ref.mention = m := by
  have hall : ∀ ref ∈ o.refs, ref.mention ∈ (o.refs.map ParamRef.mention).toFinset :=
    fun ref href => mem_toFinset.2 (mem_map_of_mem href)
  have hstart : (Ledger.fresh fun _ => none).Within (o.refs.map ParamRef.mention).toFinset :=
    .fresh (by simp)
  exact mem_map.1 (mem_toFinset.1 ((hstart.run hall).finish h))

theorem mention_mem_kept (h : o.Apart ∅) {ref : ParamRef} (href : ref ∈ o.refs) :
    ref.mention ∈ o.kept :=
  (Ledger.Gains.run h (by simp [Ledger.Covered, Ledger.find?, Ledger.fresh, Ledger.lookup])
    (Ledger.Settled.fresh _)).refs ref href

end Outline

/-! ## What an interface lists -/

namespace Statement

/-- The occurrences of parameters that are listed for a statement. -/
def listed (st : Statement) : List Mention := Param.listed (st.interface []).allParams

theorem run_extract (st : Statement) [Mergeable H] (h : Started H st.params) :
    (st.interface []).Holds H ∧ ((extractStatement st).run (.fresh [] [])).2.ledger =
      st.outline.run (.fresh fun _ => none) := by
  have hrefs : Started H st.outline.refs := fun ref href => h ref (st.refs_outline.mem_iff.1 href)
  obtain ⟨hproper, hledger, g, hg, -, hgrows⟩ :=
    does_extractStatement st hrefs _ (Scope.proper_fresh (forall_mem_nil _) [])
  refine ⟨hproper.finish ((hgrows _ (.refl _)).2.1.holds nofun hg), hledger.trans ?_⟩
  rw [Scope.ledger_fresh]
  rfl

/-- What holds of entries for single occurrences, and of those that are merged, holds of all. -/
theorem holds_interface (st : Statement) [Mergeable H]
    (h : Started H st.params) : (st.interface []).Holds H :=
  (st.run_extract h).1

theorem started_tidy (st : Statement) : Started Param.Tidy st.params :=
  fun _ _ _ _ _ => ⟨pairwise_singleton _ _, .singleton _, cons_ne_nil _ _⟩

theorem tidy_interface (st : Statement) : (st.interface []).Tidy :=
  st.holds_interface st.started_tidy

theorem mentions_interface (st : Statement) : (st.interface []).mentions = st.outline.kept := by
  rw [Statement.interface, Scope.mentions_finish, (st.run_extract st.started_tidy).2]
  rfl

/-- The entry lists occurrences of its name in a statement, and has the marks of each of them. -/
def Declares (st : Statement) (e : Param TypeExpr) : Prop :=
  ∀ span ∈ e.spans, ∃ ref ∈ st.params, ref.mention = ⟨e.name, span⟩ ∧
    (ref.required = true → e.required = true) ∧ (ref.spread = true → e.spread = true) ∧
    (ref.pick ≠ [] → e.pick ≠ [])

instance (st : Statement) : Mergeable st.Declares where
  merge {p q} hname hp hq := by
    intro span hspan
    have hpick : (p.merge TypeExpr.unionOf q).pick =
      if p.pick.isEmpty then q.pick else p.pick := rfl
    rcases Param.mem_spans_merge.1 hspan with hspan | hspan
    · obtain ⟨ref, href, hmention, hrequired, hspread, hfields⟩ := hp span hspan
      refine ⟨ref, href, hmention, fun h => Bool.or_eq_true_iff.2 (.inl (hrequired h)),
        fun h => Bool.or_eq_true_iff.2 (.inl (hspread h)), fun h => ?_⟩
      rw [hpick, if_neg (by simpa using hfields h)]
      exact hfields h
    · obtain ⟨ref, href, hmention, hrequired, hspread, hfields⟩ := hq span hspan
      refine ⟨ref, href, hmention.trans (by rw [← hname]; rfl),
        fun h => Bool.or_eq_true_iff.2 (.inr (hrequired h)),
        fun h => Bool.or_eq_true_iff.2 (.inr (hspread h)), fun h => ?_⟩
      rw [hpick]
      split
      · exact hfields h
      · next hsome => simpa using hsome

theorem declares_entries (st : Statement) : (st.interface []).Holds st.Declares := by
  refine st.holds_interface fun ref href type pick hpick span hspan => ?_
  obtain rfl := mem_singleton.1 hspan
  refine ⟨ref, href, rfl, id, id, fun h => ?_⟩
  rcases hpick with hpick | rfl
  · exact absurd hpick h
  · simpa [Extract.names] using h

theorem mem_listed : m ∈ st.listed ↔ m ∈ st.outline.kept := by
  rw [listed, Interface.mem_listed_allParams, mentions_interface]

/-- Occurrences that start at one place are the same. -/
theorem eq_of_mem_kept (h : ∀ ref ∈ st.params, ref.StandsIn text tolerant) {n : Mention}
    (hm : m ∈ st.outline.kept) (hn : n ∈ st.outline.kept) (hstart : m.span.start = n.span.start) :
    m = n := by
  obtain ⟨a, ha, rfl⟩ := Outline.exists_ref_of_mem_kept hm
  obtain ⟨b, hb, rfl⟩ := Outline.exists_ref_of_mem_kept hn
  rw [st.refs_outline.mem_iff] at ha hb
  rw [(h a ha).unique (h b hb) hstart]

theorem nodup_listed (h : ∀ ref ∈ st.params, ref.StandsIn text tolerant) :
    (st.listed.map Mention.span).Nodup := by
  refine Interface.nodup_allParams st.tidy_interface fun m hm n hn => ?_
  rw [mentions_interface] at hm hn
  exact eq_of_mem_kept h hm hn

theorem exists_param_of_mem_listed {m : Mention} (hm : m ∈ st.listed) :
    ∃ ref ∈ st.params, ref.mention = m := by
  obtain ⟨ref, href, hmention⟩ := Outline.exists_ref_of_mem_kept (mem_listed.1 hm)
  exact ⟨ref, st.refs_outline.mem_iff.1 href, hmention⟩

/-- Each place of a parsed statement is listed once at most, and under the name of the parameter
that stands there. What is listed is what the outline keeps; where the recursive queries stand apart
from the queries around them, that is every parameter of the statement. -/
theorem listed_parsed {text : String} {tolerant : Bool} {st : Statement}
    (h : parseWith tolerant text = .ok st) :
    (st.listed.map Mention.span).Nodup ∧ (∀ m ∈ st.listed, ∃ ref ∈ st.params, ref.mention = m) ∧
      (∀ m, m ∈ st.listed ↔ m ∈ st.outline.kept) ∧
      (st.outline.Apart ∅ → ∀ m, m ∈ st.listed ↔ ∃ ref ∈ st.params, ref.mention = m) := by
  refine ⟨nodup_listed (standsIn_parseWith h), fun _ => exists_param_of_mem_listed,
    fun _ => mem_listed, fun ha m => ⟨exists_param_of_mem_listed, ?_⟩⟩
  rintro ⟨ref, href, rfl⟩
  exact mem_listed.2 (Outline.mention_mem_kept ha (st.refs_outline.mem_iff.2 href))

/-- A recursive query, a query that is not used, and a parameter that occurs twice. -/
def recursiveUpdate : String :=
  "WITH RECURSIVE t AS (SELECT $x UNION SELECT $y FROM t), u AS (SELECT $z) UPDATE a SET c = $x"

theorem listed_recursiveUpdate : ∃ st, parseWith false recursiveUpdate = .ok st ∧
    st.outline.Apart ∅ ∧ st.params.map ParamRef.name = ["x", "y", "z", "x"] ∧
    (st.listed.map Mention.span).Nodup ∧
    ∀ m, m ∈ st.listed ↔ ∃ ref ∈ st.params, ref.mention = m := by
  have hread : (parseWith false recursiveUpdate).toOption.any fun st => decide
      (st.outline.Apart ∅ ∧ st.params.map ParamRef.name = ["x", "y", "z", "x"]) := by
    decide +kernel
  obtain ⟨st, hp, hread⟩ := exists_of_toOption_any hread
  obtain ⟨hapart, hnames⟩ := of_decide_eq_true hread
  obtain ⟨hnodup, -, -, hall⟩ := listed_parsed hp
  exact ⟨st, hp, hapart, hnames, hnodup, hall hapart⟩

/-- The parameters that are not listed, by name. -/
def lostIn (text : String) : List String :=
  match parse text with
  | .ok st => (st.params.filter (·.mention ∉ st.listed)).map ParamRef.name
  | .error _ => []

-- A recursive query that reads itself marks a query around it that goes by the same name.
example : lostIn "WITH RECURSIVE a AS (SELECT $x), a AS (SELECT 1 UNION SELECT 2 FROM a) SELECT 1" =
    ["x"] := by
  decide +kernel

-- Of `unnest` in `FROM` only the arguments are read.
example : lostIn "SELECT FROM unnest($a ORDER BY $b)" = ["b"] := by
  decide +kernel

end Statement

end SqlTyping
