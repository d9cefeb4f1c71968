import SqlTyping.Proofs.Positional.Placeholders
import SqlTyping.Proofs.Text

/-!
# Splicing placeholders into a text

A text with parameters is a list of pieces and a tail: each `Piece` has the characters up to an
occurrence and those that it covers. `positional` copies the gaps and the tail and puts the
placeholders in place of what is covered. The values are told by a relation that has one rule for
the first use of a name and one for the others (`Fills`); what is said about numbers, values and
shared texts is an induction on it.
-/

namespace SqlTyping

open Text List

variable {τ : Type} {params : List (Param τ)}

/-- One occurrence of a parameter, the text before it, and what is put in its place. -/
structure Piece (τ : Type) where
  gap : List Char
  covered : List Char
  occurrence : Occurrence τ
  text : String

namespace Piece

def name (p : Piece τ) : String := p.occurrence.param.name

/-- The text that the pieces are taken from. -/
def source (pieces : List (Piece τ)) : List Char := pieces.flatMap fun p => p.gap ++ p.covered

/-- The text with placeholders. -/
def target (pieces : List (Piece τ)) : List Char := pieces.flatMap fun p => p.gap ++ p.text.toList

/-- The pieces lie at the offsets of their occurrences, one after the other. -/
def Placed : (offset : Nat) → List (Piece τ) → Prop
  | _, [] => True
  | offset, p :: rest =>
    offset + byteSize p.gap = p.occurrence.span.start ∧
      p.occurrence.span.start + byteSize p.covered = p.occurrence.span.stop ∧
      Placed p.occurrence.span.stop rest

/-- The gaps reach from the end of one occurrence to the start of the next one, wherever they end.
-/
def Cut (cs : List Char) : (offset : Nat) → List (Piece τ) → (tail : List Char) → Prop
  | offset, [], tail => dropBytes? offset cs = some tail
  | offset, p :: rest, tail =>
    Between cs offset p.occurrence.span.start p.gap ∧
      (p.occurrence.span.start ≤ p.occurrence.span.stop →
        Between cs p.occurrence.span.start p.occurrence.span.stop p.covered) ∧
      Cut cs p.occurrence.span.stop rest tail

/-- The first piece of each name. -/
def firstUses : (seen : List String) → List (Piece τ) → List (Piece τ)
  | _, [] => []
  | seen, p :: rest =>
    if p.name ∈ seen then firstUses seen rest else p :: firstUses (p.name :: seen) rest

end Piece

/-- The pieces have the placeholders of their names. Those of the names in `rendered` are known, and
`used` are their values; `all` are the values in the end. -/
inductive Fills (values : Json) : (rendered : List (String × String)) → (used : List Json) →
    List (Piece τ) → (all : List Json) → Prop
  | done {rendered used} : Fills values rendered used [] used
  | again {rendered used p rest all} : rendered.lookup p.name = some p.text →
      Fills values rendered used rest all → Fills values rendered used (p :: rest) all
  | first {rendered used p rest all new} : rendered.lookup p.name = none →
      p.occurrence.param.placeholders values used.length = .ok ⟨p.text, new⟩ →
      Fills values ((p.name, p.text) :: rendered) (used ++ new) rest all →
      Fills values rendered used (p :: rest) all

variable {p : Piece τ} {o : Occurrence τ}

namespace Fills

variable {values : Json} {rendered : List (String × String)} {used all : List Json}
  {pieces : List (Piece τ)}

/-- A name keeps its text. -/
theorem kept (h : Fills values rendered used pieces all) (hp : p ∈ pieces)
    (hname : rendered.lookup p.name = some text) : p.text = text := by
  induction h with
  | done => cases hp
  | again hq _ ih =>
    rcases mem_cons.1 hp with rfl | hp
    · exact Option.some.inj (hq.symm.trans hname)
    · exact ih hp hname
  | @first rendered _ q _ _ _ hq _ _ ih =>
    rcases mem_cons.1 hp with rfl | hp
    · rw [hq] at hname
      cases hname
    · have hne : (p.name == q.name) = false := by
        refine Bool.eq_false_iff.2 fun heq => ?_
        rw [eq_of_beq heq, hq] at hname
        cases hname
      exact ih hp (by rw [lookup_cons, hne]; exact hname)

theorem shared (h : Fills values rendered used pieces all) {q : Piece τ} (hp : p ∈ pieces)
    (hq : q ∈ pieces) (hname : p.name = q.name) : p.text = q.text := by
  induction h with
  | done => cases hp
  | again hlookup htail ih =>
    rcases mem_cons.1 hp with rfl | hp <;> rcases mem_cons.1 hq with rfl | hq
    · rfl
    · exact (htail.kept hq (hname ▸ hlookup)).symm
    · exact htail.kept ‹_› (hname ▸ hlookup)
    · exact ih hp hq
  | first hlookup _ htail ih =>
    rcases mem_cons.1 hp with rfl | hp <;> rcases mem_cons.1 hq with rfl | hq
    · rfl
    · exact (htail.kept hq (by rw [hname, lookup_cons_self])).symm
    · exact htail.kept ‹_› (by rw [hname, lookup_cons_self])
    · exact ih hp hq

/-- The values are those of the first uses, in their order, and the placeholders of the first uses
count them. -/
theorem numbered (h : Fills values rendered used pieces all) :
    ∃ rows, (Piece.firstUses (rendered.map Prod.fst) pieces).mapM
        (fun p => p.occurrence.param.laidOut? values) = some rows ∧
      all = used ++ rows.flatten ∧
      (Piece.firstUses (rendered.map Prod.fst) pieces).flatMap
        (fun p => placeholderNumbers p.text) = List.range' (used.length + 1) rows.flatten.length := by
  induction h with
  | done => exact ⟨[], rfl, by simp, rfl⟩
  | @again rendered _ p _ _ hlookup _ ih =>
    have hseen : p.name ∈ rendered.map Prod.fst := by
      obtain ⟨before, after, rfl, -⟩ := lookup_eq_some_iff.1 hlookup
      simp
    rw [Piece.firstUses, if_pos hseen]
    exact ih
  | @first rendered used p _ _ new hlookup hnew _ ih =>
    have hnot : p.name ∉ rendered.map Prod.fst := by
      rw [lookup_eq_none_iff] at hlookup
      rintro hmem
      obtain ⟨entry, hentry, heq⟩ := mem_map.1 hmem
      simpa [heq] using hlookup entry hentry
    obtain ⟨hlaid, hnumbers⟩ := Param.placeholders_ok hnew
    obtain ⟨rows, hrows, hall, hrest⟩ := ih
    rw [Piece.firstUses, if_neg hnot]
    refine ⟨new :: rows, ?_, ?_, ?_⟩
    · rw [mapM_cons, hlaid]
      exact congrArg (fun others => others.bind fun rows => some (new :: rows)) hrows
    · rw [hall, flatten_cons, append_assoc]
    · rw [flatMap_cons, flatten_cons, length_append, ← range'_append_1, hnumbers]
      exact congrArg _ (by rw [Nat.add_right_comm, ← length_append]; exact hrest)

/-- What stands for a name was made for one of its occurrences, at the place of its values. -/
theorem bound (h : Fills values rendered used pieces all) (hp : p ∈ pieces)
    (hname : rendered.lookup p.name = none) :
    ∃ q ∈ pieces, q.name = p.name ∧ ∃ before new after,
      q.occurrence.param.placeholders values before.length = .ok ⟨p.text, new⟩ ∧
      all = before ++ new ++ after := by
  induction h with
  | done => cases hp
  | again hlookup _ ih =>
    rcases mem_cons.1 hp with rfl | hp
    · rw [hlookup] at hname
      cases hname
    · obtain ⟨q, hq, hrest⟩ := ih hp hname
      exact ⟨q, mem_cons_of_mem _ hq, hrest⟩
  | @first _ used q _ _ new hlookup hnew htail ih =>
    obtain ⟨rows, -, hall, -⟩ := htail.numbered
    rcases mem_cons.1 hp with rfl | hp
    · exact ⟨p, mem_cons_self, rfl, used, new, rows.flatten, hnew, hall⟩
    · by_cases heq : p.name = q.name
      · have htext : p.text = q.text := htail.kept hp (by rw [heq, lookup_cons_self])
        exact ⟨q, mem_cons_self, heq.symm, used, new, rows.flatten, htext ▸ hnew, hall⟩
      · have hne : (p.name == q.name) = false := Bool.eq_false_iff.2 fun h => heq (eq_of_beq h)
        obtain ⟨r, hr, hrest⟩ := ih hp (by rw [lookup_cons, hne]; exact hname)
        exact ⟨r, mem_cons_of_mem _ hr, hrest⟩

end Fills

/-! ## The text in pieces -/

namespace Piece

variable {cs tail : List Char} {offset : Nat} {pieces : List (Piece τ)}

theorem Cut.drop (h : Cut cs offset pieces tail) : ∃ rest, dropBytes? offset cs = some rest := by
  cases pieces with
  | nil => exact ⟨tail, h⟩
  | cons p pieces =>
    obtain ⟨⟨rest, hrest, -⟩, -⟩ := h
    exact ⟨_, hrest⟩

theorem Cut.boundary (h : Cut cs offset pieces tail) (hp : p ∈ pieces) :
    Boundary cs p.occurrence.span.start ∧ Boundary cs p.occurrence.span.stop := by
  induction pieces generalizing offset with
  | nil => cases hp
  | cons q pieces ih =>
    obtain ⟨⟨rest, -, hstart, -⟩, -, hcut⟩ := h
    rcases mem_cons.1 hp with rfl | hp
    · exact ⟨boundary_iff.2 ⟨rest, hstart⟩, boundary_iff.2 hcut.drop⟩
    · exact ih hcut hp

/-- An occurrence ends where the next one starts, or before. -/
theorem Cut.chain (h : Cut cs offset pieces tail) :
    (pieces.map Piece.occurrence).IsChain fun a b => a.span.stop ≤ b.span.start := by
  induction pieces generalizing offset with
  | nil => exact .nil
  | cons p pieces ih =>
    obtain ⟨-, -, hcut⟩ := h
    cases pieces with
    | nil => exact .singleton _
    | cons q pieces =>
      have hchain := ih hcut
      obtain ⟨⟨_, -, -, hsize⟩, -⟩ := hcut
      exact .cons_cons (by omega) hchain

/-- Where every span ends after its start, the pieces and the tail make up the text. -/
theorem Cut.placed (h : Cut cs offset pieces tail)
    (hspans : ∀ p ∈ pieces, p.occurrence.span.start ≤ p.occurrence.span.stop) :
    dropBytes? offset cs = some (source pieces ++ tail) ∧ Placed offset pieces := by
  induction pieces generalizing offset with
  | nil => exact ⟨h, trivial⟩
  | cons p pieces ih =>
    obtain ⟨hspan, hspans⟩ := forall_mem_cons.1 hspans
    obtain ⟨⟨after, hgap, hstart, hsize⟩, hcovered, hcut⟩ := h
    obtain ⟨rest, hstart', hstop, hsize'⟩ := hcovered hspan
    obtain ⟨hrest, hplaced⟩ := ih hcut hspans
    rw [hrest, Option.some.injEq] at hstop
    rw [hstart', Option.some.injEq] at hstart
    exact ⟨by rw [hgap, ← hstart, ← hstop]; simp [source], hsize, hsize', hplaced⟩

theorem Placed.pairwise (h : Placed offset pieces) :
    (∀ p ∈ pieces, offset ≤ p.occurrence.span.start) ∧
      (pieces.map Piece.occurrence).Pairwise fun a b => a.span.stop ≤ b.span.start := by
  induction pieces generalizing offset with
  | nil => exact ⟨by simp, .nil⟩
  | cons p pieces ih =>
    obtain ⟨hstart, hstop, hplaced⟩ := h
    obtain ⟨hbounds, hpairs⟩ := ih hplaced
    refine ⟨forall_mem_cons.2 ⟨by omega, fun q hq => ?_⟩, ?_⟩
    · have := hbounds q hq
      omega
    · rw [map_cons, pairwise_cons, forall_mem_map]
      exact ⟨hbounds, hpairs⟩

end Piece

/-- The step at an occurrence: what stands for its name is known, or made for it. -/
theorem spliceFrom_cons_ok {last : Nat} {rendered : List (String × String)} {used : List Json}
    {rest : List (Occurrence τ)}
    (h : spliceFrom cs values last rendered used (o :: rest) = .ok out) :
    ∃ gap text rendered' used' onward, slice? last o.span.start cs = some gap ∧
      (rendered.lookup o.param.name = some text ∧ rendered' = rendered ∧ used' = used ∨
        rendered.lookup o.param.name = none ∧ ∃ new,
          o.param.placeholders values used.length = .ok ⟨text, new⟩ ∧
          rendered' = (o.param.name, text) :: rendered ∧ used' = used ++ new) ∧
      spliceFrom cs values o.span.stop rendered' used' rest = .ok onward ∧
      out = { onward with text := String.ofList gap ++ text ++ onward.text } := by
  rw [spliceFrom] at h
  cases hgap : slice? last o.span.start cs with
  | none => rw [hgap] at h; cases h
  | some gap =>
    rw [hgap] at h
    have last_step {text : String} {rendered' : List (String × String)} {used' : List Json}
        (h : (do
          let onward ← spliceFrom cs values o.span.stop rendered' used' rest
          return { onward with text := String.ofList gap ++ text ++ onward.text }) = .ok out) :
        ∃ onward, spliceFrom cs values o.span.stop rendered' used' rest = .ok onward ∧
          out = { onward with text := String.ofList gap ++ text ++ onward.text } := by
      cases honward : spliceFrom cs values o.span.stop rendered' used' rest with
      | error e => rw [honward] at h; cases h
      | ok onward => rw [honward] at h; exact ⟨onward, rfl, (Except.ok.inj h).symm⟩
    cases hlookup : rendered.lookup o.param.name with
    | some text =>
      rw [hlookup] at h
      obtain ⟨onward, hrun, hout⟩ := last_step h
      exact ⟨gap, text, _, _, onward, rfl, .inl ⟨rfl, rfl, rfl⟩, hrun, hout⟩
    | none =>
      rw [hlookup] at h
      cases hnew : o.param.placeholders values used.length with
      | error e => simp only [hnew] at h; cases h
      | ok new =>
        simp only [hnew] at h
        obtain ⟨onward, hrun, hout⟩ := last_step h
        exact ⟨gap, new.text, _, _, onward, rfl, .inr ⟨rfl, new.values, rfl, rfl, rfl⟩, hrun, hout⟩

theorem spliceFrom_ok {found : List (Occurrence τ)} {last : Nat} {rendered : List (String × String)}
    {used : List Json} (h : spliceFrom cs values last rendered used found = .ok out) :
    ∃ (pieces : List (Piece τ)) (tail : List Char), pieces.map Piece.occurrence = found ∧
      Piece.Cut cs last pieces tail ∧ out.text.toList = Piece.target pieces ++ tail ∧
      Fills values rendered used pieces out.values := by
  induction found generalizing last rendered used out with
  | nil =>
    rw [spliceFrom] at h
    cases hrest : dropBytes? last cs with
    | none => rw [hrest] at h; cases h
    | some rest =>
      rw [hrest] at h
      cases h
      exact ⟨[], rest, rfl, hrest, String.toList_ofList, .done⟩
  | cons o rest ih =>
    obtain ⟨gap, text, rendered', used', onward, hgap, htext, hrun, rfl⟩ := spliceFrom_cons_ok h
    obtain ⟨pieces, tail, hocc, hcut, honward, hfills⟩ := ih hrun
    have hgap := slice?_eq_some hgap
    obtain ⟨after, hstop⟩ := hcut.drop
    obtain ⟨covered, hcovered⟩ : ∃ covered, o.span.start ≤ o.span.stop →
        Between cs o.span.start o.span.stop covered := by
      by_cases hspan : o.span.start ≤ o.span.stop
      · obtain ⟨_, -, hstart, -⟩ := hgap
        obtain ⟨covered, hcovered⟩ := exists_between hspan hstart hstop
        exact ⟨covered, fun _ => hcovered⟩
      · exact ⟨[], fun h => absurd h hspan⟩
    refine ⟨⟨gap, covered, o, text⟩ :: pieces, tail, by rw [map_cons, hocc],
      ⟨hgap, hcovered, hcut⟩, by simp [honward, Piece.target], ?_⟩
    obtain ⟨hlookup, rfl, rfl⟩ | ⟨hlookup, new, hnew, rfl, rfl⟩ := htext
    · exact .again hlookup hfills
    · exact .first hlookup hnew hfills

theorem mem_occurrences : o ∈ occurrences params ↔ o.param ∈ params ∧ o.span ∈ o.param.spans := by
  rw [occurrences, mem_mergeSort, mem_flatMap]
  constructor
  · rintro ⟨p, hp, ho⟩
    obtain ⟨s, hs, rfl⟩ := mem_map.1 ho
    exact ⟨hp, hs⟩
  · rintro ⟨hp, hs⟩
    exact ⟨o.param, hp, mem_map.2 ⟨o.span, hs, rfl⟩⟩

theorem positional_cut (h : positional text params values = .ok out) :
    ∃ (pieces : List (Piece τ)) (tail : List Char),
      pieces.map Piece.occurrence = occurrences params ∧
      Piece.Cut text.toList 0 pieces tail ∧ out.text.toList = Piece.target pieces ++ tail ∧
      Fills values [] [] pieces out.values := by
  rw [positional] at h
  split at h
  · cases h
  · exact spliceFrom_ok h

theorem positional_ok
    (hspans : ∀ p ∈ params, ∀ s ∈ p.spans, s.start ≤ s.stop)
    (h : positional text params values = .ok out) :
    ∃ (pieces : List (Piece τ)) (tail : List Char),
      pieces.map Piece.occurrence = occurrences params ∧
      text.toList = Piece.source pieces ++ tail ∧ out.text.toList = Piece.target pieces ++ tail ∧
      Piece.Placed 0 pieces ∧ Fills values [] [] pieces out.values := by
  obtain ⟨pieces, tail, hocc, hcut, htarget, hfills⟩ := positional_cut h
  obtain ⟨hsource, hplaced⟩ := hcut.placed fun p hp => by
    obtain ⟨hparam, hs⟩ := mem_occurrences.1 (hocc ▸ mem_map_of_mem hp)
    exact hspans _ hparam _ hs
  exact ⟨pieces, tail, hocc, by simpa [dropBytes?] using hsource, htarget, hplaced, hfills⟩

/-- The text with one piece of it replaced for each occurrence of a parameter. -/
structure Spliced (text : String) (params : List (Param τ)) (values : Json) (out : PositionalQuery)
    (pieces : List (Piece τ)) (tail : List Char) (rows : List (List Json)) : Prop where
  occurrences : (pieces.map Piece.occurrence).Perm (params.flatMap fun p => p.spans.map (⟨·, p⟩))
  sorted : (pieces.map Piece.occurrence).Pairwise fun a b => a.span.start ≤ b.span.start
  source : text.toList = Piece.source pieces ++ tail
  target : out.text.toList = Piece.target pieces ++ tail
  placed : Piece.Placed 0 pieces
  /-- A name has one text wherever it occurs. -/
  shared : ∀ p ∈ pieces, ∀ q ∈ pieces, p.name = q.name → p.text = q.text
  /-- The placeholders are all numbers from one on, each once and in order. -/
  numbers : (Piece.firstUses [] pieces).flatMap (fun p => placeholderNumbers p.text) =
    List.range' 1 out.values.length
  /-- The values are those of the names, in the order of their first occurrences. -/
  laidOut : (Piece.firstUses [] pieces).mapM (fun p => p.occurrence.param.laidOut? values) =
    some rows
  values : out.values = rows.flatten

theorem positional_spliced (text : String) (params : List (Param τ)) (values : Json)
    (out : PositionalQuery) (hspans : ∀ p ∈ params, ∀ s ∈ p.spans, s.start ≤ s.stop)
    (h : positional text params values = .ok out) :
    ∃ pieces tail rows, Spliced text params values out pieces tail rows := by
  obtain ⟨pieces, tail, hocc, hsource, htarget, hplaced, hfills⟩ := positional_ok hspans h
  obtain ⟨rows, hrows, hvalues, hnumbers⟩ := hfills.numbered
  have hsorted : (SqlTyping.occurrences params).Pairwise
      fun a b => a.span.start ≤ b.span.start := by
    refine (pairwise_mergeSort ?_ ?_ _).imp (fun h => of_decide_eq_true h)
    · intro a b c hab hbc
      simp only [decide_eq_true_eq] at *
      omega
    · intro a b
      simp only [Bool.or_eq_true, decide_eq_true_eq]
      omega
  refine ⟨pieces, tail, rows, ?_⟩
  exact
    { occurrences := hocc ▸ mergeSort_perm _ _
      sorted := hocc ▸ hsorted
      source := hsource
      target := htarget
      placed := hplaced
      shared := fun p hp q hq => hfills.shared hp hq
      numbers := by rw [hvalues]; exact hnumbers
      laidOut := hrows
      values := hvalues }

/-! A scalar that occurs twice, a spread list and picked rows, of which one lacks a field. -/

def sampleText : String := "f($a, $$ids, $$rows(x, y), $a)"

def sampleScalar : Param Unit := ⟨"a", (), [⟨2, 4⟩, ⟨27, 29⟩], true, false, []⟩

def sampleList : Param Unit := ⟨"ids", (), [⟨6, 11⟩], false, true, []⟩

def sampleRows : Param Unit := ⟨"rows", (), [⟨13, 25⟩], false, true, ["x", "y"]⟩

def sampleValues : Json :=
  .object [⟨"a", .string "é"⟩, ⟨"ids", .array [.null, .bool true]⟩,
    ⟨"rows", .array [.object [⟨"y", .bool true⟩, ⟨"x", .null⟩], .object [⟨"y", .bool false⟩]]⟩]

theorem occurrences_sample :
    occurrences [sampleScalar, sampleList, sampleRows] =
      [⟨⟨2, 4⟩, sampleScalar⟩, ⟨⟨6, 11⟩, sampleList⟩, ⟨⟨13, 25⟩, sampleRows⟩,
        ⟨⟨27, 29⟩, sampleScalar⟩] := by
  simp [occurrences, mergeSort, sampleScalar, sampleList, sampleRows]

theorem positional_sample :
    ∃ out, positional sampleText [sampleScalar, sampleList, sampleRows] sampleValues = .ok out ∧
      out.text = "f($1, ($2,$3), ($4,$5),($6,$7), $1)" := by
  have htext : (positional sampleText [sampleScalar, sampleList, sampleRows]
      sampleValues).toOption.map (·.text) = some "f($1, ($2,$3), ($4,$5),($6,$7), $1)" := by
    rw [positional, occurrences_sample]
    decide +kernel
  cases hout : positional sampleText [sampleScalar, sampleList, sampleRows] sampleValues with
  | error e => rw [hout] at htext; cases htext
  | ok out =>
    rw [hout] at htext
    exact ⟨out, rfl, Option.some.inj htext⟩

theorem positional_spliced_sample :
    ∃ out, positional sampleText [sampleScalar, sampleList, sampleRows] sampleValues = .ok out ∧
      out.text = "f($1, ($2,$3), ($4,$5),($6,$7), $1)" ∧
      ∃ pieces tail rows, Spliced sampleText [sampleScalar, sampleList, sampleRows] sampleValues out
        pieces tail rows := by
  obtain ⟨out, hout, htext⟩ := positional_sample
  exact ⟨out, hout, htext, positional_spliced _ _ _ _ (by decide) hout⟩

/-! ## Spans -/

/-- What is accepted, whatever the spans. They start and end in the text and not within characters,
none reaches beyond the start of the next one, and the text is copied from the end of each to the
start of the next. A span that ends before it starts is not found out: then characters are copied
twice. If there is none, no spans overlap, and what they do not cover is copied once and in order. -/
theorem positional_spans {text : String} {params : List (Param τ)} {values : Json}
    {out : PositionalQuery} (h : positional text params values = .ok out) :
    (∀ p ∈ params, ∀ s ∈ p.spans, Boundary text.toList s.start ∧ Boundary text.toList s.stop) ∧
    ((occurrences params).IsChain fun a b => a.span.stop ≤ b.span.start) ∧
    (∃ (pieces : List (Piece τ)) (tail : List Char),
      pieces.map Piece.occurrence = occurrences params ∧ Piece.Cut text.toList 0 pieces tail ∧
      out.text.toList = Piece.target pieces ++ tail) ∧
    ((∀ p ∈ params, ∀ s ∈ p.spans, s.start ≤ s.stop) →
      ((occurrences params).Pairwise fun a b => a.span.stop ≤ b.span.start) ∧
      ∃ (pieces : List (Piece τ)) (tail : List Char),
        pieces.map Piece.occurrence = occurrences params ∧ Piece.Placed 0 pieces ∧
        text.toList = Piece.source pieces ++ tail ∧
        out.text.toList = Piece.target pieces ++ tail) := by
  obtain ⟨pieces, tail, hocc, hcut, htarget, -⟩ := positional_cut h
  refine ⟨fun p hp s hs => ?_, hocc ▸ hcut.chain, ⟨pieces, tail, hocc, hcut, htarget⟩,
    fun hspans => ?_⟩
  · have hmem : (⟨s, p⟩ : Occurrence τ) ∈ pieces.map Piece.occurrence :=
      hocc ▸ mem_occurrences.2 ⟨hp, hs⟩
    obtain ⟨piece, hpiece, heq⟩ := mem_map.1 hmem
    have hbounds := hcut.boundary hpiece
    rwa [heq] at hbounds
  · obtain ⟨pieces, tail, hocc, hsource, htarget, hplaced, -⟩ := positional_ok hspans h
    exact ⟨hocc ▸ hplaced.pairwise.2, pieces, tail, hocc, hplaced, hsource, htarget⟩

/-- The spans of the sample do not overlap. -/
theorem positional_spans_sample :
    ∃ out, positional sampleText [sampleScalar, sampleList, sampleRows] sampleValues = .ok out ∧
      ((occurrences [sampleScalar, sampleList, sampleRows]).Pairwise
        fun a b => a.span.stop ≤ b.span.start) ∧
      Boundary sampleText.toList 29 := by
  obtain ⟨out, hout, -⟩ := positional_sample
  obtain ⟨hbounds, -, -, hpairs⟩ := positional_spans hout
  exact ⟨out, hout, (hpairs (by decide)).1, (hbounds sampleScalar (by simp) ⟨27, 29⟩ (by decide)).2⟩

/-! A span that ends before it starts: the text from its end on is copied, with the parenthesis and
the parameter that were copied or replaced before. -/

example : (positional "f($a)" [(⟨"a", (), [⟨2, 1⟩], true, false, []⟩ : Param Unit)]
    (.object [⟨"a", .bool true⟩])).toOption.map (·.text) = some "f($1($a)" := by
  decide +kernel

end SqlTyping
