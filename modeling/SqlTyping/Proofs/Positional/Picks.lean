import SqlTyping.Proofs.Positional.Splicing
import SqlTyping.Proofs.Resolution.Params

/-!
# Fields of spread parameters

A spread parameter with a list of fields is spliced in as one tuple of placeholders for each element,
and each placeholder stands for one of the fields of the element (`Piece.SpreadBy`). Which fields
these are is decided for the name and not for the occurrence: those of the first entry that picks
any (`Interface.picked`). So an occurrence is expanded by its own list of fields only if the
occurrences of its name agree on it (`Statement.spread_spliced`).
-/

namespace SqlTyping

open List

variable {τ : Type} {rows : List (List Json)} {k : Nat} {p : Param τ} {values : Json}
  {text : String} {tolerant : Bool} {st : Statement} {ref : ParamRef}

/-! ## Tuples of placeholders -/

/-- There is one tuple of placeholders for each element, and each of its placeholders is bound to
one of the fields of the element. -/
def Piece.SpreadBy (piece : Piece τ) (fields : List String) (items values : List Json) : Prop :=
  ∃ used, piece.text = ",".intercalate ((List.range items.length).map fun j =>
      "(" ++ ",".intercalate ((List.range fields.length).map fun i =>
        placeholder (used + j * fields.length + i + 1)) ++ ")") ∧
    ∀ j item, items[j]? = some item → ∀ i field, fields[i]? = some field →
      values[used + j * fields.length + i]? = some ((item.member? field).getD .null)

theorem placeholderRows_eq (h : ∀ row ∈ rows, row.length = k) (used : Nat) :
    placeholderRows used rows = (List.range rows.length).map fun j =>
      "(" ++ ",".intercalate ((List.range k).map fun i => placeholder (used + j * k + i + 1)) ++
        ")" := by
  induction rows generalizing used with
  | nil => rfl
  | cons row rest ih =>
    obtain ⟨hrow, hrest⟩ := forall_mem_cons.1 h
    rw [placeholderRows, ih hrest, length_cons, range_succ_eq_map, map_cons,
      map_map, placeholderTuple, hrow]
    simp only [Nat.zero_mul, Nat.add_zero, Function.comp_def, Nat.succ_mul, Nat.add_assoc,
      Nat.add_comm k]

theorem getElem?_flatten (h : ∀ row ∈ rows, row.length = k) {j : Nat} {row : List Json}
    (hrow : rows[j]? = some row) {i : Nat} {value : Json} (hvalue : row[i]? = some value) :
    rows.flatten[j * k + i]? = some value := by
  induction rows generalizing j with
  | nil => cases hrow
  | cons first rest ih =>
    obtain ⟨hfirst, hrest⟩ := forall_mem_cons.1 h
    rw [flatten_cons]
    cases j with
    | zero =>
      cases hrow
      have hi : i < row.length := (List.getElem?_eq_some_iff.1 hvalue).1
      rw [Nat.zero_mul, Nat.zero_add, getElem?_append_left hi]
      exact hvalue
    | succ j =>
      rw [getElem?_append_right (by rw [hfirst, Nat.succ_mul]; omega), hfirst,
        show (j + 1) * k + i - k = j * k + i by rw [Nat.succ_mul]; omega]
      exact ih hrest hrow

theorem Param.placeholders_picked {used : Nat} {new : Placeholders}
    (h : p.placeholders values used = .ok new) (hspread : p.spread = true) (hpick : p.pick ≠ []) :
    ∃ items, (values.member? p.name).bind Json.asArray? = some items ∧
      ∃ rows, rows = (items.map fun item => p.pick.map fun field =>
        (item.member? field).getD .null) ∧
      new.text = ",".intercalate (placeholderRows used rows) ∧ new.values = rows.flatten := by
  unfold placeholders at h
  cases hvalue : values.member? p.name with
  | none => rw [hvalue] at h; cases h
  | some value =>
    rw [hvalue] at h
    dsimp only at h
    rw [if_pos hspread] at h
    cases hitems : value.asArray? with
    | none => rw [hitems] at h; cases h
    | some items =>
      rw [hitems] at h
      have hok := spreadPlaceholders_ok h
      rw [if_neg (by simpa using hpick)] at hok
      exact ⟨items, hitems, hok⟩

theorem Piece.spreadBy_of_placeholders {piece : Piece τ} {before new : List Json}
    (after : List Json) (h : p.placeholders values before.length = .ok ⟨piece.text, new⟩)
    (hspread : p.spread = true) (hpick : p.pick ≠ []) :
    ∃ items, (values.member? p.name).bind Json.asArray? = some items ∧
      piece.SpreadBy p.pick items (before ++ new ++ after) := by
  obtain ⟨items, hitems, rows, hrows, htext, hvalues⟩ := Param.placeholders_picked h hspread hpick
  have hlength : ∀ row ∈ rows, row.length = p.pick.length := by
    rw [hrows]
    simp
  refine ⟨items, hitems, before.length, ?_, fun j item hitem i field hfield => ?_⟩
  · rw [show piece.text = _ from htext, placeholderRows_eq hlength, hrows, length_map]
  · have hrow : rows[j]? = some (p.pick.map fun field => (item.member? field).getD .null) := by
      rw [hrows, getElem?_map, hitem]
      rfl
    have hbound := getElem?_flatten hlength hrow (i := i) (by rw [getElem?_map, hfield]; rfl)
    rw [show new = rows.flatten from hvalues, Nat.add_assoc, append_assoc,
      getElem?_append_right (Nat.le_add_right _ _), Nat.add_sub_cancel_left,
      getElem?_append_left (List.getElem?_eq_some_iff.1 hbound).1]
    exact hbound

/-- Where each name has one entry, what stands for an occurrence was made from its own entry. -/
theorem Fills.own {params : List (Param τ)} {pieces : List (Piece τ)} {all : List Json}
    (h : Fills values [] [] pieces all) (hocc : pieces.map Piece.occurrence = occurrences params)
    (hnames : (params.map Param.name).Nodup) (hp : p ∈ params) {s : Span} (hs : s ∈ p.spans) :
    ∃ piece ∈ pieces, piece.occurrence = ⟨s, p⟩ ∧ ∃ before new after,
      p.placeholders values before.length = .ok ⟨piece.text, new⟩ ∧
      all = before ++ new ++ after := by
  have hmem : (⟨s, p⟩ : Occurrence τ) ∈ pieces.map Piece.occurrence :=
    hocc ▸ mem_occurrences.2 ⟨hp, hs⟩
  obtain ⟨piece, hpiece, hoccurrence⟩ := mem_map.1 hmem
  obtain ⟨q, hq, hname, before, new, after, hplaceholders, hall⟩ := h.bound hpiece rfl
  have hentry : q.occurrence.param = p := by
    have hqmem : q.occurrence ∈ occurrences params := hocc ▸ mem_map_of_mem hq
    refine inj_on_of_nodup_map hnames (mem_occurrences.1 hqmem).1 hp (hname.trans ?_)
    exact congrArg (·.param.name) hoccurrence
  exact ⟨piece, hpiece, hoccurrence, before, new, after, hentry ▸ hplaceholders, hall⟩

/-! ## Fields of a name -/

/-- The fields that are picked for a name: those of the first entry that picks any. -/
def Interface.picked (q : Interface) (name : String) : List String :=
  (((q.entries.filter (·.name == name)).map Param.pick).find? (!·.isEmpty)).getD []

theorem Param.digest_pick (name : String) (params : List (Param τ)) : (digest name params).pick =
      (((params.filter (·.name == name)).map Param.pick).find? (!·.isEmpty)).getD [] := by
  induction params with
  | nil => rfl
  | cons p rest ih =>
    rw [digest]
    split
    · next hname =>
      rw [filter_cons_of_pos (by simpa using hname), map_cons, find?_cons]
      show (if p.pick.isEmpty then _ else p.pick) = _
      cases hempty : p.pick.isEmpty with
      | true => exact ih
      | false => rfl
    · next hname => rwa [filter_cons_of_neg (by simpa using hname)]

/-- All entries for a name pick the given fields. -/
abbrev Param.Picks (name : String) (fields : List String) (p : Param TypeExpr) : Prop :=
  p.name = name → p.pick = fields

instance (name : String) (fields : List String) :
    Mergeable (Param.Picks name fields) where
  merge {p q} hnames hp hq hname := by
    show (if p.pick.isEmpty then q.pick else p.pick) = fields
    rw [hp hname, hq (hnames ▸ hname), ite_self]

/-! ## Statements -/

namespace Statement

open Extract (names)

/-- The spans of the parameters of a statement end after they start. -/
theorem ordered_spans (h : parseWith tolerant text = .ok st) :
    ∀ p ∈ (st.interface []).allParams, ∀ s ∈ p.spans, s.start ≤ s.stop := by
  intro p hp s hs
  have hlisted : (⟨p.name, s⟩ : Mention) ∈ st.listed := Param.mem_listed.2 ⟨p, hp, rfl, hs⟩
  obtain ⟨ref, href, hmention⟩ := Outline.exists_ref_of_mem_kept (mem_listed.1 hlisted)
  obtain rfl : ref.span = s := congrArg Mention.span hmention
  exact (standsIn_parseWith h ref (st.refs_outline.mem_iff.1 href)).ordered

/-- The entry for an occurrence has its marks, and the fields that are picked for its name. -/
theorem exists_entry (h : parseWith tolerant text = .ok st) (href : ref ∈ st.params)
    (hlisted : ref.mention ∈ st.listed) :
    ∃ p ∈ (st.interface []).allParams, p.name = ref.name ∧ ref.span ∈ p.spans ∧
      (ref.spread = true → p.spread = true) ∧ (ref.pick ≠ [] → p.pick ≠ []) ∧
      p.pick = (st.interface []).picked ref.name := by
  obtain ⟨p, hp, hname, hspan⟩ : ∃ p ∈ (st.interface []).allParams, p.name = ref.name ∧
    ref.span ∈ p.spans := Param.mem_listed.1 hlisted
  obtain ⟨ref', href', hmention, -, hspread, hpick⟩ :=
    Interface.Holds.allParams st.declares_entries p hp ref.span hspan
  have hstands := standsIn_parseWith h
  obtain rfl : ref' = ref :=
    (hstands ref' href').unique (hstands ref href) (congrArg (·.span.start) hmention)
  obtain ⟨hordered, hdigest⟩ := Interface.ordered_allParams st.tidy_interface
  refine ⟨p, hp, hname, hspan, hspread, hpick, ?_⟩
  rw [Interface.picked, ← Param.digest_pick, ← hdigest, ← hname,
    Param.digest_of_mem hordered.names hp]
  rfl

/-- If all occurrences of a name have the same fields, these are picked for it. -/
theorem holds_picks_of_agree (hpick : ref.pick ≠ [])
    (h : ∀ other ∈ st.params, other.name = ref.name → names other.pick = names ref.pick) :
    (st.interface []).Holds (Param.Picks ref.name (names ref.pick)) := by
  refine st.holds_interface fun other hother type pick hown hsame => ?_
  have hfields := h other hother hsame
  rcases hown with hnone | rfl
  · rw [hnone] at hfields
    exact absurd (map_eq_nil_iff.1 hfields.symm) hpick
  · exact hfields

/-- Just the listed occurrences are replaced. Wherever one of a spread parameter with a list of fields
is listed, it is replaced by tuples of placeholders for the fields that are picked for its name.
These are its own if all occurrences of the name have the same list. -/
theorem spread_spliced {text : String} {st : Statement} (h : parse text = .ok st) {values : Json}
    {out : PositionalQuery}
    (hout : positional text (st.interface []).allParams values = .ok out) :
    ∃ (pieces : List (Piece TypeExpr)) (tail : List Char),
      pieces.map Piece.occurrence = occurrences (st.interface []).allParams ∧
      text.toList = Piece.source pieces ++ tail ∧ out.text.toList = Piece.target pieces ++ tail ∧
      Piece.Placed 0 pieces ∧
      ∀ ref ∈ st.params, ref.mention ∈ st.listed → ref.spread = true → ref.pick ≠ [] →
        ∃ piece ∈ pieces, piece.occurrence.span = ref.span ∧ ∃ items,
          (values.member? ref.name).bind Json.asArray? = some items ∧
          piece.SpreadBy ((st.interface []).picked ref.name) items out.values ∧
          ((∀ other ∈ st.params, other.name = ref.name → names other.pick = names ref.pick) →
            (st.interface []).picked ref.name = names ref.pick) := by
  obtain ⟨pieces, tail, hocc, hsource, htarget, hplaced, hfills⟩ :=
    positional_ok (ordered_spans h) hout
  have hnodup := (Interface.ordered_allParams st.tidy_interface).1.names
  refine ⟨pieces, tail, hocc, hsource, htarget, hplaced, fun ref href hlisted hspread hpick => ?_⟩
  obtain ⟨p, hp, hname, hspan, hspread', hpick', hpicked⟩ := exists_entry h href hlisted
  obtain ⟨piece, hpiece, hoccurrence, before, new, after, hplaceholders, hall⟩ :=
    hfills.own hocc hnodup hp hspan
  obtain ⟨items, hitems, hby⟩ :=
    Piece.spreadBy_of_placeholders after hplaceholders (hspread' hspread) (hpick' hpick)
  refine ⟨piece, hpiece, congrArg Occurrence.span hoccurrence, items, hname ▸ hitems, ?_, ?_⟩
  · rw [hall, ← hpicked]
    exact hby
  · intro hagree
    rw [← hpicked]
    exact Interface.Holds.allParams (holds_picks_of_agree hpick hagree) p hp hname

/-- Rows whose fields are not in the order of the columns' names, and of which one lacks a field. -/
def insertRows : String := "INSERT INTO t (a, b) VALUES $$rows(y, x)"

def twoRows : Json :=
  .object [⟨"rows",
    .array [.object [⟨"x", .bool true⟩, ⟨"y", .bool false⟩], .object [⟨"y", .null⟩]]⟩]

theorem spread_spliced_insertRows : ∃ st out, parse insertRows = .ok st ∧
    positional insertRows (st.interface []).allParams twoRows = .ok out ∧
    ∃ ref ∈ st.params, ref.spread = true ∧ ref.pick ≠ [] ∧ ∃ (piece : Piece TypeExpr) (items : _),
      piece.occurrence.span = ref.span ∧ piece.SpreadBy (names ref.pick) items out.values := by
  have hread : (parse insertRows).toOption.any fun st =>
      (positional insertRows (st.interface []).allParams twoRows).isOk &&
        decide (∃ ref ∈ st.params, ref.mention ∈ st.listed ∧ ref.spread = true ∧ ref.pick ≠ [] ∧
          ∀ other ∈ st.params, other.name = ref.name → names other.pick = names ref.pick) := by
    decide +kernel
  obtain ⟨st, hp, hread⟩ := exists_of_toOption_any hread
  obtain ⟨hok, hfacts⟩ := Bool.and_eq_true_iff.1 hread
  obtain ⟨ref, href, hlisted, hspread, hpick, hagree⟩ := of_decide_eq_true hfacts
  obtain ⟨out, hout⟩ := exists_of_isOk hok
  obtain ⟨pieces, -, -, -, -, -, hpieces⟩ := spread_spliced hp hout
  obtain ⟨piece, -, hspan, items, -, hby, hown⟩ := hpieces ref href hlisted hspread hpick
  rw [hown hagree] at hby
  exact ⟨st, out, hp, hout, ref, href, hspread, hpick, piece, items, hspan, hby⟩

-- Two lists for one name: the fields of the outer statement are taken for both.
example : (parse "WITH a AS (INSERT INTO t VALUES $$r(x, y)) INSERT INTO u VALUES $$r(y, x)"
    ).toOption.map (fun st => (st.interface []).picked "r") = some ["y", "x"] := by
  decide +kernel

end Statement

end SqlTyping
