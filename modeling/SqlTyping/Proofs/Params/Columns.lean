import SqlTyping.Proofs.Params.Extraction
import SqlTyping.Proofs.Params.Occurrences

/-!
# Columns of rows

In a `VALUES` list a parameter takes the type of the first entry of its row that is no parameter,
its leader. A query inside an entry is named by how many sources there are, and where such a name is
used inside another query, it may stand for one of the queries there. Nothing else passes from one
column to another: if entries of other columns are replaced, the leaders stay, and where the column
takes its type from an entry with a query inside, as many queries come before, then the column keeps
its type, and a parameter that occurs in no other column keeps its entry.
-/

namespace SqlTyping

open Extract List

variable {α : Type} {H : Param TypeExpr → Prop} {same : Prop} {name : String} {j : Nat}
  {s s' t t' u u' : Scope} {e e' : Expr} {left right row : List Expr}

/-! ## Two runs -/

/-- The entry is one of another parameter. -/
abbrev Other (name : String) (p : Param TypeExpr) : Prop := p.name ≠ name

instance : Mergeable (Other name) where
  merge _ hp _ := hp

instance : Mergeable fun _ => True where
  merge _ _ _ := trivial

/-- The entries of a parameter, here and in the queries inside. -/
def Growth.noted (name : String) (g : Growth) : List (Param TypeExpr) × List (Param TypeExpr) :=
  (g.params.filter (·.name == name), (Source.listEntries g.sources).filter (·.name == name))

theorem Growth.noted_append (g h : Growth) : (g.append h).noted name =
    ((g.noted name).1 ++ (h.noted name).1, (g.noted name).2 ++ (h.noted name).2) := by
  simp only [noted, append, Source.listEntries_append, filter_append]

theorem Growth.Holds.noted {g : Growth} (h : g.Holds (Other name)) : g.noted name = ([], []) := by
  refine Prod.ext (filter_eq_nil_iff.2 fun p hp => ?_) (filter_eq_nil_iff.2 fun p hp => ?_)
  · simpa using h.params p hp
  · simpa using Source.forall_mem_listEntries.2 h.sources p hp

/-- A run from `s` to `t` and one from `s'` to `t'` come to the same view and note the same of the
parameter. They come to as many sources if `same` holds. -/
structure Alike (same : Prop) (name : String) (s s' t t' : Scope) : Prop where
  view : t'.view = t.view
  count : same → t'.count = t.count
  noted : ∃ g g' : Growth, s.interface.Grows g t.interface ∧ s'.interface.Grows g' t'.interface ∧
    g'.noted name = g.noted name

namespace Alike

theorem refl (s : Scope) : Alike same name s s s s :=
  ⟨rfl, fun _ => rfl, .none, .none, .same rfl rfl rfl, .same rfl rfl rfl, rfl⟩

/-- Both runs go on. -/
theorem grow (h : Alike same name s s' t t') (hview : u'.view = u.view) {g g' : Growth}
    (hg : t.interface.Grows g u.interface) (hg' : t'.interface.Grows g' u'.interface)
    (hcount : same → g'.sources.length = g.sources.length)
    (hnoted : g'.noted name = g.noted name) : Alike same name s s' u u' := by
  obtain ⟨g₀, g₀', hg₀, hg₀', hnoted₀⟩ := h.noted
  refine ⟨hview, fun hsame => ?_, _, _, hg₀.trans hg, hg₀'.trans hg', ?_⟩
  · rw [hg.count, hg'.count, h.count hsame, hcount hsame]
  · rw [Growth.noted_append, Growth.noted_append, hnoted₀, hnoted]

/-- An action goes on in the same way in both runs, if it adds no source or there are as many. -/
theorem acts (h : Alike same name s s' t t') {x : Extract α} (hx : Acts .free H x t)
    (hcount : t'.count = t.count ∨ (x.run t).2.count = t.count) :
    (x.run t').1 = (x.run t).1 ∧ Alike same name s s' (x.run t).2 (x.run t').2 := by
  obtain ⟨g, -, -, hall⟩ := hx
  have hgrows := (hall t (.refl t)).2.1
  have hnone (heq : (x.run t).2.count = t.count) : g.sources = [] := by
    rw [hgrows.count] at heq
    exact length_eq_zero_iff.1 (Nat.left_eq_add.1 heq.symm)
  obtain ⟨hvalue, hgrows', hview⟩ := hall t'
    ⟨h.view, hcount.symm.imp_left fun heq => ⟨rfl, hnone heq⟩⟩
  exact ⟨hvalue, h.grow hview hgrows hgrows' (fun _ => rfl) rfl⟩

/-- If there was no entry of the parameter before, both runs end with the same one. -/
theorem filter_allParams (h : Alike same name s s t t')
    (hs : ∀ p ∈ s.interface.params, p.name ≠ name) :
    t'.interface.allParams.filter (·.name == name) =
      t.interface.allParams.filter (·.name == name) := by
  obtain ⟨g, g', hg, hg', hnoted⟩ := h.noted
  have hnone : s.interface.params.filter (·.name == name) = [] :=
    filter_eq_nil_iff.2 fun p hp => by simpa using hs p hp
  have hentries {q : Interface} {g : Growth} (hg : s.interface.Grows g q) :
      q.allParams.filter (·.name == name) = List.foldl (flip (Param.put TypeExpr.unionOf)) []
        ((g.noted name).1.foldl (flip (Param.put TypeExpr.unionOf)) [] ++
          ((Source.listEntries s.interface.sources).filter (·.name == name) ++
            (g.noted name).2)) := by
    rw [Interface.allParams_eq, Param.filter_insertAll (by simp), filter_nil,
      Interface.entries_eq, filter_append, hg.params, Param.filter_insertAll (by simp [hnone]),
      hnone, hg.sources, Source.listEntries_append, filter_append]
    rfl
  rw [hentries hg, hentries hg', hnoted]

end Alike

/-! ## Entries -/

/-- The typing of one entry of a row. -/
abbrev typing (e : Expr) : Extract Operand := Operand.of e.param? (inferExpr e none)

/-- The entries have equally many queries inside. -/
def Expr.SameSources (e e' : Expr) : Prop :=
  ∀ t : Scope, ((typing e).run t).2.count = ((typing e').run t).2.count

/-- The entry has no query inside. -/
def Expr.AddsNone (e : Expr) : Prop := ∀ t : Scope, ((typing e).run t).2.count = t.count

theorem Expr.addsNone_of_param? (h : e.param?.isSome) : e.AddsNone := fun t => by
  obtain ⟨ref, hp⟩ := Option.isSome_iff_exists.1 h
  rw [typing, hp]
  rfl

theorem Scope.Proper.any (h : t.Proper H) : t.Proper fun _ => True :=
  ⟨inferInstance, fun n hn => ⟨(h.named n hn).isNamedQuery, fun _ _ => trivial⟩,
    fun source hs => ⟨(h.outer source hs).isNamedQuery, fun _ _ => trivial⟩⟩

theorem Scope.Proper.congr (h : t.Proper H) (hnamed : t'.view.named = t.view.named)
    (houter : t'.view.outer = t.view.outer) : t'.Proper H := by
  refine ⟨h.merge, fun n hn => ?_, fun source hs => h.outer source ?_⟩
  · have hmem : n.source ∈ t.view.named := hnamed ▸ mem_map_of_mem hn
    obtain ⟨m, hm, heq⟩ := mem_map.1 hmem
    exact heq ▸ h.named m hm
  · exact (houter ▸ hs : source ∈ t.view.outer)

theorem Scope.Proper.acts {H' : Param TypeExpr → Prop} {x : Extract α} (h : t.Proper H)
    (hx : Acts .free H' x t) : (x.run t).2.Proper H := by
  obtain ⟨-, -, hquiet, -⟩ := hx
  exact h.congr (by rw [hquiet nofun]) (by rw [hquiet nofun])

theorem acts_typing (he : Started H e.params) (ht : t.Proper H) : Acts .free H (typing e) t :=
  (tracks_operand (m := ∅) (does_inferExpr e none)
    (fun ref href => he ref ((Outline.refs_ofExpr e).mem_iff.1 href)) t ht).2.2.2

/-- What is typed in place of an entry changes nothing for a parameter that neither mentions. -/
theorem Alike.entry (h : Alike same name s s' t t') (he : Started (Other name) e.params)
    (he' : Started (Other name) e'.params) (hcount : same → e.SameSources e')
    (ht : t.Proper (Other name)) :
    Alike same name s s' ((typing e).run t).2 ((typing e').run t').2 := by
  have ht' : t'.Proper (Other name) := ht.congr (by rw [h.view]) (by rw [h.view])
  obtain ⟨g, hg, hquiet, hall⟩ := acts_typing he ht
  obtain ⟨g', hg', hquiet', hall'⟩ := acts_typing he' ht'
  have hgrows := (hall t (.refl t)).2.1
  refine h.grow ?_ hgrows (hall' t' (.refl t')).2.1 (fun hsame => ?_) ?_
  · rw [hquiet nofun, hquiet' nofun, h.view]
  · have hgrows' := (hall' t ⟨h.view.symm, .inr (h.count hsame).symm⟩).2.1
    exact Nat.add_left_cancel (hgrows'.count.symm.trans ((hcount hsame t).symm.trans hgrows.count))
  · rw [hg.noted, hg'.noted]

/-! ## Rows -/

theorem run_mapM_append_cons {β : Type} (f : α → Extract β) (l r : List α) (a : α) (t : Scope) :
    let before := (l.mapM f).run t
    let first := (f a).run before.2
    let after := (r.mapM f).run first.2
    ((l ++ a :: r).mapM f).run t = (before.1 ++ first.1 :: after.1, after.2) := by
  rw [mapM_append, mapM_cons]
  rfl

variable (row) in
theorem inferOperands_eq_mapM : inferOperands row none = row.mapM typing := by
  induction row with
  | nil => rw [inferOperands, mapM_nil]
  | cons e rest ih => rw [inferOperands, ih, mapM_cons]

theorem acts_operands (row : List Expr) (ht : t.Proper H) :
    Acts .free (fun _ => True) (row.mapM typing) t := by
  rw [← inferOperands_eq_mapM]
  exact (gathers_inferOperands row none ∅ (fun _ _ _ _ _ => trivial) t ht.any).2.2.2

/-- The parameter that an operand is. -/
def Operand.ref? : Operand → Option ParamRef
  | .param ref => some ref
  | .typed _ => none

theorem ref?_typing (e : Expr) (t : Scope) : ((typing e).run t).1.ref? = e.param? := by
  cases hp : e.param? <;> simp only [typing, hp] <;> rfl

/-- The operands that are parameters are the entries that are parameters. -/
theorem map_ref?_operands (row : List Expr) (t : Scope) :
    ((row.mapM typing).run t).1.map Operand.ref? = row.map Expr.param? := by
  induction row generalizing t with
  | nil => rfl
  | cons e rest ih =>
    rw [mapM_cons, map_cons, ← ih ((typing e).run t).2, ← ref?_typing e t]
    rfl

theorem length_operands (row : List Expr) (t : Scope) :
    ((row.mapM typing).run t).1.length = row.length := by
  simpa only [length_map] using congrArg List.length (map_ref?_operands row t)

/-- The first entry of a row that is no parameter. -/
def leader (row : List Expr) : Option Expr := row.find? (·.param?.isNone)

/-- The leader is typed first of all entries. -/
theorem findSome?_operands (row : List Expr) (t : Scope) :
    ((row.mapM typing).run t).1.findSome? Operand.type? =
      (leader row).bind fun e => ((typing e).run t).1.type? := by
  induction row with
  | nil => rfl
  | cons e rest ih =>
    rw [mapM_cons, leader]
    cases hp : e.param? with
    | none =>
      rw [find?_cons_of_pos (by simp [hp]), Option.bind_some]
      simp only [typing, hp]
      rfl
    | some ref =>
      rw [find?_cons_of_neg (by simp [hp])]
      simp only [typing, hp]
      exact ih

/-- The type that the parameters among the operands share. -/
abbrev Operand.shared (operands : List Operand) : TypeExpr :=
  (operands.findSome? type?).getD (.known .unknown)

/-- An entry for one occurrence of a parameter. -/
def ParamRef.entry (type : TypeExpr) (ref : ParamRef) : Param TypeExpr :=
  ⟨ref.name, type, [ref.span], ref.required, ref.spread, names ref.pick⟩

theorem settle_run (shared : TypeExpr) (operands : List Operand) (t : Scope) :
    let result := StateT.run (operands.mapM fun
      | .param ref => useParam ref (some shared)
      | .typed type => (return type : Extract TypeExpr)) t
    result.1 = operands.map (·.type?.getD shared) ∧ result.2.view = t.view ∧
      t.interface.Grows ⟨[], (operands.filterMap Operand.ref?).map (ParamRef.entry shared), []⟩
        result.2.interface := by
  induction operands generalizing t with
  | nil => exact ⟨rfl, rfl, .same rfl rfl rfl⟩
  | cons operand rest ih =>
    rw [mapM_cons]
    cases operand with
    | typed type =>
      obtain ⟨hvalue, hview, hgrows⟩ := ih t
      exact ⟨congrArg (type :: ·) hvalue, hview, hgrows⟩
    | param ref =>
      obtain ⟨hvalue, hview, hgrows⟩ := ih ((useParam ref (some shared)).run t).2
      have hnote : t.interface.Grows ⟨[], [ref.entry shared], []⟩
          ((useParam ref (some shared)).run t).2.interface :=
        ⟨(append_nil _).symm, rfl, (append_nil _).symm⟩
      exact ⟨congrArg (shared :: ·) hvalue, hview, hnote.trans hgrows⟩

/-- The types of a row. -/
abbrev typeRow (row : List Expr) : Extract (List TypeExpr) := do
  Operand.settle (← row.mapM typing) none

theorem typeRow_run (row : List Expr) (t : Scope) :
    let operands := (row.mapM typing).run t
    let shared := Operand.shared operands.1
    let result := (typeRow row).run t
    result.1 = operands.1.map (·.type?.getD shared) ∧ result.2.view = operands.2.view ∧
      operands.2.interface.Grows ⟨[], (row.filterMap Expr.param?).map (ParamRef.entry shared), []⟩
        result.2.interface := by
  have hrefs := congrArg (List.filterMap id) (map_ref?_operands row t)
  simp only [filterMap_map, Function.id_comp] at hrefs
  exact hrefs ▸ settle_run _ _ _

/-- The parameter occurs in no other column. -/
def OnlyIn (j : Nat) (name : String) (row : List Expr) : Prop :=
  ∀ i e, i ≠ j → row[i]? = some e → ∀ ref ∈ e.params, ref.name ≠ name

/-- The entry that gives the column its type in a row. -/
def origin (j : Nat) (row : List Expr) : Option Expr :=
  row[j]?.bind fun e => if e.param?.isSome then leader row else some e

theorem origin_of_isSome (h : (row[j]?.bind Expr.param?).isSome) : origin j row = leader row := by
  obtain ⟨ref, href⟩ := Option.isSome_iff_exists.1 h
  obtain ⟨e, he, hp⟩ := Option.bind_eq_some_iff.1 href
  rw [origin, he, Option.bind_some, hp]
  rfl

theorem mem_params_of_param? {ref : ParamRef} (h : e.param? = some ref) : ref ∈ e.params := by
  have hperm := Outline.refs_ofExpr e
  rw [ofExpr_of_param? e h] at hperm
  exact hperm.mem_iff.1 (mem_singleton_self ref)

/-- If the parameter is an entry of the row, it is the entry of its column. -/
theorem OnlyIn.isSome (h : OnlyIn j name row) {ref : ParamRef}
    (href : ref ∈ row.filterMap Expr.param?) (hname : ref.name = name) :
    (row[j]?.bind Expr.param?).isSome := by
  obtain ⟨e, he, hp⟩ := mem_filterMap.1 href
  obtain ⟨i, hi⟩ := getElem?_of_mem he
  by_cases hij : i = j
  · rw [← hij, hi, Option.bind_some, hp]
    rfl
  · exact absurd hname (h i e hij hi ref (mem_params_of_param? hp))

/-- An entry of a row goes on in the same way where it has no query inside. The others do not matter
to the parameter. -/
theorem Alike.operands (h : Alike same name s s' t t') (ht : t.Proper (Other name))
    (hrow : OnlyIn j name row) (hcount : same ∨ ∀ e ∈ row[j]?, e.AddsNone) :
    let result := (row.mapM typing).run t
    let result' := (row.mapM typing).run t'
    Alike same name s s' result.2 result'.2 ∧ result'.1[j]? = result.1[j]? := by
  rcases hcount with hsame | hnone
  · obtain ⟨hvalue, halike⟩ := h.acts (acts_operands row ht) (.inl (h.count hsame))
    exact ⟨halike, by rw [hvalue]⟩
  induction row generalizing j t t' with
  | nil => exact ⟨h, rfl⟩
  | cons e rest ih =>
    rw [mapM_cons]
    cases j with
    | zero =>
      have hacts : Acts .free (fun _ => True) (typing e) t :=
        acts_typing (fun _ _ _ _ _ => trivial) ht.any
      obtain ⟨hvalue, halike⟩ := h.acts hacts (.inr (hnone e rfl t))
      have hrest : OnlyIn rest.length name rest := fun i e' _ he' => hrow (i + 1) e' (by simp) he'
      obtain ⟨halike', -⟩ := ih halike (ht.acts hacts) hrest (by simp)
      exact ⟨halike', congrArg some hvalue⟩
    | succ j =>
      have he : Started (Other name) e.params := fun ref href _ _ _ => hrow 0 e (by simp) rfl ref href
      exact ih (h.entry he he (fun _ _ => rfl) ht) (ht.acts (acts_typing he ht))
        (fun i e' hi he' => hrow (i + 1) e' (by simpa using hi) he') fun e' he' => hnone e' he'

/-- The parameters among the entries get their type. -/
theorem Alike.settle {row' : List Expr}
    (h : Alike same name s s' ((row.mapM typing).run t).2 ((row'.mapM typing).run t').2)
    (hcolumn : ((row'.mapM typing).run t').1[j]? = ((row.mapM typing).run t).1[j]?)
    (hrow : OnlyIn j name row)
    (hrefs : (row'.filterMap Expr.param?).filter (·.name == name) =
      (row.filterMap Expr.param?).filter (·.name == name))
    (hshared : (row[j]?.bind Expr.param?).isSome →
      Operand.shared ((row'.mapM typing).run t').1 = Operand.shared ((row.mapM typing).run t).1) :
    Alike same name s s' ((typeRow row).run t).2 ((typeRow row').run t').2 ∧
      ((typeRow row').run t').1[j]? = ((typeRow row).run t).1[j]? := by
  obtain ⟨hvalue, hview, hgrows⟩ := typeRow_run row t
  obtain ⟨hvalue', hview', hgrows'⟩ := typeRow_run row' t'
  refine ⟨h.grow (by rw [hview, hview', h.view]) hgrows hgrows' (fun _ => rfl) ?_, ?_⟩
  · refine Prod.ext ?_ rfl
    have hnames (type : TypeExpr) : (fun p : Param TypeExpr => p.name == name) ∘
        ParamRef.entry type = fun ref => ref.name == name := rfl
    simp only [Growth.noted, filter_map, hnames, hrefs]
    -- Where the parameter is an entry, it is so in its column.
    cases hl : (row.filterMap Expr.param?).filter (·.name == name) with
    | nil => rfl
    | cons ref rest =>
      obtain ⟨hmem, hname⟩ := mem_filter.1 (hl ▸ mem_cons_self : ref ∈ List.filter _ _)
      rw [hshared (hrow.isSome hmem (eq_of_beq hname))]
  · rw [hvalue, hvalue', getElem?_map, getElem?_map, hcolumn]
    have hrefs := congrArg (·[j]?) (map_ref?_operands row t)
    simp only [getElem?_map] at hrefs
    cases ho : ((row.mapM typing).run t).1[j]? with
    | none => rfl
    | some o =>
      cases o with
      | typed type => rfl
      | param ref =>
        rw [ho] at hrefs
        obtain ⟨e₀, he₀, hp⟩ := Option.map_eq_some_iff.1 hrefs.symm
        rw [hshared (by rw [he₀, Option.bind_some, hp]; rfl)]

/-- The column takes its type from an entry of the row with no query inside. -/
structure Settled (j : Nat) (name : String) (row : List Expr) : Prop where
  only : OnlyIn j name row
  origin : ∀ e ∈ origin j row, e.AddsNone

/-- The types of rows have the same width and the same type in the column. -/
abbrev SameColumn (j : Nat) (row row' : List TypeExpr) : Prop :=
  row'.length = row.length ∧ row'[j]? = row[j]?

theorem length_typeRow (row : List Expr) (t : Scope) :
    ((typeRow row).run t).1.length = row.length := by
  rw [(typeRow_run row t).1, length_map, length_operands]

theorem Settled.typeRow_alike (h : Settled j name row) (ha : Alike same name s s' t t')
    (ht : t.Proper (Other name)) :
    Alike same name s s' ((typeRow row).run t).2 ((typeRow row).run t').2 ∧
      ((typeRow row).run t').1[j]? = ((typeRow row).run t).1[j]? := by
  have hentry : ∀ e ∈ row[j]?, e.AddsNone := fun e he => by
    by_cases hp : e.param?.isSome
    · exact Expr.addsNone_of_param? hp
    · exact h.origin e (by rw [SqlTyping.origin, he, Option.bind_some, if_neg hp]; rfl)
  obtain ⟨halike, hcolumn⟩ := ha.operands ht h.only (.inr hentry)
  refine halike.settle hcolumn h.only rfl fun hp => ?_
  rw [Operand.shared, Operand.shared, findSome?_operands, findSome?_operands]
  cases hleader : leader row with
  | none => rfl
  | some e =>
    have hacts : Acts .free (fun _ => True) (typing e) t :=
      acts_typing (fun _ _ _ _ _ => trivial) ht.any
    have hnone := h.origin e (by rw [origin_of_isSome hp, hleader]; rfl)
    rw [Option.bind_some, Option.bind_some, (ha.acts hacts (.inr (hnone t))).1]

theorem inferValueRows_eq_mapM (rows : List (List Expr)) :
    inferValueRows rows = rows.mapM typeRow := by
  induction rows with
  | nil => rw [inferValueRows, mapM_nil]
  | cons row rest ih => simp [inferValueRows, ih, mapM_cons, inferOperands_eq_mapM]

theorem acts_rows (rows : List (List Expr)) (ht : t.Proper H) :
    Acts .free (fun _ => True) (rows.mapM typeRow) t := by
  rw [← inferValueRows_eq_mapM]
  exact (does_inferValueRows rows (fun _ _ _ _ _ => trivial) t ht.any).2.2

theorem acts_typeRow (row : List Expr) (ht : t.Proper H) :
    Acts .free (fun _ => True) (typeRow row) t := by
  obtain ⟨g, hg, hquiet, hall⟩ := acts_rows [row] ht
  exact ⟨g, hg, hquiet, fun u hu => ⟨(cons.inj (hall u hu).1).1, (hall u hu).2⟩⟩

theorem Alike.rows (h : Alike same name s s' t t') (ht : t.Proper (Other name))
    {rows : List (List Expr)} (hrows : same ∨ ∀ row ∈ rows, Settled j name row) :
    let result := (rows.mapM typeRow).run t
    let result' := (rows.mapM typeRow).run t'
    Alike same name s s' result.2 result'.2 ∧ Forall₂ (SameColumn j) result.1 result'.1 := by
  rcases hrows with hsame | hrows
  · obtain ⟨hvalue, halike⟩ := h.acts (acts_rows rows ht) (.inl (h.count hsame))
    exact ⟨halike, hvalue ▸ forall₂_same.2 fun _ _ => ⟨rfl, rfl⟩⟩
  induction rows generalizing t t' with
  | nil => exact ⟨h, .nil⟩
  | cons row rest ih =>
    obtain ⟨hrow, hrest⟩ := forall_mem_cons.1 hrows
    obtain ⟨halike, hcolumn⟩ := hrow.typeRow_alike h ht
    obtain ⟨halike', hcolumns⟩ := ih halike (ht.acts (acts_typeRow row ht)) hrest
    rw [mapM_cons]
    have hlength := (length_typeRow row t').trans (length_typeRow row t).symm
    exact ⟨halike', .cons ⟨hlength, hcolumn⟩ hcolumns⟩

/-- Rows with as many entries, and the same ones in the column, give it the same type. -/
theorem columnsOf_congr {rows rows' : List (List TypeExpr)} (h : Forall₂ (SameColumn j) rows rows') :
    (columnsOf rows')[j]? = (columnsOf rows)[j]? := by
  have hkept : rows'.map List.length = rows.map List.length ∧
      rows'.filterMap (·[j]?) = rows.filterMap (·[j]?) := by
    induction h with
    | nil => exact ⟨rfl, rfl⟩
    | cons hrow _ ih => simp only [map_cons, filterMap_cons, hrow.1, hrow.2, ih, and_self]
  simp only [columnsOf, getElem?_map, hkept.1]
  cases hj : (List.range _)[j]? with
  | none => rfl
  | some i =>
    obtain ⟨hlt, rfl⟩ := List.getElem?_eq_some_iff.1 hj
    simp only [getElem_range, Option.map_some, hkept.2]

/-! ## Replaced entries -/

/-- One entry of another column is replaced, and the column takes its type from the same entry. The
parameter occurs in no other column. If the new entry has more or less queries inside, an entry of
the column that comes later has none. -/
structure Replaced (j : Nat) (name : String) (left right : List Expr) (e e' : Expr) : Prop where
  column : left.length ≠ j
  origin : origin j (left ++ e' :: right) = origin j (left ++ e :: right)
  only : OnlyIn j name (left ++ e :: right)
  only' : OnlyIn j name (left ++ e' :: right)
  later : e.SameSources e' ∨ (left.length < j → ∀ x ∈ (left ++ e :: right)[j]?, x.AddsNone)

theorem getElem?_append_cons (l r : List α) (a : α) (i : Nat) :
    (l ++ a :: r)[l.length + i + 1]? = r[i]? := by
  rw [Nat.add_assoc, getElem?_append_right (Nat.le_add_right _ _), Nat.add_sub_cancel_left,
    getElem?_cons_succ]

theorem Replaced.operands_alike (h : Replaced j name left right e e')
    (ha : Alike (e.SameSources e') name s s' t t) (ht : t.Proper (Other name)) :
    let result := ((left ++ e :: right).mapM typing).run t
    let result' := ((left ++ e' :: right).mapM typing).run t
    Alike (e.SameSources e') name s s' result.2 result'.2 ∧ result'.1[j]? = result.1[j]? := by
  have hother {e : Expr} (hrow : OnlyIn j name (left ++ e :: right)) :
      Started (Other name) e.params :=
    fun ref href _ _ _ => hrow left.length e h.column (by simp) ref href
  have hleft := acts_operands left ht
  have hproper := ht.acts hleft
  have hentry := (ha.acts hleft (.inl rfl)).2.entry (hother h.only) (hother h.only') id hproper
  have hproper' := hproper.acts (acts_typing (hother h.only) hproper)
  have hlength := length_operands left t
  simp only [run_mapM_append_cons]
  rcases Nat.lt_or_gt_of_ne h.column with hlt | hgt
  · obtain ⟨k, rfl⟩ := Nat.exists_eq_add_of_lt hlt
    have hlater := h.later
    rw [getElem?_append_cons] at hlater
    obtain ⟨halike, hcolumn⟩ := hentry.operands hproper' (j := k)
      (fun i x hi hx => h.only (left.length + i + 1) x (by omega) (by rwa [getElem?_append_cons]))
      (hlater.imp_right fun hnone => hnone hlt)
    rw [← hlength, getElem?_append_cons, getElem?_append_cons]
    exact ⟨halike, hcolumn⟩
  · obtain ⟨halike, -⟩ := hentry.operands hproper' (j := right.length)
      (fun i x _ hx => h.only (left.length + i + 1) x (by omega) (by rwa [getElem?_append_cons]))
      (.inr (by simp))
    rw [← hlength] at hgt
    exact ⟨halike, by rw [getElem?_append_left hgt, getElem?_append_left hgt]⟩

theorem Replaced.typeRow_alike (h : Replaced j name left right e e')
    (ha : Alike (e.SameSources e') name s s' t t) (ht : t.Proper (Other name)) :
    let result := (typeRow (left ++ e :: right)).run t
    let result' := (typeRow (left ++ e' :: right)).run t
    Alike (e.SameSources e') name s s' result.2 result'.2 ∧ result'.1[j]? = result.1[j]? := by
  obtain ⟨halike, hcolumn⟩ := h.operands_alike ha ht
  have hrefs {e : Expr} (hrow : OnlyIn j name (left ++ e :: right)) :
      ((left ++ e :: right).filterMap Expr.param?).filter (·.name == name) =
        ((left ++ right).filterMap Expr.param?).filter (·.name == name) := by
    cases hp : e.param? with
    | none => simp [hp]
    | some ref =>
      have hne : ref.name ≠ name :=
        hrow left.length e h.column (by simp) ref (mem_params_of_param? hp)
      simp [hp, hne]
  have hentry : (left ++ e' :: right)[j]? = (left ++ e :: right)[j]? := by
    have hj := h.column
    grind
  refine halike.settle hcolumn h.only ((hrefs h.only').trans (hrefs h.only).symm) fun hp => ?_
  have hleader := h.origin
  rw [origin_of_isSome hp, origin_of_isSome (hentry ▸ hp)] at hleader
  rw [Operand.shared, findSome?_operands, hleader, ← findSome?_operands]

/-- An entry is replaced in one row. If the new one has more or less queries inside, the column takes
its type from entries with none in the rows that come later. -/
inductive Replaces (j : Nat) (name : String) : List (List Expr) → List (List Expr) → Prop
  | step (above below : List (List Expr)) (left right : List Expr) (e e' : Expr)
      (h : Replaced j name left right e e')
      (hbelow : e.SameSources e' ∨ ∀ row ∈ below, Settled j name row) :
      Replaces j name (above ++ (left ++ e :: right) :: below)
        (above ++ (left ++ e' :: right) :: below)

theorem Replaces.values_alike {rows rows' : List (List Expr)} (h : Replaces j name rows rows')
    (span : Span) (hs : s.Proper (Other name)) :
    let result := (inferValues ⟨rows, span⟩).run s
    let result' := (inferValues ⟨rows', span⟩).run s
    (∃ same, Alike same name s s result.2 result'.2) ∧ result'.1[j]? = result.1[j]? := by
  obtain ⟨above, below, left, right, e, e', h, hbelow⟩ := h
  have habove := acts_rows above hs
  have hproper := hs.acts habove
  obtain ⟨hchanged, hcolumn⟩ := h.typeRow_alike ((Alike.refl s).acts habove (.inl rfl)).2 hproper
  obtain ⟨halike, hcolumns⟩ := hchanged.rows (hproper.acts (acts_typeRow _ hproper)) hbelow
  have hrun (rows : List (List Expr)) : (inferValues ⟨rows, span⟩).run s =
      (columnsOf ((rows.mapM typeRow).run s).1, ((rows.mapM typeRow).run s).2) := by
    rw [inferValues, inferValueRows_eq_mapM]
    rfl
  simp only [hrun, run_mapM_append_cons]
  refine ⟨⟨_, halike⟩, columnsOf_congr (rel_append (forall₂_same.2 fun _ _ => ⟨rfl, rfl⟩) (.cons
    ⟨?_, hcolumn⟩ hcolumns))⟩
  rw [length_typeRow, length_typeRow, length_append, length_append, length_cons, length_cons]

/-- If entries of other columns are replaced, but for those that the column takes its type from, it
keeps its type, and a parameter that occurs in no other keeps its entry. A `VALUES` query shows the
columns. -/
theorem Values.column_independent {rows rows' : List (List Expr)}
    (h : Relation.ReflTransGen (Replaces j name) rows rows') (span : Span)
    (hs : s.Proper (Other name)) (hparams : ∀ p ∈ s.interface.params, p.name ≠ name) :
    let typed (rows : List (List Expr)) := (inferValues ⟨rows, span⟩).run s
    (typed rows').1[j]? = (typed rows).1[j]? ∧
      (typed rows').2.interface.allParams.filter (·.name == name) =
        (typed rows).2.interface.allParams.filter (·.name == name) ∧
      ∀ rows, extractValues ⟨rows, span⟩ = inferValues ⟨rows, span⟩ >>= (addRows · span) := by
  intro typed
  have hkept : (typed rows').1[j]? = (typed rows).1[j]? ∧
      (typed rows').2.interface.allParams.filter (·.name == name) =
        (typed rows).2.interface.allParams.filter (·.name == name) := by
    induction h with
    | refl => exact ⟨rfl, rfl⟩
    | tail _ hstep ih =>
      obtain ⟨⟨_, halike⟩, hcolumn⟩ := hstep.values_alike span hs
      exact ⟨hcolumn.trans ih.1, (halike.filter_allParams hparams).trans ih.2⟩
  refine ⟨hkept.1, hkept.2, fun rows => ?_⟩
  rw [extractValues, inferValues]
  rfl

/-- `VALUES (1, $p, 'x')` becomes `VALUES (1, $p, EXISTS (VALUES (2)))`. -/
theorem Values.column_independent_last :
    let row (last : Expr) : List Expr :=
      [.literal (.number "1") ⟨8, 9⟩, .param ⟨"p", false, false, [], ⟨11, 13⟩⟩, last]
    let old := row (.literal (.string "x") ⟨15, 18⟩)
    let new := row (.existsRow ⟨none, .values ⟨[[.literal (.number "2") ⟨31, 32⟩]], ⟨23, 33⟩⟩, [],
      none, none, [], ⟨23, 33⟩⟩ ⟨15, 34⟩)
    let typed (row : List Expr) := (inferValues ⟨[row], ⟨0, 19⟩⟩).run (.fresh [] [])
    Relation.ReflTransGen (Replaces 1 "p") [old] [new] ∧ (typed new).1[1]? = (typed old).1[1]? ∧
      (typed new).2.interface.allParams.filter (·.name == "p") =
        (typed old).2.interface.allParams.filter (·.name == "p") := by
  intro row old new typed
  have honly {last : Expr} (hlast : last.params = []) : OnlyIn 1 "p" (row last) := by
    rintro (_ | _ | _ | i) e hi he ref href
    · cases he
      cases href
    · exact absurd rfl hi
    · cases he
      rw [hlast] at href
      cases href
    · cases he
  have hstep : Replaces 1 "p" [old] [new] :=
    .step [] [] [_, _] [] _ _ ⟨by decide, rfl, honly rfl, honly rfl,
      .inr fun hlater => absurd hlater (by decide)⟩ (.inr (forall_mem_nil _))
  have hkept := column_independent (.single hstep) ⟨0, 19⟩
    (Scope.proper_fresh (forall_mem_nil _) []) (forall_mem_nil _)
  exact ⟨.single hstep, hkept.1, hkept.2.1⟩

end SqlTyping
