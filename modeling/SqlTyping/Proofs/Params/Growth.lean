import SqlTyping.Proofs.Params.Scope

/-!
# What an action adds

The extraction of an interface reads only a part of its scope: the view, which has the named queries,
how many result columns there are and the types that are expected, and how many sources there are. In
all scopes that agree in this an action gives the same and adds the same sources, parameters and
result columns (`Acts`). In an expression the number of sources is read where a query inside is named,
so it is of no account if there is none.
-/

namespace SqlTyping

open Extract List

/-- What an action may do to its scope, apart from adding sources and parameters. -/
inductive Manner where
  /-- It may change the view. -/
  | loud
  | quiet
  /-- It is quiet, and the number of sources is of no account if it adds none. -/
  | free

variable {H : Param TypeExpr → Prop} {α β : Type} {b : Manner} {s : Scope} {g h : Growth}
  {q q' : Interface}

structure View where
  named : List Source
  outer : List Source
  expected : List TypeExpr
  results : Nat

/-- What extraction reads of a scope, apart from the number of sources. -/
def Scope.view (s : Scope) : View where
  named := s.named.map NamedQuery.source
  outer := s.outer
  expected := s.expected
  results := s.interface.results.length

/-- How many sources there are. -/
abbrev Scope.count (s : Scope) : Nat := s.interface.sources.length

structure Growth where
  sources : List Source
  params : List (Param TypeExpr)
  results : List ResultColumn

namespace Growth

def none : Growth := ⟨[], [], []⟩

def append (g h : Growth) : Growth :=
  ⟨g.sources ++ h.sources, g.params ++ h.params, g.results ++ h.results⟩

structure Holds (H : Param TypeExpr → Prop) (g : Growth) : Prop where
  sources : ∀ source ∈ g.sources, source.Holds H
  params : ∀ p ∈ g.params, H p

theorem holds_none : none.Holds H := ⟨nofun, nofun⟩

theorem Holds.append (hg : g.Holds H) (hh : h.Holds H) : (g.append h).Holds H :=
  ⟨forall_mem_append.2 ⟨hg.sources, hh.sources⟩, forall_mem_append.2 ⟨hg.params, hh.params⟩⟩

end Growth

/-- What has been added to an interface. Nothing is said of what is nullable. -/
structure Interface.Grows (q : Interface) (g : Growth) (q' : Interface) : Prop where
  sources : q'.sources = q.sources ++ g.sources
  params : q'.params = Param.insertAll TypeExpr.unionOf q.params g.params
  results : q'.results = q.results ++ g.results

namespace Interface.Grows

theorem same (hsources : q'.sources = q.sources) (hparams : q'.params = q.params)
    (hresults : q'.results = q.results) : q.Grows .none q' :=
  ⟨by simp [hsources, Growth.none], hparams, by simp [hresults, Growth.none]⟩

theorem count {t : Scope} (hg : s.interface.Grows g t.interface) :
    t.count = s.count + g.sources.length := by
  rw [Scope.count, hg.sources, length_append]

theorem trans {q'' : Interface} (hg : q.Grows g q') (hh : q'.Grows h q'') :
    q.Grows (g.append h) q'' where
  sources := by rw [hh.sources, hg.sources, append_assoc]; rfl
  params := by rw [hh.params, hg.params]; exact foldl_append.symm
  results := by rw [hh.results, hg.results, append_assoc]; rfl

theorem holds [Mergeable H] (h : q.Grows g q') (hq : q.Holds H)
    (hg : g.Holds H) : q'.Holds H := by
  obtain ⟨hparams, hsources⟩ := q.holds_iff.1 hq
  refine q'.holds_iff.2 ⟨?_, ?_⟩
  · rw [h.params]
    exact Param.forall_insertAll hparams hg.params
  · rw [h.sources]
    exact forall_mem_append.2 ⟨hsources, hg.sources⟩

end Interface.Grows

/-- The scopes have one view, and equally many sources where that is of account. -/
structure Scope.Fits (b : Manner) (g : Growth) (s t : Scope) : Prop where
  view : t.view = s.view
  count : b = .free ∧ g.sources = [] ∨ t.count = s.count

namespace Scope.Fits

theorem refl (s : Scope) : s.Fits b g s := ⟨rfl, .inr rfl⟩

theorem none {t : Scope} (ht : s.Fits b g t) : s.Fits b .none t :=
  ⟨ht.view, ht.count.imp_left fun h => ⟨h.1, rfl⟩⟩

end Scope.Fits

/-- In every scope that fits `s` the action gives and adds the same. If it is quiet, the view stays as
it is. -/
def Acts (b : Manner) (H : Param TypeExpr → Prop) (x : Extract α) (s : Scope) : Prop :=
  ∃ g : Growth, g.Holds H ∧ (b ≠ .loud → (x.run s).2.view = s.view) ∧
    ∀ t : Scope, s.Fits b g t → (x.run t).1 = (x.run s).1 ∧
      t.interface.Grows g (x.run t).2.interface ∧ (x.run t).2.view = (x.run s).2.view

namespace Acts

variable {x : Extract α} {f : α → Extract β}

theorem loud (h : Acts .quiet H x s) : Acts .loud H x s := by
  obtain ⟨g, hg, -, hall⟩ := h
  exact ⟨g, hg, fun h => (h rfl).elim, fun t ht =>
    hall t ⟨ht.view, ht.count.imp_left fun h => nomatch h.1⟩⟩

theorem pure (a : α) : Acts b H (pure a) s :=
  ⟨.none, Growth.holds_none, fun _ => rfl, fun _ ht => ⟨rfl, .same rfl rfl rfl, ht.view⟩⟩

theorem bind (hx : Acts b H x s) (hf : Acts b H (f (x.run s).1) (x.run s).2) :
    Acts b H (x >>= f) s := by
  obtain ⟨g, hg, hquiet, h⟩ := hx
  obtain ⟨g', hg', hquiet', h'⟩ := hf
  refine ⟨g.append g', hg.append hg', fun hb => ?_, fun t ht => ?_⟩
  · exact (hquiet' hb).trans (hquiet hb)
  · have hcount := ht.count.imp_left fun hnone => And.imp_right append_eq_nil_iff.1 hnone
    obtain ⟨ha, hgrows, hview⟩ := h t ⟨ht.view, hcount.imp_left fun hnone => ⟨hnone.1, hnone.2.1⟩⟩
    obtain ⟨ha', hgrows', hview'⟩ := h' _ ⟨hview, hcount.imp (fun hnone => ⟨hnone.1, hnone.2.2⟩)
      fun heq => by rw [hgrows.count, heq, ← (h s (.refl s)).2.1.count]⟩
    have hrun : (x >>= f).run t = (f (x.run s).1).run (x.run t).2 := by
      rw [← ha]
      rfl
    rw [hrun]
    exact ⟨ha', hgrows.trans hgrows', hview'⟩

/-- What is read of the scope is the same for all scopes that fit. -/
theorem reading {γ : Type} {r : Scope → γ} {y : γ → Extract α}
    (hr : ∀ t : Scope, s.Fits b .none t → r t = r s) (hx : ∀ t, x.run t = (y (r t)).run t)
    (hy : Acts b H (y (r s)) s) : Acts b H x s := by
  obtain ⟨g, hg, hquiet, h⟩ := hy
  rw [← hx] at hquiet
  refine ⟨g, hg, hquiet, fun t ht => ?_⟩
  rw [hx t, hx s, hr t ht.none]
  exact h t ht

theorem modify {change : Scope → Scope} (hg : g.Holds H) (see : View → View)
    (hgrows : ∀ t : Scope, t.interface.Grows g (change t).interface)
    (hsee : ∀ t : Scope, (change t).view = see t.view)
    (hquiet : b ≠ .loud → see s.view = s.view) : Acts b H (modify change) s := by
  refine ⟨g, hg, fun hb => (hsee s).trans (hquiet hb), fun t ht => ⟨rfl, hgrows t, ?_⟩⟩
  show (change t).view = (change s).view
  rw [hsee, hsee, ht.view]

end Acts

namespace Scope

theorem view_markUsed (s : Scope) (name : String) :
    (s.markUsed name).view = s.view ∧ (s.markUsed name).interface = s.interface := by
  unfold markUsed
  split
  · exact ⟨by simp [view, source_useFirst], rfl⟩
  · split <;> exact ⟨rfl, rfl⟩

theorem view_foldl_markUsed (s : Scope) (names : List String) :
    (names.foldl markUsed s).view = s.view ∧ (names.foldl markUsed s).interface = s.interface := by
  induction names generalizing s with
  | nil => exact ⟨rfl, rfl⟩
  | cons name rest ih =>
    exact ⟨(ih _).1.trans (s.view_markUsed name).1, (ih _).2.trans (s.view_markUsed name).2⟩

theorem visible_congr {s t : Scope} (h : t.view = s.view) : t.visible = s.visible := by
  rw [visible_eq, visible_eq, show t.outer = s.outer from congrArg View.outer h,
    show t.named.map _ = s.named.map _ from congrArg View.named h]

theorem findNamed?_eq_or (s : Scope) (name : String) :
    s.findNamed? name = (s.view.named.find? (·.isNamed name)).or
      (s.view.outer.find? fun source => source.isNamedQuery && source.isNamed name) := by
  rw [findNamed?, view, find?_map]
  change _ = ((s.named.find? (·.source.isNamed name)).map _).or _
  cases s.named.find? (·.source.isNamed name) <;> rfl

end Scope

theorem acts_markAll (names : List String) :
    Acts b H (modify fun s => names.foldl Scope.markUsed s) s := by
  refine .modify Growth.holds_none id (fun t => ?_) (fun t => (t.view_foldl_markUsed names).1)
    fun _ => rfl
  rw [(t.view_foldl_markUsed names).2]
  exact .same rfl rfl rfl

theorem useNamed_run (s : Scope) {name : String} : (useNamed name).run s =
      ((s.findNamed? name), if (s.findNamed? name).isSome then s.markUsed name else s) := by
  rw [useNamed, StateT.run_bind, StateT.run_get, pure_bind]
  cases s.findNamed? name <;> rfl

theorem acts_useNamed (name : String) : Acts b H (useNamed name) s := by
  refine .reading (r := (·.findNamed? name)) (y := fun found => do
      modify fun s : Scope => if found.isSome then s.markUsed name else s
      return found)
    (fun t ht => by rw [Scope.findNamed?_eq_or, Scope.findNamed?_eq_or, ht.view]) (useNamed_run ·) ?_
  cases s.findNamed? name with
  | none => exact (acts_markAll []).bind (.pure _)
  | some source => exact (acts_markAll [name]).bind (.pure _)

theorem acts_addNamed (source : Source) : Acts .loud H (addNamed source) s :=
  .modify Growth.holds_none (fun v => { v with named := v.named ++ [source] })
    (fun _ => .same rfl rfl rfl) (fun t => by simp [Scope.view]) fun h => (h rfl).elim

theorem acts_inScope (outer : List Source) (expected : List TypeExpr) (body : Extract Unit) :
    Acts b H (inScope outer expected body) s :=
  (acts_markAll _).bind (.pure _)

theorem acts_nested (expected : List TypeExpr) (body : Extract Unit) :
    Acts b H (nested expected body) s :=
  .reading (y := fun outer => inScope outer expected body)
    (fun _ ht => Scope.visible_congr ht.view) (fun _ => rfl) (acts_inScope _ _ _)

theorem acts_recursiveQuery (name : String) (columns : List Ident) (first whole : Extract Unit) :
    Acts b H (recursiveQuery name columns first whole) s :=
  .reading (y := fun outer => inScope outer [] first >>= fun start =>
      inScope (.query name (start.renameResults (names columns)) true ::
        outer.filter (!·.isNamed name)) [] whole)
    (fun _ ht => Scope.visible_congr ht.view) (fun _ => rfl)
    ((acts_inScope _ _ _).bind (acts_inScope _ _ _))

end SqlTyping
