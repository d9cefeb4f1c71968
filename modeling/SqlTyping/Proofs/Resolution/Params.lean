import SqlTyping.Proofs.Params.Digest
import SqlTyping.Proofs.Params.Interface
import SqlTyping.Proofs.Resolution.Run

/-!
# The parameters of a typed interface

Values can be spliced into a statement with the parameters of its interface or with those of its
typed interface. `Interface.allParams` merges the entries of all queries into one list;
`Interface.resolve` merges those of each query first. Both come to the same
(`Statement.untyped_params_resolve`), since both take the queries in one order and merging keeps what
the entries for each name come to.
-/

namespace SqlTyping

open Resolve List

variable {ctx : ResolveContext}

theorem Interface.ordered_allParams {q : Interface} (hq : q.Tidy) : Param.Ordered q.allParams ∧
      ∀ name, Param.digest name q.allParams = Param.digest name q.entries := by
  rw [allParams_eq]
  exact ⟨Param.Ordered.nil.insertAll hq, fun name =>
    (Param.digest_insertAll .nil hq).trans (Digest.empty_join _)⟩

/-! ## Resolution -/

namespace ResolveContext

variable {levels : List Level} {es : List (Param TypeExpr)} {ps : List (Param SqlType)}

/-- Typing a parameter changes its type alone. -/
theorem param_eq_ok {p : Param TypeExpr} {typed : Param SqlType}
    (h : ctx.param levels p = .ok typed) : typed.untyped = p.untyped := by
  rw [param] at h
  cases ht : p.type.resolve (ctx.typeContext levels .other) with
  | error e => rw [ht] at h; cases h
  | ok t => rw [ht] at h; cases h; rfl

/-- An entry can be typed like this in some scope. -/
def Types (ctx : ResolveContext) (e : Param TypeExpr) (p : Param SqlType) : Prop :=
  ∃ levels, ctx.param levels e = .ok p

theorem params_foldl_addParam (typed : TypedInterface) (more : List (Param SqlType)) :
    (more.foldl TypedInterface.addParam typed).params =
      Param.insertAll SqlType.union typed.params more :=
  (foldl_hom TypedInterface.params fun _ _ => rfl).symm

/-- What becomes of entries: each is typed, and those of a query are merged. -/
inductive Merges (ctx : ResolveContext) : List (Param TypeExpr) → List (Param SqlType) → Prop where
  | nil : ctx.Merges [] []
  | single {e : Param TypeExpr} {p : Param SqlType} (h : ctx.Types e p) : ctx.Merges [e] [p]
  | append {es es' : List (Param TypeExpr)} {ps ps' : List (Param SqlType)} (h : ctx.Merges es ps)
      (h' : ctx.Merges es' ps') : ctx.Merges (es ++ es') (ps ++ ps')
  | merge {es : List (Param TypeExpr)} {ps : List (Param SqlType)} (h : ctx.Merges es ps) :
      ctx.Merges es (Param.insertAll SqlType.union [] ps)

theorem Merges.each
    (h : List.Forall₂ (fun e p => ctx.param levels e = .ok p) es ps) : ctx.Merges es ps := by
  induction h with
  | nil => exact .nil
  | cons h _ ih => exact .append (.single ⟨levels, h⟩) ih

theorem Merges.digest (h : ctx.Merges es ps) (hes : ∀ e ∈ es, e.Tidy) :
    (∀ p ∈ ps, p.Tidy) ∧ ∀ name, Param.digest name ps = Param.digest name es := by
  induction h with
  | nil => exact ⟨nofun, fun _ => rfl⟩
  | @single e p h =>
    obtain ⟨levels, h⟩ := h
    have heq := param_eq_ok h
    have hname : p.name = e.name := congrArg Param.name heq
    have hspans : p.spans = e.spans := congrArg Param.spans heq
    have hown : p.own = e.own := by
      have hrequired : p.required = e.required := congrArg Param.required heq
      have hspread : p.spread = e.spread := congrArg Param.spread heq
      have hpick : p.pick = e.pick := congrArg Param.pick heq
      rw [Param.own, Param.own, hspans, hrequired, hspread, hpick]
    refine ⟨fun p' hp => ?_, fun name => ?_⟩
    · obtain rfl := mem_singleton.1 hp
      obtain ⟨hsorted, hchain, hoccurs⟩ := hes e (.head _)
      exact ⟨hspans ▸ hsorted, hspans ▸ hchain, hspans ▸ hoccurs⟩
    · rw [Param.digest, Param.digest, hname, hown]
      rfl
  | append _ _ ih ih' =>
    obtain ⟨hes, hes'⟩ := forall_mem_append.1 hes
    refine ⟨forall_mem_append.2 ⟨(ih hes).1, (ih' hes').1⟩, fun name => ?_⟩
    rw [Param.digest_append, Param.digest_append, (ih hes).2, (ih' hes').2]
  | merge _ ih =>
    obtain ⟨htidy, hdigest⟩ := ih hes
    refine ⟨(Param.Ordered.nil.insertAll htidy).each, fun name => ?_⟩
    rw [Param.digest_insertAll .nil htidy, hdigest]
    exact Digest.empty_join _

end ResolveContext

mutual

/-- The entries of a query come first, and then those of the queries inside it. -/
theorem Interface.merges_resolveIn (q : Interface)
    (h : (q.resolveIn ctx outer).run.run views = (.ok typed, known)) :
    ∃ ps, ctx.Merges q.entries ps ∧ typed.params = Param.insertAll SqlType.union [] ps := by
  match q with
  | ⟨sources, params, results, nullableSources⟩ =>
    obtain ⟨_, _, _, nested, -, hlist, hfinish⟩ := Interface.exists_of_resolveIn h
    obtain ⟨_, own, -, hown, rfl⟩ := ResolveContext.exists_of_finish_eq_ok hfinish
    exact ⟨own ++ nested, .append (.each hown) (Source.merges_resolveList sources hlist),
      ResolveContext.params_foldl_addParam _ _⟩

theorem Source.merges_resolve (source : Source)
    (h : (source.resolve ctx outer level).run.run views = (.ok found, known)) :
    ctx.Merges source.entries found.2 := by
  match source with
  | .table .. =>
    cases h
    exact .nil
  | .query name q isResult =>
    rw [Source.resolve] at h
    obtain ⟨typed, _, htyped, h⟩ := run_bind_ok h
    cases h
    obtain ⟨ps, hps, hparams⟩ := q.merges_resolveIn htyped
    exact hparams ▸ hps.merge
  | .values name columns types isResult =>
    rw [Source.resolve] at h
    obtain ⟨columns, _, -, h⟩ := run_bind_ok h
    cases h
    exact .nil

theorem Source.merges_resolveList (sources : List Source)
    (h : (Source.resolveList ctx sources outer level).run.run views = (.ok found, known)) :
    ctx.Merges (Source.listEntries sources) found.2 := by
  match sources with
  | [] =>
    cases h
    exact .nil
  | source :: rest =>
    rw [Source.resolveList] at h
    obtain ⟨⟨typed, params⟩, _, hfirst, h⟩ := run_bind_ok h
    obtain ⟨⟨level, more⟩, _, hrest, h⟩ := run_bind_ok h
    cases h
    exact .append (source.merges_resolve hfirst) (Source.merges_resolveList rest hrest)

end

theorem Interface.ordered_resolveIn (q : Interface) (hq : q.Tidy)
    (h : (q.resolveIn ctx outer).run.run views = (.ok typed, known)) :
    Param.Ordered typed.params ∧
      ∀ name, Param.digest name typed.params = Param.digest name q.entries := by
  obtain ⟨ps, hmerges, hparams⟩ := q.merges_resolveIn h
  rw [hparams]
  exact ⟨Param.Ordered.nil.insertAll (hmerges.digest hq).1, (hmerges.merge.digest hq).2⟩

/-! ## Statements -/

namespace Statement

/-- The parameters of an interface, with its types or without, are the same entries in the same
order: that of their first occurrence among those listed. Where the recursive queries stand apart
from the queries around them, that is their first occurrence in the statement. -/
theorem untyped_params_resolve {text : String} {st : Statement} (h : parse text = .ok st)
    {store : Store} {mode : ResolveMode} {loaded : TypedInterface}
    (hr : (st.interface []).resolve store mode = .ok loaded) :
    loaded.params.map Param.untyped = (st.interface []).allParams.map Param.untyped ∧
      (st.interface []).allParams.Pairwise (fun p q => p.position < q.position) ∧
      (∀ p ∈ (st.interface []).allParams, ∃ ref ∈ st.params,
        ref.name = p.name ∧ ref.span.start = p.position) ∧
      (st.outline.Apart ∅ → ∀ ref ∈ st.params, ∃ p ∈ (st.interface []).allParams,
        p.name = ref.name ∧ ref.span ∈ p.spans ∧ p.position ≤ ref.span.start) := by
  obtain ⟨hordered, hdigest⟩ := Interface.ordered_allParams st.tidy_interface
  have hapart : Param.Apart (st.interface []).allParams := by
    intro m hm n hn
    rw [Interface.mem_listed_allParams, mentions_interface] at hm hn
    exact eq_of_mem_kept (standsIn_parseWith h) hm hn
  refine ⟨?_, hordered.pairwise_position_lt hapart, fun p hp => ?_, fun ha ref href => ?_⟩
  · have hrun : ((st.interface []).resolveIn (.ofStore store mode) []).run.run [] =
        (.ok loaded, ((st.interface []).resolveWith store mode []).2) := Prod.ext hr rfl
    obtain ⟨htyped, hsame⟩ := (st.interface []).ordered_resolveIn st.tidy_interface hrun
    exact (hordered.untyped_eq htyped hapart fun name =>
      (hdigest name).trans (hsame name).symm).symm
  · obtain ⟨span, hspan, hstart⟩ := Param.exists_position (hordered.each p hp)
    have hlisted : ⟨p.name, span⟩ ∈ st.listed := Param.mem_listed.2 ⟨p, hp, rfl, hspan⟩
    obtain ⟨ref, href, hmention⟩ := exists_param_of_mem_listed hlisted
    refine ⟨ref, href, congrArg Mention.name hmention, ?_⟩
    rw [← hstart]
    exact congrArg (Mention.span · |>.start) hmention
  · have hkept := Outline.mention_mem_kept ha (st.refs_outline.mem_iff.2 href)
    obtain ⟨p, hp, hname, hspan⟩ := Param.mem_listed.1 (mem_listed.2 hkept)
    exact ⟨p, hp, hname, hspan, Param.position_le (hordered.each p hp) hspan⟩

/-- A parameter that occurs in a query and in the query around it, and one further inside. -/
def nestedParams : String :=
  "SELECT $b AS x FROM (SELECT $b AS v FROM (SELECT $$a(f, g) AS w) s) t"

theorem untyped_params_resolve_nestedParams : ∃ st loaded, parse nestedParams = .ok st ∧
    (st.interface []).resolve (.empty []) .strict = .ok loaded ∧ st.outline.Apart ∅ ∧
    st.params.map ParamRef.name = ["b", "b", "a"] ∧
    loaded.params.map Param.untyped = (st.interface []).allParams.map Param.untyped := by
  have hread : (parse nestedParams).toOption.any fun st =>
      ((st.interface []).resolve (.empty []) .strict).isOk &&
        decide (st.outline.Apart ∅ ∧ st.params.map ParamRef.name = ["b", "b", "a"]) := by
    decide +kernel
  obtain ⟨st, hp, hread⟩ := exists_of_toOption_any hread
  obtain ⟨hloads, hfacts⟩ := Bool.and_eq_true_iff.1 hread
  obtain ⟨hapart, hnames⟩ := of_decide_eq_true hfacts
  obtain ⟨loaded, hr⟩ := exists_of_isOk hloads
  exact ⟨st, loaded, hp, hr, hapart, hnames, (untyped_params_resolve hp hr).1⟩

end Statement

end SqlTyping
