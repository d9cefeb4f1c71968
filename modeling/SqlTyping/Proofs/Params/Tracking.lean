import SqlTyping.Proofs.Params.Growth

/-!
# Extraction follows the outline

The extraction of an interface changes the ledger of its scope as the outline of the tree does.
`Does` says this of an action; there is one lemma for each way to put actions together, one for each
basic action, and then one for each construct of the language. Along the way every entry keeps a
property `H`, which is only to be shown of entries for single occurrences and of merged ones.

Some actions find parameters and leave them to a later one, which knows their type. They are pending
until then; `Tracks` says what is pending before and after.
-/

namespace SqlTyping

open List
open Text (fold)
open Extract Outline

variable {H : Param TypeExpr → Prop} {α β : Type} {b b' : Manner} {m : Finset Mention}
  {o o₁ o₂ : Outline} {body : Extract Unit} {a : α} {g : α → β} {rest : α → Finset Mention}
  {Q : α → Prop} {source : Source} {ref : ParamRef} {infer : Extract TypeExpr}
  {operands : List Operand} {pending : Finset Mention} {arg : Expr} {args : List Expr}
  {q : Interface} {f : Interface → Extract α} (name : String)

/-! ## Putting actions together -/

/-- Every entry for the occurrence alone has the property. If it picks no fields, those of the
columns of an `INSERT` may be picked. -/
def ParamRef.Starts (H : Param TypeExpr → Prop) (ref : ParamRef) : Prop :=
  ∀ type pick, ref.pick = [] ∨ pick = names ref.pick →
    H ⟨ref.name, type, [ref.span], ref.required, ref.spread, pick⟩

def Started (H : Param TypeExpr → Prop) (refs : List ParamRef) : Prop := ∀ ref ∈ refs, ref.Starts H

def Does (b : Manner) (H : Param TypeExpr → Prop) (x : Extract α) (o : Outline) : Prop :=
  Started H o.refs → ∀ s : Scope, s.Proper H →
    (x.run s).2.Proper H ∧ (x.run s).2.ledger = o.run s.ledger ∧ Acts b H x s

/-- What is said of the result holds, too. -/
def Tracks (b : Manner) (H : Param TypeExpr → Prop) (pending : Finset Mention) (x : Extract α)
    (rest : α → Finset Mention) (Q : α → Prop := fun _ => True) (o : Outline := skip) : Prop :=
  Started H o.refs → ∀ s : Scope, s.Proper H → (x.run s).2.Proper H ∧ Q (x.run s).1 ∧
    (x.run s).2.ledger.note (rest (x.run s).1) = (o.run s.ledger).note pending ∧ Acts b H x s

/-- The outlines say the same, and the first one has all parameters of the second. -/
structure Outline.Covers (o₁ o₂ : Outline) : Prop where
  run : ∀ l, o₁.run l = o₂.run l
  refs : o₂.refs ⊆ o₁.refs

theorem Outline.covers_seq_skip (o : Outline) : o.Covers (o.seq skip) :=
  ⟨fun _ => rfl, by simp [Outline.refs]⟩

theorem Outline.covers_skip_seq (o : Outline) : o.Covers (skip.seq o) :=
  ⟨fun _ => rfl, fun _ h => h⟩

theorem Started.seq (h : Started H (o₁.seq o₂).refs) : Started H o₁.refs ∧ Started H o₂.refs :=
  forall_mem_append.1 h

namespace Tracks

variable {x : Extract α} {f : α → Extract β} {rest : α → Finset Mention}
  {rest' : β → Finset Mention} {Q : α → Prop} {P : β → Prop}

theorem bind (hx : Tracks b H m x rest Q o₁)
    (hf : ∀ a, Q a → Tracks b H (rest a) (f a) rest' P o₂) :
    Tracks b H m (x >>= f) rest' P (o₁.seq o₂) := by
  intro h s hs
  obtain ⟨hp, hq, hl, ha⟩ := hx h.seq.1 s hs
  obtain ⟨hp', hq', hl', ha'⟩ := hf (x.run s).1 hq h.seq.2 (x.run s).2 hp
  refine ⟨hp', hq', hl'.trans ?_, ha.bind ha'⟩
  rw [← run_note, hl, run_note]
  rfl

theorem give (h : rest a = m) (hq : Q a) : Tracks b H m (pure a) rest Q skip :=
  fun _ s hs => ⟨hs, hq, by rw [← h]; rfl, .pure a⟩

theorem pure (h : rest a = m) : Tracks b H m (pure a) rest := .give h trivial

theorem congr (h : Tracks b H m x rest Q o₁) (ho : o₂.Covers o₁) : Tracks b H m x rest Q o₂ := by
  intro hstarted s hs
  obtain ⟨hp, hq, hl, ha⟩ := h (fun ref href => hstarted ref (ho.refs href)) s hs
  exact ⟨hp, hq, by rw [ho.run, hl], ha⟩

/-- What comes last only takes up what is pending. -/
theorem close (hx : Tracks b H m x rest Q o)
    (hf : ∀ a, Q a → Tracks b H (rest a) (f a) rest' P skip) :
    Tracks b H m (x >>= f) rest' P o :=
  (hx.bind hf).congr o.covers_seq_skip

/-- What comes first only takes up what is pending. -/
theorem before (hx : Tracks b H m x rest Q skip) (hf : ∀ a, Tracks b H (rest a) (f a) rest' P o) :
    Tracks b H m (x >>= f) rest' P o :=
  (hx.bind fun a _ => hf a).congr o.covers_skip_seq

theorem andReturn (hx : Tracks b H m x rest Q o) (hg : ∀ a, rest' (g a) = rest a) :
    Tracks b H m (x >>= fun a => Pure.pure (g a)) rest' (fun _ => True) o :=
  hx.close fun a _ => .pure (hg a)

theorem does (h : Tracks b H ∅ x (fun _ => ∅) Q o) : Does b H x o := by
  intro hstarted s hs
  obtain ⟨hp, -, hl, ha⟩ := h hstarted s hs
  rw [Ledger.note_empty, Ledger.note_empty] at hl
  exact ⟨hp, hl, ha⟩

end Tracks

namespace Does

variable {x : Extract α} {f : α → Extract β}

theorem tracks (h : Does b H x o) (m : Finset Mention) :
    Tracks b H m x (fun _ => m) (fun _ => True) o := by
  intro hstarted s hs
  obtain ⟨hp, hl, ha⟩ := h hstarted s hs
  exact ⟨hp, trivial, by rw [hl], ha⟩

theorem loud (h : Does .quiet H x o) : Does .loud H x o := by
  intro hstarted s hs
  obtain ⟨hp, hl, ha⟩ := h hstarted s hs
  exact ⟨hp, hl, ha.loud⟩

theorem pure (a : α) : Does b H (pure a) skip := fun _ _ hs => ⟨hs, rfl, .pure a⟩

theorem bind (hx : Does b H x o₁) (hf : ∀ a, Does b H (f a) o₂) :
    Does b H (x >>= f) (o₁.seq o₂) := by
  intro h s hs
  obtain ⟨hp, hl, ha⟩ := hx h.seq.1 s hs
  obtain ⟨hp', hl', ha'⟩ := hf (x.run s).1 h.seq.2 (x.run s).2 hp
  exact ⟨hp', hl'.trans (by rw [hl]; rfl), ha.bind ha'⟩

theorem congr (h : Does b H x o₁) (ho : o₂.Covers o₁) : Does b H x o₂ :=
  ((h.tracks ∅).congr ho).does

theorem close (hx : Does b H x o) (hf : ∀ a, Does b H (f a) skip) : Does b H (x >>= f) o :=
  (hx.bind hf).congr o.covers_seq_skip

theorem andReturn (hx : Does b H x o) : Does b H (x >>= fun a => Pure.pure (g a)) o :=
  hx.close fun a => .pure (g a)

/-- What comes first does nothing to the ledger. -/
theorem after (hx : Does b H x skip) (hf : ∀ a, Does b H (f a) o) : Does b H (x >>= f) o :=
  (hx.bind hf).congr o.covers_skip_seq

end Does

/-! ## Basic actions -/

theorem does_read {read : Scope → α} (h : ∀ s t : Scope, s.Fits b .none t → read t = read s) :
    Does b H (do return read (← get)) skip :=
  fun _ s hs => ⟨hs, rfl, .reading (h s) (fun _ => rfl) (.pure (read s))⟩

/-- The action takes a name that no identifier has, for a source that it adds. -/
theorem Tracks.freshName {f : String → Extract α} (h : ∀ name, Tracks b H m (f name) rest Q o)
    (hadds : ∀ name (s : Scope), ((f name).run s).2.interface.sources ≠ s.interface.sources) :
    Tracks b H m (get >>= fun s => f s.syntheticName) rest Q o := by
  intro hstarted s hs
  obtain ⟨hp, hq, hl, g, hg, hquiet, hall⟩ := h s.syntheticName hstarted s hs
  refine ⟨hp, hq, hl, g, hg, hquiet, fun t ht => ?_⟩
  have hcount : t.count = s.count := ht.count.resolve_left fun ⟨_, hnone⟩ =>
    hadds s.syntheticName s (by rw [(hall s (.refl s)).2.1.sources, hnone, append_nil])
  have hname : t.syntheticName = s.syntheticName :=
    congrArg (fun count => "#subquery" ++ toString (count + 1)) hcount
  have hrun : (get >>= fun s : Scope => f s.syntheticName).run t = (f s.syntheticName).run t :=
    congrArg (fun name => (f name).run t) hname
  rw [hrun]
  exact hall t ht

/-- Changes to the result columns and to what is nullable. -/
theorem does_modifyInterface {f : Interface → Interface}
    (h : ∀ q, (f q).sources = q.sources ∧ (f q).params = q.params)
    (ha : ∀ s, Acts b H (modifyInterface f) s) : Does b H (modifyInterface f) skip := by
  intro _ s hs
  obtain ⟨hsources, hparams⟩ := h s.interface
  have hentries := Interface.entries_congr hsources hparams
  refine ⟨⟨hs.merge, hs.named, hs.outer⟩, ?_, ha s⟩
  exact congrArg (fun entries => { s.ledger with kept := (Param.listed entries).toFinset }) hentries

theorem does_addResult (type : TypeExpr) (span : Span) :
    Does .loud H (addResult name type span) skip :=
  does_modifyInterface (fun _ => ⟨rfl, rfl⟩) fun s =>
    .modify (g := ⟨[], [], [⟨name, type, span⟩]⟩) ⟨nofun, nofun⟩
      (fun v => { v with results := v.results + 1 })
      (fun t => ⟨(append_nil _).symm, rfl, rfl⟩)
      (fun t => by simp [Scope.view, Interface.addResult]) fun h => (h rfl).elim

theorem does_markNullable (start stop : Nat) : Does b H (markNullable start stop) skip := by
  have hfold : ∀ (sources : List Source) (r : Interface),
      r.Grows .none (sources.foldl (fun q source => q.setNullable source.name) r) := by
    intro sources
    induction sources with
    | nil => exact fun r => .same rfl rfl rfl
    | cons source rest ih =>
      intro r
      have hset : r.Grows .none (r.setNullable source.name) := by
        unfold Interface.setNullable
        split <;> exact .same rfl rfl rfl
      exact hset.trans (ih _)
  refine does_modifyInterface (fun q => ⟨?_, (hfold _ q).params⟩) fun s =>
    .modify Growth.holds_none id (fun t => hfold _ _) (fun t => ?_) fun _ => rfl
  · exact (hfold _ q).sources.trans (append_nil _)
  · simp [Scope.view, (hfold _ t.interface).results, Growth.none]

/-- A source is added whose parameters were pending. -/
theorem tracks_addSource (h : source.Holds H) :
    Tracks b H (m ∪ source.mentions) (addSource source) (fun _ => m) := by
  intro _ s hs
  refine ⟨⟨hs.merge, hs.named, hs.outer⟩, trivial, ?_, .modify
    (g := ⟨[source], [], []⟩) ⟨forall_mem_singleton.2 h, nofun⟩ id
    (fun t => ⟨rfl, rfl, (append_nil _).symm⟩) (fun _ => rfl) fun _ => rfl⟩
  have hledger : ((addSource source).run s).2.ledger = s.ledger.note source.mentions :=
    congrArg (fun kept => { s.ledger with kept }) (Interface.mentions_addSource _ _)
  rw [hledger, Ledger.note_note, Finset.union_comm]
  rfl

theorem does_addSource (h : source.Holds H) (hm : source.mentions = ∅) :
    Does b H (addSource source) skip := by
  refine Tracks.does (Q := fun _ => True) ?_
  have ht : Tracks b H (∅ ∪ source.mentions) (addSource source) (fun _ => ∅) := tracks_addSource h
  rwa [hm, Finset.union_empty] at ht

theorem does_addParam (ref : ParamRef) (type : TypeExpr) {pick : List String}
    (hpick : ref.pick = [] ∨ pick = names ref.pick) :
    Does b H (addParam ref type pick) (param ref) := by
  intro h s hs
  have hstarts := h ref (mem_singleton_self ref) type pick hpick
  refine ⟨⟨hs.merge, hs.named, hs.outer⟩, ?_, .modify (g := ⟨[], [_], []⟩)
    ⟨nofun, forall_mem_singleton.2 hstarts⟩ id
    (fun t => ⟨(append_nil _).symm, rfl, (append_nil _).symm⟩) (fun _ => rfl)
    fun _ => rfl⟩
  exact congrArg (fun kept => { s.ledger with kept }) (Interface.mentions_addParam _ _)

theorem does_useParam (ref : ParamRef) (expected : Option TypeExpr) :
    Does b H (useParam ref expected) (param ref) :=
  (does_addParam ref _ (.inr rfl)).andReturn

/-- A parameter that was pending is noted. -/
theorem tracks_useParam (h : ref.Starts H) (expected : Option TypeExpr) :
    Tracks b H (m ∪ {ref.mention}) (useParam ref expected) (fun _ => m) := by
  intro _ s hs
  obtain ⟨hp, hl, ha⟩ := does_useParam ref expected (forall_mem_singleton.2 h) s hs
  refine ⟨hp, trivial, ?_, ha⟩
  rw [hl, Finset.union_comm, ← Ledger.note_note]
  rfl

/-! ## Operands -/

/-- The parameters that are pending. -/
def Operand.mentions : Operand → Finset Mention
  | .param ref => {ref.mention}
  | .typed _ => ∅

/-- If the operand is a parameter, entries may start with it. -/
def Operand.Starts (H : Param TypeExpr → Prop) (operand : Operand) : Prop :=
  ∀ ref, operand = .param ref → ref.Starts H

@[simp] def Operand.mentionsAll : List Operand → Finset Mention
  | [] => ∅
  | operand :: rest => operand.mentions ∪ mentionsAll rest

@[simp] theorem Operand.mentionsAll_append (a b : List Operand) :
    mentionsAll (a ++ b) = mentionsAll a ∪ mentionsAll b := by
  induction a with
  | nil => simp [mentionsAll]
  | cons operand rest ih => rw [cons_append, mentionsAll, ih, mentionsAll, Finset.union_assoc]

theorem ofExpr_of_isNullLiteral (e : Expr) (h : e.isNullLiteral = true) : ofExpr e = skip := by
  cases e with
  | nested inner _ => exact ofExpr_of_isNullLiteral inner h
  | literal => rfl
  | _ => cases h

theorem ofExpr_of_param? (e : Expr) (h : e.param? = some ref) : ofExpr e = param ref := by
  cases e with
  | nested inner _ => exact ofExpr_of_param? inner h
  | param ref' =>
    cases h
    rfl
  | _ => cases h

theorem tracks_operand {e : Expr} (h : Does b H infer (ofExpr e)) :
    Tracks b H m (Operand.of e.param? infer) (fun operand => m ∪ operand.mentions)
      (Operand.Starts H) (ofExpr e) := by
  cases hp : e.param? with
  | none => exact (h.tracks m).close fun _ _ => .give (Finset.union_empty m) nofun
  | some ref =>
    rw [ofExpr_of_param? e hp]
    intro hstarted s hs
    refine ⟨hs, fun other hother => ?_, ?_, .pure _⟩
    · cases hother
      exact hstarted ref (mem_singleton_self ref)
    · show s.ledger.note (m ∪ {ref.mention}) = (s.ledger.note {ref.mention}).note m
      rw [Ledger.note_note, Finset.union_comm]

/-- The operands are found, and the parameters among them are pending. -/
abbrev Gathers (b : Manner) (H : Param TypeExpr → Prop) (m : Finset Mention)
    (x : Extract (List Operand)) (o : Outline) : Prop :=
  Tracks b H m x (fun operands => m ∪ Operand.mentionsAll operands)
    (fun operands => ∀ operand ∈ operands, operand.Starts H) o

theorem Gathers.nil : Gathers b H m (pure []) skip := .give (Finset.union_empty m) nofun

theorem Gathers.cons {x : Extract Operand} {xs : Extract (List Operand)}
    (hx : Tracks b H m x (fun operand => m ∪ operand.mentions) (Operand.Starts H) o₁)
    (hxs : ∀ m, Gathers b H m xs o₂) :
    Gathers b H m (x >>= fun a => xs >>= fun as => pure (a :: as)) (o₁.seq o₂) :=
  hx.bind fun _ ha => (hxs _).close fun _ has =>
    .give (by simp) (forall_mem_cons.2 ⟨ha, has⟩)

theorem tracks_settleAll (h : ∀ operand ∈ operands, operand.Starts H) (shared : TypeExpr) :
    Tracks b H (m ∪ Operand.mentionsAll operands) (operands.mapM fun
        | .param ref => useParam ref (some shared)
        | .typed type => pure type)
      (fun _ => m) := by
  induction operands with
  | nil => exact .pure (Finset.union_empty m).symm
  | cons operand rest ih =>
    obtain ⟨hoperand, hrest⟩ := forall_mem_cons.1 h
    rw [mapM_cons, Operand.mentionsAll, Finset.union_comm operand.mentions, ← Finset.union_assoc]
    have hhead : Tracks b H (m ∪ Operand.mentionsAll rest ∪ operand.mentions) (match operand with
          | .param ref => useParam ref (some shared)
          | .typed type => pure type)
        (fun _ => m ∪ Operand.mentionsAll rest) := by
      cases operand with
      | param ref => exact tracks_useParam (hoperand ref rfl) _
      | typed type => exact .pure (Finset.union_empty _).symm
    exact hhead.close fun _ _ => (ih hrest).andReturn fun _ => rfl

/-- The operands get their types, and the parameters among them are noted. -/
theorem tracks_settle (hoperands : ∀ operand ∈ operands, operand.Starts H)
    (expected : Option TypeExpr) (h : pending = m ∪ Operand.mentionsAll operands) :
    Tracks b H pending (Operand.settle operands expected) (fun _ => m) :=
  h ▸ tracks_settleAll hoperands _

theorem tracks_operatorType {left right : Operand} (hleft : left.Starts H) (hright : right.Starts H)
    (symbol : String) (span : Span) (h : pending = m ∪ Operand.mentionsAll [left, right]) :
    Tracks b H pending (operatorType symbol left right span) (fun _ => m) := by
  have hside : ∀ (m : Finset Mention) (operand : Operand) (type : TypeExpr), operand.Starts H →
      Tracks b H (m ∪ operand.mentions) (match operand with
          | .param ref => do let _ ← useParam ref (some type)
          | .typed _ => pure ())
        (fun _ => m) := by
    intro m operand type hoperand
    cases operand with
    | param ref => exact (tracks_useParam (hoperand ref rfl) _).andReturn fun _ => rfl
    | typed _ => exact .pure (Finset.union_empty _).symm
  have hpending : pending = m ∪ right.mentions ∪ left.mentions := by
    rw [h, Operand.mentionsAll, Operand.mentionsAll, Operand.mentionsAll, Finset.union_empty,
      Finset.union_comm left.mentions, Finset.union_assoc]
  rw [hpending, operatorType]
  exact (hside _ left _ hleft).close fun _ _ => (hside _ right _ hright).andReturn fun _ => rfl

/-! ## Arguments of calls -/

/-- The parameters among arguments, whose types the function decides. -/
def direct (args : List Expr) : Finset Mention :=
  ((args.filterMap Expr.param?).map ParamRef.mention).toFinset

theorem direct_cons (arg : Expr) (args : List Expr) :
    direct (arg :: args) = direct [arg] ∪ direct args := by
  rw [direct, ← singleton_append, filterMap_append, map_append, toFinset_append]
  rfl

theorem direct_of_none (h : arg.param? = none) : direct [arg] = ∅ := by
  simp [direct, h]

theorem direct_of_some (h : arg.param? = some ref) : direct [arg] = {ref.mention} := by
  simp [direct, h]

/-- An argument that is a parameter is pending. -/
theorem tracks_argument (h : Does b H infer (ofExpr arg)) :
    Tracks b H m (Operand.of arg.param? infer) (fun _ => m ∪ direct [arg])
      (fun _ => Started H ([arg].filterMap Expr.param?)) (ofExpr arg) := by
  intro hstarted s hs
  obtain ⟨hp, -, hl, ha⟩ := tracks_operand (m := m) h hstarted s hs
  refine ⟨hp, ?_⟩
  rw [← hl]
  cases hparam : arg.param? with
  | none =>
    rw [direct_of_none hparam]
    exact ⟨by simp [hparam, Started], rfl, hparam ▸ ha⟩
  | some ref =>
    rw [direct_of_some hparam]
    rw [ofExpr_of_param? arg hparam] at hstarted
    exact ⟨by simpa [hparam, Outline.refs] using hstarted, rfl, hparam ▸ ha⟩

theorem tracks_useAll {refs : List ParamRef} (h : Started H refs) :
    Tracks b H (m ∪ (refs.map ParamRef.mention).toFinset)
      (refs.forM fun ref => do let _ ← useParam ref none) (fun _ => m) := by
  induction refs with
  | nil => exact .pure (Finset.union_empty m).symm
  | cons ref rest ih =>
    obtain ⟨href, hrest⟩ := forall_mem_cons.1 h
    rw [map_cons, toFinset_cons, Finset.insert_eq, Finset.union_comm {ref.mention},
      ← Finset.union_assoc]
    exact ((tracks_useParam href none).andReturn fun _ => rfl).close fun _ _ => ih hrest

theorem tracks_useArgs (h : Started H (args.filterMap Expr.param?)) (n : Nat)
    (type : Nat → TypeExpr) :
    Tracks b H (m ∪ direct args) ((args.zipIdx n).forM fun (arg, i) =>
        match arg.param? with
        | some ref => do let _ ← useParam ref (some (type i))
        | none => pure ())
      (fun _ => m) := by
  induction args generalizing n with
  | nil => exact .pure (Finset.union_empty m).symm
  | cons arg rest ih =>
    rw [← singleton_append, filterMap_append] at h
    obtain ⟨harg, hrest⟩ := forall_mem_append.1 h
    have hhead : Tracks b H (m ∪ direct rest ∪ direct [arg]) (match arg.param? with
          | some ref => do let _ ← useParam ref (some (type n))
          | none => pure ())
        (fun _ => m ∪ direct rest) := by
      cases h : arg.param? with
      | none =>
        rw [direct_of_none h]
        exact .pure (Finset.union_empty _).symm
      | some ref =>
        rw [direct_of_some h]
        exact (tracks_useParam (harg ref (by simp [h])) _).andReturn fun _ => rfl
    rw [zipIdx_cons, direct_cons, Finset.union_comm (direct [arg]), ← Finset.union_assoc]
    exact hhead.close fun _ _ => ih hrest (n + 1)

theorem tracks_callType (h : Started H (args.filterMap Expr.param?)) (name : ObjectName)
    (types : List TypeExpr) (star : Bool) (span : Span) :
    Tracks b H (m ∪ direct args) (callType name args types star span) (fun _ => m) := by
  rw [callType]
  split
  · exact .andReturn (tracks_useAll h) fun _ => rfl
  · have htype := tracks_useArgs (b := b) (m := m) h 0 fun i =>
      .functionArgument (name.schema.map Ident.value) name.name.value types i span
    exact .andReturn htype fun _ => rfl

/-! ## Sources and names -/

theorem tracks_addSubquery (h : q.Holds H) :
    Tracks b H (m ∪ q.mentions) (addSubquery q) (fun _ => m) := by
  have hsource : ∀ name, Tracks b H (m ∪ q.mentions) (addSource (.query name q false)) (fun _ => m) :=
    fun name => tracks_addSource (show (Source.query name q false).Holds H from h)
  exact .freshName (f := fun name => do addSource (.query name q false); return name)
    (fun name => (hsource name).andReturn fun _ => rfl)
    fun _ _ h => cons_ne_nil _ _ (append_right_eq_self.1 h)

theorem tracks_addValueSubquery (h : q.Holds H) (span : Span) :
    Tracks b H (m ∪ q.mentions) (addValueSubquery q span) (fun _ => m) := by
  refine (tracks_addSubquery h).close fun name _ => ?_
  split
  · split <;> exact .pure rfl
  · exact .pure rfl

theorem holds_renamed (h : q.Holds H) (columns : List Ident) (isResult : Bool) :
    (Source.query name (q.renameResults (names columns)) isResult).Holds H := by
  show ∀ p ∈ (q.renameResults (names columns)).entries, H p
  rw [q.entries_renameResults]
  exact h

theorem tracks_addDerived (h : q.Holds H) (asName : Option TableAlias) (isResult : Bool) :
    Tracks b H (m ∪ q.mentions) (addDerived q asName isResult) (fun _ => m) := by
  cases asName with
  | none =>
    exact .freshName (f := fun name => addSource (.query name q isResult))
      (fun name => tracks_addSource (show (Source.query name q isResult).Holds H from h))
      fun _ _ h => cons_ne_nil _ _ (append_right_eq_self.1 h)
  | some asName =>
    rw [← q.mentions_renameResults (names asName.columns)]
    exact tracks_addSource (holds_renamed asName.name.value h asName.columns isResult)

theorem does_table (name : ObjectName) (asName : Option TableAlias) (isResult : Bool)
    (span : Span) :
    Does b H (addTable name asName isResult span)
      (if name.schema.isNone then table name.name.value else skip) := by
  have htable : Does b H (addSource (.table (name.schema.map Ident.value) name.name.value
      (asName.map (·.name.value)) isResult span)) skip := does_addSource nofun rfl
  rw [addTable]
  split
  · intro hstarted s hs
    have hfind := Scope.findNamed?_eq hs name.name.value
    rw [StateT.run_bind, useNamed_run]
    cases hf : s.findNamed? name.name.value with
    | none =>
      rw [hf] at hfind
      simp only [Outline.run, ← hfind]
      obtain ⟨hp, hl, ha⟩ := htable (forall_mem_nil _) s hs
      exact ⟨hp, hl, (acts_useNamed _).bind (by rwa [useNamed_run, hf])⟩
    | some source =>
      have hsource := Scope.nameable_of_findNamed? hs hf
      have hadd : Tracks b H (∅ ∪ source.mentions)
          (addSource ((source.aliased asName).withResult isResult)) (fun _ => ∅) := by
        rw [Source.mentions, ← Source.entries_aliased asName, ← Source.entries_withResult isResult]
        refine tracks_addSource ?_
        rw [Source.Holds, Source.entries_withResult, Source.entries_aliased]
        exact hsource.holds
      obtain ⟨hp, -, hl, ha⟩ := hadd (forall_mem_nil _) _ (hs.markUsed name.name.value)
      rw [hf] at hfind
      refine ⟨hp, ?_, (acts_useNamed _).bind (by rwa [useNamed_run, hf])⟩
      rw [Ledger.note_empty, Finset.empty_union, Scope.ledger_markUsed] at hl
      simp only [Outline.run, ← hfind]
      exact hl
  · exact htable

/-- A source becomes a named query of the scope. -/
theorem addNamed_run (h : source.Nameable H) (s : Scope) (hs : s.Proper H) :
    ((addNamed source).run s).2.Proper H ∧
      ((addNamed source).run s).2.ledger = s.ledger.add (fold source.name) source.mentions := by
  refine ⟨⟨hs.merge, fun n hn => ?_, hs.outer⟩, ?_⟩
  · rcases mem_append.1 hn with hn | hn
    · exact hs.named n hn
    · rw [mem_singleton.1 hn]
      exact h
  · exact congrArg (fun named => { s.ledger with named }) map_append

theorem nameable_query (h : q.Holds H) (columns : List Ident) :
    (Source.query name (q.renameResults (names columns)) true).Nameable H :=
  ⟨rfl, holds_renamed name h columns true⟩

theorem does_defineRows (columns : Option (List String)) (types : List TypeExpr) :
    Does .loud H (addNamed (.values name columns types true)) (define name skip) := by
  intro _ s hs
  obtain ⟨hp, hl⟩ := addNamed_run (show (Source.values name columns types true).Nameable H from
      ⟨rfl, nofun⟩) s hs
  refine ⟨hp, hl.trans ?_, acts_addNamed _⟩
  show s.ledger.add (fold name) ∅ = (s.ledger.mark ∅).add (fold name) _
  rw [Ledger.mark_empty]
  rfl

/-! ## Queries inside queries -/

/-- What a scope inside the current one does to it: it marks names. -/
theorem inScope_run {outer : List Source} (houter : ∀ source ∈ outer, source.Nameable H)
    (expected : List TypeExpr) (hb : Does b' H body o) (hstarted : Started H o.refs) (s : Scope)
    (hs : s.Proper H) : let inner := o.run (.fresh (Source.holding outer))
    let result := (inScope outer expected body).run s
    result.2.Proper H ∧ result.2.ledger = s.ledger.mark inner.marks ∧
      result.1.Holds H ∧ result.1.mentions = inner.finish := by
  have := hs.merge
  obtain ⟨hp, hl, g, hg, -, hgrows⟩ := hb hstarted _ (Scope.proper_fresh houter expected)
  rw [Scope.ledger_fresh] at hl
  have hholds := (hgrows _ (.refl _)).2.1.holds nofun hg
  refine ⟨hs.foldl_markUsed _, ?_, hp.finish hholds, ?_⟩
  · rw [← hl]
    exact Scope.ledger_foldl_markUsed s _
  · rw [← hl]
    exact Scope.mentions_finish _

theorem nested_run (expected : List TypeExpr) (hb : Does b' H body o) (hstarted : Started H o.refs)
    (s : Scope) (hs : s.Proper H) : let inner := o.run (.fresh s.ledger.find?)
    let result := (nested expected body).run s
    result.2.Proper H ∧ result.2.ledger = s.ledger.mark inner.marks ∧
      result.1.Holds H ∧ result.1.mentions = inner.finish := by
  have h := inScope_run (Scope.nameable_visible hs) expected hb hstarted s hs
  rw [Scope.holding_visible] at h
  exact h

/-- A query is extracted, and its parameters are pending until it is added as a source. -/
theorem tracks_nested (hb : Does b' H body o₁) (expected : List TypeExpr)
    (hf : ∀ q : Interface, q.Holds H → Tracks b H (m ∪ q.mentions) (f q) rest Q o₂) :
    Tracks b H m (nested expected body >>= f) rest Q ((scope o₁).seq o₂) := by
  intro h s hs
  obtain ⟨hp, hl, ht, hm⟩ := nested_run expected hb h.seq.1 s hs
  obtain ⟨hp', hq, hl', ha⟩ := hf _ ht h.seq.2 _ hp
  refine ⟨hp', hq, hl'.trans ?_, (acts_nested expected body).bind ha⟩
  rw [hl, hm, Finset.union_comm, ← Ledger.note_note, ← run_note]
  rfl

theorem does_nested (hb : Does b' H body o₁) (expected : List TypeExpr)
    (hf : ∀ q : Interface, q.Holds H → Tracks b H (∅ ∪ q.mentions) (f q) (fun _ => ∅) Q o₂) :
    Does b H (nested expected body >>= f) ((scope o₁).seq o₂) :=
  (tracks_nested hb expected hf).does

/-- A query that is nothing but a source. -/
theorem does_subquery (hb : Does b' H body o) (expected : List TypeExpr)
    (hf : ∀ q : Interface, q.Holds H → Tracks b H (∅ ∪ q.mentions) (f q) (fun _ => ∅) Q skip) :
    Does b H (nested expected body >>= f) (scope o) :=
  (does_nested hb expected hf).congr (scope o).covers_seq_skip

theorem does_define (hb : Does b' H body o) (name : String) (columns : List Ident) :
    Does .loud H (nested [] body >>= fun q =>
      addNamed (.query name (q.renameResults (names columns)) true)) (define name o) := by
  intro hstarted s hs
  obtain ⟨hp, hl, ht, hm⟩ := nested_run [] hb hstarted s hs
  obtain ⟨hp', hl'⟩ := addNamed_run (nameable_query name ht columns) _ hp
  refine ⟨hp', hl'.trans ?_, (acts_nested _ _).bind (acts_addNamed _)⟩
  rw [hl]
  show (s.ledger.mark _).add (fold name) (Interface.mentions _) = _
  rw [Interface.mentions_renameResults, hm]
  rfl

/-- What the names stand for in the body of a recursive query. -/
theorem holding_self (s : Scope) (name : String) (q : Interface) (columns : List Ident) :
    Source.holding (.query name (q.renameResults (names columns)) true ::
        s.visible.filter (!·.isNamed name)) =
      Function.update s.ledger.find? (fold name) (some q.mentions) := by
  funext key
  show (if fold name = key then some (q.renameResults (names columns)).mentions else _) = _
  by_cases hk : key = fold name
  · rw [hk, if_pos rfl, Function.update_self, q.mentions_renameResults]
  · rw [if_neg (Ne.symm hk), Source.holding_filter _ _ hk, Scope.holding_visible,
      Function.update_of_ne hk]

theorem does_recursive {name : String} {columns : List Ident} {first whole : Extract Unit}
    {own branch rest : Outline} (hf : Does b H first branch)
    (hw : Does b' H whole (own.seq (branch.seq rest))) :
    Does .loud H (recursiveQuery name columns first whole >>= fun q =>
      addNamed (.query name (q.renameResults (names columns)) true))
      (recursive name own branch rest) := by
  intro hstarted s hs
  have hwhole : Started H (own.seq (branch.seq rest)).refs := by
    rw [Outline.refs, Outline.refs, ← append_assoc]
    exact hstarted
  have hvisible := Scope.nameable_visible hs
  obtain ⟨hp₁, hl₁, ht₁, hm₁⟩ := inScope_run hvisible [] hf hwhole.seq.2.seq.1 s hs
  set start := (inScope s.visible [] first).run s with hstart
  have hself : ∀ source ∈ Source.query name (start.1.renameResults (names columns)) true ::
      s.visible.filter (!·.isNamed name), source.Nameable H :=
    forall_mem_cons.2 ⟨nameable_query name ht₁ columns,
      fun source hm => hvisible source (mem_filter.1 hm).1⟩
  obtain ⟨hp₂, hl₂, ht₂, hm₂⟩ := inScope_run hself [] hw hwhole start.2 hp₁
  rw [holding_self] at hl₂ hm₂
  obtain ⟨hp₃, hl₃⟩ := addNamed_run (nameable_query name ht₂ columns) _ hp₂
  refine ⟨hp₃, hl₃.trans ?_, (acts_recursiveQuery ..).bind (acts_addNamed _)⟩
  show Ledger.add _ (fold name) (Interface.mentions _) = _
  rw [Interface.mentions_renameResults, hl₂, hm₂, hl₁, hm₁, Scope.holding_visible]
  rfl

end SqlTyping
