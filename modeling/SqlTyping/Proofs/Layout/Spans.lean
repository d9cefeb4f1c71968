import SqlTyping.Proofs.Layout.Statements
import SqlTyping.Proofs.Outcome

/-!
# The spans of a statement

Every node of a parsed statement stands where its span says: between two characters of the text, in
the node around it, and on some text, unless it is the name of a column that has not been typed yet.
-/

namespace SqlTyping

open List

variable {tolerant : Bool} {text : String} {st : Statement}

theorem Text.byteSize_eq (cs : List Char) : Text.byteSize cs = (String.ofList cs).utf8ByteSize := by
  induction cs with
  | nil => rfl
  | cons c cs ih =>
    rw [Text.byteSize, ih, String.ofList_cons, String.utf8ByteSize_append,
      String.utf8ByteSize_singleton]

/-- The node stands in the text, and in the node around it. -/
structure Node.WellPlaced (text : String) (tolerant : Bool) (node : Node) : Prop where
  ordered : node.span.start ≤ node.span.stop
  inText : node.span.stop ≤ text.utf8ByteSize
  /-- Both ends lie between characters. -/
  boundaries : String.Pos.Raw.IsValid text ⟨node.span.start⟩ ∧
    String.Pos.Raw.IsValid text ⟨node.span.stop⟩
  /-- Only the name of a column may be missing, in text that is being typed. -/
  nonempty : node.span.start < node.span.stop ∨
    tolerant = true ∧ node.part = .columnName ⟨"", false, node.span⟩
  inside : ∀ outer, node.outer = some outer →
    outer.start ≤ node.span.start ∧ node.span.stop ≤ outer.stop

namespace Survey

variable {S : Survey}

theorem isValid_offset (S : Survey) (i : Nat) : String.Pos.Raw.IsValid S.text ⟨S.offset i⟩ := by
  refine String.Pos.Raw.isValid_iff_exists_append.2
    ⟨.ofList (S.text.toList.take i), .ofList (S.text.toList.drop i), ?_, ?_⟩
  · rw [← String.ofList_append, take_append_drop, String.ofList_toList]
  · rw [offset, Text.byteSize_eq]
    rfl

theorem offset_le_size (S : Survey) (i : Nat) : S.offset i ≤ S.text.utf8ByteSize := by
  have hsize : Text.byteSize S.text.toList = S.text.utf8ByteSize := by
    rw [Text.byteSize_eq, String.ofList_toList]
  have hsplit := Text.byteSize_append (S.text.toList.take i) (S.text.toList.drop i)
  rw [take_append_drop] at hsplit
  rw [offset]
  omega

/-- What a rule lays out that reads a text from the start. -/
theorem Lays.run {α : Type} {k : Nat} {rule : Rule α} {Q : α → Nat → S.Spot → Prop} {a : α}
    {c : Cursor} (h : S.Lays 0 k rule Q) (hrun : rule.run S.tolerant S.text = (some a, c)) :
    ∃ m : S.Spot, c.At m ∧ Q a 0 m := by
  let m₀ : S.Spot := ⟨0, Nat.zero_le _, 0⟩
  have hstart : (Cursor.ofText S.text).At m₀ := ⟨rfl, rfl⟩
  obtain ⟨m, hm, -, hread⟩ := (h 0 m₀ (Nat.zero_le _) hstart hrun).2 a rfl
  exact ⟨m, hm, hread⟩

end Survey

/-- The nodes of a layout that fits are well placed, if it lies in the node around it, and its
operators are grouped. -/
theorem Layout.Fits.forall_nodes {S : Survey} {deep lo hi : Nat} {layout : Layout}
    {outer : Option Span} (h : layout.Fits S deep lo hi) (hhi : hi ≤ S.text.length)
    (houter : ∀ span, outer = some span → span.start ≤ S.offset lo ∧ S.offset hi ≤ span.stop) :
    ∀ node ∈ layout.nodes outer,
      node.WellPlaced S.text S.tolerant ∧ node.part.Grouped deep := by
  induction h generalizing outer with
  | empty => exact nofun
  | both _ _ ihleft ihright =>
    intro node hnode
    rcases mem_append.1 hnode with hleft | hright
    · exact ihleft hhi houter node hleft
    · exact ihright hhi houter node hright
  | @node lo hi i j part inside grouped bounds nonempty _ ih =>
    intro node hnode
    rcases mem_cons.1 hnode with rfl | hinside
    · have hlow : S.offset lo ≤ S.offset i := Survey.offset_le bounds.1
      have hhigh : S.offset j ≤ S.offset hi := Survey.offset_le bounds.2.2
      refine ⟨⟨Survey.offset_le bounds.2.1, S.offset_le_size j,
        ⟨S.isValid_offset i, S.isValid_offset j⟩, ?_, fun span hspan => ?_⟩, grouped⟩
      · rcases nonempty with hlt | hmissing
        · exact .inl (Survey.offset_lt hlt (by omega))
        · exact .inr hmissing
      · obtain ⟨hstart, hstop⟩ := houter span hspan
        exact ⟨Nat.le_trans hstart hlow, Nat.le_trans hhigh hstop⟩
    · refine ih (by omega) (fun span hspan => ?_) node hinside
      obtain rfl := Option.some.inj hspan
      exact ⟨Nat.le_refl _, Nat.le_refl _⟩

theorem run_of_parseWith (h : parseWith tolerant text = .ok st) :
    ∃ c, (Grammar.ofText text).wholeStatement.run tolerant text = (some st, c) ∧
      c.tooDeep = none := by
  cases hrun : (Grammar.ofText text).wholeStatement.run tolerant text with
  | mk parsed c =>
    rw [parseWith, hrun] at h
    dsimp only at h
    split at h
    · cases h
    · next hclear =>
      obtain rfl := Except.ok.inj h
      exact ⟨c, rfl, hclear⟩
    · cases h

/-- The parameters of a statement that has been read are those that its text has. -/
theorem standsIn_parseWith (h : parseWith tolerant text = .ok st) :
    ∀ ref ∈ st.params, ref.StandsIn text tolerant := by
  obtain ⟨c, hrun, -⟩ := run_of_parseWith h
  let S : Survey := ⟨text, tolerant⟩
  obtain ⟨m, -, -, hrefs⟩ := (Grammar.laid_ofText S).wholeStatement.run hrun
  exact hrefs

/-- Every node of a statement that has been read stands where its span says. -/
theorem parse_wellPlaced {tolerant : Bool} {text : String} {st : Statement}
    (h : parseWith tolerant text = .ok st) :
    ∀ node ∈ st.layout.nodes none, node.WellPlaced text tolerant := by
  obtain ⟨c, hrun, -⟩ := run_of_parseWith h
  let S : Survey := ⟨text, tolerant⟩
  obtain ⟨m, -, hfits, -⟩ := (Grammar.laid_ofText S).wholeStatement.run hrun
  exact fun node hnode => (hfits.forall_nodes m.le (by nofun) node hnode).1

/-- A join, a name that is not ASCII, and a column that has not been typed yet. -/
def unfinishedJoin : String := "SELECT é. FROM é JOIN b ON é.x = b.y"

theorem parse_wellPlaced_unfinishedJoin : ∃ st, parseWith true unfinishedJoin = .ok st ∧
    (st.layout.nodes none).length = 21 ∧
    (∃ node ∈ st.layout.nodes none, node.span.start = node.span.stop) ∧
    ∀ node ∈ st.layout.nodes none, node.WellPlaced unfinishedJoin true := by
  have hread : (parseWith true unfinishedJoin).toOption.any fun st => decide
      ((st.layout.nodes none).length = 21 ∧
        ∃ node ∈ st.layout.nodes none, node.span.start = node.span.stop) := by
    decide +kernel
  obtain ⟨st, hp, hread⟩ := exists_of_toOption_any hread
  obtain ⟨hlength, hempty⟩ := of_decide_eq_true hread
  exact ⟨st, hp, hlength, hempty, parse_wellPlaced hp⟩

end SqlTyping
