import SolidityServer.Proofs.CharacterOffsets
import SolidityServer.Proofs.ExpressionLayout

/-! Site by site, what is read from a well-formed tree lies where it is read, and so does the
outline of the whole tree. -/

namespace SolidityServer

open Outline

variable {d : Prop}

theorem Text.trimEnd_isPrefix (p : Char → Bool) (cs : List Char) : Text.trimEnd p cs <+: cs := by
  rw [← List.reverse_suffix, Text.trimEnd, List.reverse_reverse]
  exact List.dropWhile_suffix p

theorem SourceText.length_slice_le (source : SourceText) (span : Span) :
    (source.slice span).length ≤ span.stop - span.start := by
  simp only [SourceText.slice, Array.length_toList, Array.size_extract]
  omega

theorem SourceText.slice_isPrefix (source : SourceText) {a b : Span} (hstart : a.start = b.start)
    (hstop : a.stop ≤ b.stop) : source.slice a <+: source.slice b := by
  simp only [SourceText.slice, Array.toList_extract, List.extract_eq_take_drop, hstart]
  exact List.take_prefix_take_left (by omega)

namespace Site

variable {s : Site}

theorem trimmed_length_le (s : Site) :
    (Text.trimEnd Text.isBlank s.text).length ≤ s.span.stop - s.span.start :=
  Nat.le_trans (Text.trimEnd_isPrefix _ _).length_le (s.source.length_slice_le s.span)

variable (h : s.Ready d)

include h

section Statements

theorem argumentsEnd_le : s.argumentsEnd ≤ s.span.stop := by
  have hforward := h.forward
  have hlen := s.trimmed_length_le
  unfold argumentsEnd
  dsimp only
  split
  · omega
  · exact Nat.le_refl _

/-- What an emit or a revert calls, and its arguments, end before the arguments do. -/
theorem part_ends (hk : s.kind = "emit_statement" ∨ s.kind = "revert_statement") {c : Reading}
    (hc : c ∈ s.calledPart.toList ++ s.argumentParts) (hmem : c ∈ s.children) :
    c.span.stop ≤ s.argumentsEnd := by
  by_cases hlast : (Text.trimEnd Text.isBlank s.text).getLast? = some ';'
  · have hsemi : s.finalSemicolon =
        some (s.span.start + ((Text.trimEnd Text.isBlank s.text).length - 1)) := by
      simp [finalSemicolon, hk, hlast]
    have hended := h.wellFormed.ended _ hsemi c hc
    have hpos := List.length_pos_of_mem (List.mem_of_getLast? hlast)
    simp only [argumentsEnd, hlast, beq_self_eq_true, if_true]
    omega
  · simp only [argumentsEnd, beq_iff_eq, hlast, if_false]
    exact (h.inside hmem).2

/-- The call of an emit or a revert starts with what is called and ends where the arguments do. -/
theorem statementCall_row {callee : Outline} {c : Span} (hc : Row d [c] callee)
    (forward : c.start ≤ c.stop) (hin : c.Within s.span) (hend : c.stop ≤ s.argumentsEnd)
    (hargs : ∀ a ∈ s.argumentParts, c.stop ≤ a.span.start ∧ a.span.stop ≤ s.argumentsEnd) :
    Row d [s.span] (s.statementCall callee) := by
  have hcallee := hc.within_single
  obtain ⟨start, hstart, hlow, hhigh, hspans⟩ : ∃ start,
      (callee.span?.map Span.start).getD s.span.start = start ∧ s.span.start ≤ start ∧
      start ≤ c.stop ∧ ∀ a ∈ callee.spans, start ≤ a.start := by
    refine ⟨_, rfl, ?_⟩
    have hfirst : ∀ a ∈ callee.spans, s.span.start ≤ a.start := fun a ha =>
      Nat.le_trans hin.1 (hcallee a ha).1
    have houter : s.span.start ≤ c.stop := Nat.le_trans hin.1 forward
    cases hcases : callee with
    | node kind span fields =>
      subst hcases
      have hspan := hcallee span (by simp)
      have hspanForward : span.start ≤ span.stop := by
        cases hc.laid with
        | node forward _ _ _ => exact forward
      exact ⟨Nat.le_trans hin.1 hspan.1, Nat.le_trans hspanForward hspan.2, by simp [span?]⟩
    | null | flag | text | list =>
      subst hcases
      exact ⟨Nat.le_refl _, houter, hfirst⟩
  have harguments := argumentsEnd_le h
  have hmax : start ≤ max start s.argumentsEnd := Nat.le_max_left _ _
  have hbelow : s.argumentsEnd ≤ max start s.argumentsEnd := Nat.le_max_right _ _
  rw [statementCall, hstart]
  refine Row.mono (Filled.row (.part hc.self (.part h.callArguments .nil)) hmax ?_ fun _ => ?_) ?_
  · intro ps hps p hp
    simp only [List.mem_cons, List.not_mem_nil, or_false] at hps
    rcases hps with rfl | rfl
    · exact ⟨hspans p hp, Nat.le_trans (hcallee p hp).2 (Nat.le_trans hend hbelow)⟩
    · obtain ⟨a, ha, rfl⟩ := List.mem_map.mp hp
      exact ⟨Nat.le_trans hhigh (hargs a ha).1, Nat.le_trans (hargs a ha).2 hbelow⟩
  · simp only [List.pairwise_cons, List.mem_singleton, forall_eq, List.not_mem_nil, false_imp_iff,
      implies_true, List.Pairwise.nil, and_true, Span.Clear, List.forall_mem_map]
    exact fun p hp a ha => .inl (Nat.le_trans (hcallee p hp).2 (hargs a ha).1)
  · simp only [List.mem_singleton, forall_eq, exists_eq_left]
    have hstop := hin.2
    exact ⟨hlow, by simp only; omega⟩

theorem calledChild_row (hk : s.kind = "emit_statement" ∨ s.kind = "revert_statement")
    {c : Reading} (hcalled : s.calledPart = some c) (hc : c ∈ s.children) :
    Row d [s.span] (orNull (c.expression.map s.statementCall)) := by
  have hlaid := h.children c hc
  have hrow := hlaid.each.expression
  cases hx : c.expression with
  | none => exact row_null
  | some callee =>
    rw [hx] at hrow
    refine statementCall_row h (row_orNull hrow) hlaid.forward (h.inside hc)
      (part_ends h hk (by simp [hcalled]) hc) fun a ha => ⟨?_, ?_⟩
    · exact h.before hc (mem_argumentParts ha) (h.wellFormed.called c hcalled a ha)
    · exact part_ends h hk (by simp [ha]) (mem_argumentParts ha)

theorem emitCall_row (hk : s.kind = "emit_statement") : Row d [s.span] s.emitCall := by
  have hcalled : s.calledPart = s.field "name" := by
    rw [calledPart, hk]
    rfl
  unfold emitCall
  cases hf : s.field "name" with
  | none => exact row_null
  | some c => exact calledChild_row h (.inl hk) (hcalled.trans hf) (mem_children_of_field hf)

/-- The keyword of a revert stands before its semicolon. -/
theorem keyword_ends (hw : s.calledKeyword = some "revert") :
    s.span.start + "revert".length ≤ s.argumentsEnd := by
  obtain ⟨first, rest, hchildren, _, hstart, hstop, htext⟩ := keyword_first h hw
  have hfirst := (h.inside (c := first) (by simp [hchildren])).2
  have hword : "revert".toList <+: s.text := by
    rw [← htext]
    exact s.source.slice_isPrefix hstart hfirst
  unfold argumentsEnd
  dsimp only
  split
  · rename_i hlast
    have hlast := List.mem_of_getLast? (by simpa using hlast)
    have hlong : "revert".toList.length < (Text.trimEnd Text.isBlank s.text).length := by
      by_contra hshort
      -- a shorter text would be a part of the keyword, which has no semicolon
      have hpart := List.prefix_of_prefix_length_le (Text.trimEnd_isPrefix _ _) hword
        (Nat.le_of_not_lt hshort)
      exact absurd (hpart.subset hlast) (by decide)
    rw [String.length_toList] at hlong
    omega
  · omega

theorem revertCall_row (hk : s.kind = "revert_statement") : Row d [s.span] s.revertCall := by
  unfold revertCall
  split
  · rename_i c hf
    have hcalled : s.calledPart = some c := by
      rw [calledPart, hk]
      exact hf
    exact calledChild_row h (.inr hk) hcalled (mem_children_of_field hf)
  · rename_i hf
    have hw : s.calledKeyword = some "revert" := by
      rw [calledKeyword, hk]
      simp [hf]
    refine statementCall_row h (keywordNode_row "revert") (Nat.le_add_right _ _)
      ⟨Nat.le_refl _, keyword_inside h hw⟩ (keyword_ends h hw) fun a ha => ⟨?_, ?_⟩
    · exact keyword_before h hw (mem_argumentParts ha) (argument_kind_ne hw ha)
    · exact part_ends h (.inr hk) (by simp [ha]) (mem_argumentParts ha)

theorem block_row : Row d [s.span] (list s.block.toList) := by
  unfold block
  split
  · exact row_nil
  · exact (h.nodeOf (fun _ => mem_children_of_mem_named)
      (.part (h.parts s.named_sublist fun _ hc => hc.each.statements) .nil)).singleton rfl

theorem blockStatement_row : Row d [s.span] (list s.blockStatement.toList) := by
  unfold blockStatement
  split
  · exact (h.nodeAround (.part (row_orNull (block_row h)) .nil)).singleton rfl
  · exact block_row h

theorem headNode_row (kind : Kind) (f : Field) :
    Row d [s.span] (s.node kind [(f, orNull (s.named.head?.bind Reading.expression))]) :=
  h.nodeOf (toList_subset fun _ => mem_children_of_head?)
    (.part (row_orNull (headExpression_row h)) .nil)

theorem expressionStatement_row : Row d [s.span] (list [s.expressionStatement]) := by
  unfold expressionStatement
  dsimp only
  split
  · exact (h.leaf .nil).singleton rfl
  · exact (headNode_row h _ _).singleton rfl

theorem declarativeNode_row {location : Outline} (hl : Row d [] location) :
    Row d [s.span] (s.declarativeNode location) :=
  h.nodeOf (toList_subset fun _ => mem_children_of_field)
    (.plain (row_chars _) (.part (h.typeIn "type") (.plain hl .nil)))

theorem declared_row : Row d [s.span] (list s.declared) := by
  unfold declared
  split
  · exact (declarativeNode_row h (row_chars? _)).singleton rfl
  · exact row_nil

theorem declarations_row : Row d [s.span] (list s.declarations) := by
  unfold declarations
  split
  · exact declared_row h
  · exact h.inNamed fun _ hc => hc.each.declared
  · exact row_nil

theorem variableDeclaration_row (hk : s.kind = "variable_declaration_statement") :
    Row d [s.span] s.variableDeclaration :=
  h.nodeOfRoles hk (.part (h.gatedParts (fun _ hc => hc.gated.declarations)
    fun _ hc => hc.each.declarations) (.part (h.expressionIn "value") .nil))

theorem ifStatement_row (hk : s.kind = "if_statement") : Row d [s.span] s.ifStatement :=
  h.nodeOfRoles hk (.part (h.expressionIn "condition")
    (.part (h.statementIn "body") (.part (h.statementIn "else") .nil)))

theorem loopTest_row : Row d ((s.field "condition").toList.map Reading.span) s.loopTest := by
  refine h.optional (fun _ => mem_children_of_field) fun c hc => ?_
  split
  · exact hc.each.headExpression
  · exact hc.each.expression

theorem forStatement_row (hk : s.kind = "for_statement") : Row d [s.span] s.forStatement :=
  h.nodeOfRoles hk (.part (h.statementIn "initial") (.part (loopTest_row h)
    (.part (h.expressionIn "update") (.part (h.statementIn "body") .nil))))

theorem parameter_row : Row d [s.span] (list s.parameter) := by
  unfold parameter
  split
  · exact (h.nodeOf (toList_subset fun _ => mem_children_of_field) (.part (h.typeIn "type")
      (.plain (row_chars? _) (.plain (row_chars? _) (.plain (row_flag _) .nil))))).singleton rfl
  · exact row_nil

theorem catchClause_row : Row d [s.span] (list s.catchClause) := by
  unfold catchClause
  split
  · rename_i hk
    have hk : s.kind = "catch_clause" := by simpa using hk
    exact (h.nodeOfRoles hk (.plain (row_chars? _)
      (.part h.parameters (.part (h.blockIn "body") .nil)))).singleton rfl
  · exact row_nil

theorem tryStatement_row (hk : s.kind = "try_statement") : Row d [s.span] s.tryStatement := by
  have hreturned : Row d ((s.ofKind "parameter").map Reading.span)
      (list ((s.ofKind "parameter").flatMap Reading.parameter)) :=
    h.parts (s.filter_named_sublist _) fun _ hc => hc.each.parameter
  have hcaught : Row d ((s.ofKind "catch_clause").map Reading.span)
      (list (s.named.flatMap Reading.catchClause)) :=
    h.gatedParts (fun _ hc => hc.gated.catchClause) fun _ hc => hc.each.catchClause
  exact h.nodeOfRoles hk (.part (h.expressionIn "attempt")
    (.part hreturned (.part (h.blockIn "body") (.part hcaught .nil))))

theorem looseStatement_row : Row d [s.span] (list s.looseStatement.toList) := by
  unfold looseStatement
  split
  · rename_i e he
    split
    · exact row_nil
    · have hrow := expression_row h
      rw [he] at hrow
      exact (h.nodeAround (.part (row_orNull hrow) .nil)).singleton rfl
  · exact row_nil

theorem plainStatement_row : Row d [s.span] (list s.plainStatement.toList) := by
  unfold plainStatement
  split <;> rename_i hk
  · exact blockStatement_row h
  · exact blockStatement_row h
  · exact expressionStatement_row h
  · exact (variableDeclaration_row h hk).singleton rfl
  · exact (ifStatement_row h hk).singleton rfl
  · exact (forStatement_row h hk).singleton rfl
  · exact (h.nodeOfRoles hk
      (.part (h.expressionIn "condition") (.part (h.statementIn "body") .nil))).singleton rfl
  · exact (h.nodeOfRoles hk
      (.part (h.statementIn "body") (.part (h.expressionIn "condition") .nil))).singleton rfl
  · exact (headNode_row h _ _).singleton rfl
  · exact (h.nodeAround (.part (emitCall_row h hk) .nil)).singleton rfl
  · exact (h.nodeAround (.part (revertCall_row h hk) .nil)).singleton rfl
  · exact (tryStatement_row h hk).singleton rfl
  · exact (h.leaf .nil).singleton rfl
  · exact (h.leaf .nil).singleton rfl
  · exact (h.leaf .nil).singleton rfl
  · exact looseStatement_row h

theorem statement_row : Row d [s.span] (list s.statement.toList) := by
  unfold statement
  split
  · rename_i c hc
    have hc := mem_children_of_wrapped? hc
    exact h.row_of_child hc (h.children c hc).each.statement
  · exact plainStatement_row h

end Statements

section Imports

/-- The symbols of an import between two offsets, the last one first. -/
structure SymbolsLaid (low high : Nat) (ys : List Symbol) : Prop where
  bounds : ∀ y ∈ ys,
    low ≤ y.span.start ∧ y.span.start ≤ y.span.stop ∧ y.span.stop ≤ high
  ordered : ys.Pairwise fun y x => x.span.stop ≤ y.span.start

omit h in
theorem SymbolsLaid.mono {low high high' : Nat} {ys : List Symbol} (hs : SymbolsLaid low high ys)
    (hle : high ≤ high') : SymbolsLaid low high' ys where
  bounds y hy := ⟨(hs.bounds y hy).1, (hs.bounds y hy).2.1, Nat.le_trans (hs.bounds y hy).2.2 hle⟩
  ordered := hs.ordered

omit h in
theorem SymbolsLaid.cons {low high : Nat} {y : Symbol} {ys : List Symbol}
    (hs : SymbolsLaid low y.span.start ys) (hlow : low ≤ y.span.start)
    (hforward : y.span.start ≤ y.span.stop) (hhigh : y.span.stop ≤ high) :
    SymbolsLaid low high (y :: ys) where
  bounds := by
    simp only [List.forall_mem_cons]
    exact ⟨⟨hlow, hforward, hhigh⟩, (hs.mono (Nat.le_trans hforward hhigh)).bounds⟩
  ordered := List.pairwise_cons.mpr ⟨fun x hx => (hs.bounds x hx).2.2, hs.ordered⟩

omit h in
/-- One more child: a symbol of its own, a wider last symbol, or none. -/
theorem SymbolsLaid.add {low high : Nat} {source : SourceText} {p : ImportParts} {c : Reading}
    (hs : SymbolsLaid low high p.symbols) (hle : low ≤ high) (hstart : high ≤ c.span.start)
    (hforward : c.span.start ≤ c.span.stop) :
    SymbolsLaid low c.span.stop (p.add source c).symbols := by
  have hsame := hs.mono (Nat.le_trans hstart hforward)
  unfold ImportParts.add
  split
  · exact hsame
  · split
    · exact hsame
    · split
      · exact hsame
      · exact (hs.mono hstart).cons (Nat.le_trans hle hstart) hforward (Nat.le_refl _)
      · unfold ImportParts.withAlias
        split
        · rename_i last earlier _ hsymbols
          rw [hsymbols] at hs
          obtain ⟨hlow, hlast, hend⟩ := hs.bounds last List.mem_cons_self
          obtain ⟨hbefore, hordered⟩ := List.pairwise_cons.mp hs.ordered
          have hearlier : SymbolsLaid low last.span.start earlier :=
            ⟨fun y hy => ⟨(hs.bounds y (List.mem_cons_of_mem _ hy)).1,
              (hs.bounds y (List.mem_cons_of_mem _ hy)).2.1, hbefore y hy⟩, hordered⟩
          exact SymbolsLaid.cons hearlier hlow (by simp only; omega) (Nat.le_refl _)
        · exact hsame
      · exact hsame

omit h in
theorem SymbolsLaid.foldl {low high top : Nat} {source : SourceText} {cs : List Reading}
    {p : ImportParts} (hs : SymbolsLaid low high p.symbols) (hle : low ≤ high) (htop : high ≤ top)
    (hordered : cs.Pairwise fun a b => a.span.stop ≤ b.span.start)
    (hcs : ∀ c ∈ cs, high ≤ c.span.start ∧ c.span.start ≤ c.span.stop ∧ c.span.stop ≤ top) :
    SymbolsLaid low top (cs.foldl (ImportParts.add source) p).symbols := by
  induction cs generalizing p high with
  | nil => exact hs.mono htop
  | cons c cs ih =>
    obtain ⟨hstart, hforward, hstop⟩ := hcs c List.mem_cons_self
    obtain ⟨hnext, hordered⟩ := List.pairwise_cons.mp hordered
    refine ih (hs.add hle hstart hforward) (by omega) hstop hordered fun e he => ?_
    exact ⟨hnext e he, (hcs e (List.mem_cons_of_mem _ he)).2⟩

theorem importStatement_row : Row d [s.span] s.importStatement := by
  have hsymbols : SymbolsLaid s.span.start s.span.stop
      (s.children.foldl (ImportParts.add s.source) {}).symbols := by
    refine SymbolsLaid.foldl (p := {}) ⟨by simp, .nil⟩ (Nat.le_refl _) h.forward h.ordered ?_
    exact fun c hc => ⟨(h.inside hc).1, (h.children c hc).forward, (h.inside hc).2⟩
  have hrow : Row d [s.span] (list ((s.children.foldl (ImportParts.add s.source)
      {}).symbols.reverse.map Symbol.toOutline)) := by
    rw [List.map_eq_flatMap]
    refine Row.mono (row_flatMap Symbol.span ?_ fun y hy => ?_) ?_
    · rw [List.pairwise_reverse]
      exact hsymbols.ordered.imp fun hyx => .inl hyx
    · have hy := hsymbols.bounds y (List.mem_reverse.mp hy)
      exact (Filled.row (.plain (row_chars _) (.plain (row_chars? _) .nil)) hy.2.1
        (by simp) (by simp)).singleton rfl
    · simp only [List.forall_mem_map, List.mem_singleton, exists_eq_left]
      intro y hy
      have hy := hsymbols.bounds y (List.mem_reverse.mp hy)
      exact ⟨hy.1, hy.2.2⟩
  exact h.nodeAround (.plain (row_chars _) (.plain (row_chars? _) (.part hrow .nil)))

end Imports

section Declarations

theorem usingDirective_row : Row d [s.span] s.usingDirective := by
  have htarget : Row d [s.span] (list ((s.children.foldl (UsingParts.add s.source
      (s.hasToken "\x7b")) {}).target.map TypeForm.toOutline).toList) := by
    rcases usingTarget_cases s.source (s.hasToken "\x7b") s.children {} with ht | ⟨c, hc, ht⟩
    · rw [ht]
      exact row_nil
    · rw [ht]
      exact h.row_of_child hc (h.children c hc).each.type
  exact h.nodeAround (.plain (row_chars? _) (.plain (row_texts _) (.part (row_orNull htarget)
    (.plain (row_flag _) .nil))))

theorem calledNode_row (kind : Kind) (name : List Char) :
    Row d [s.span] (s.node kind [(.name, .chars name), (.params, .list s.callArguments)]) :=
  h.nodeOf (fun _ => mem_argumentParts) (.plain (row_chars _) (.part h.callArguments .nil))

theorem inheritance_row : Row d [s.span] (list s.inheritance) := by
  unfold inheritance
  split
  · exact (calledNode_row h _ _).singleton rfl
  · exact row_nil

theorem modifierCall_row : Row d [s.span] (list s.modifierCall) := by
  unfold modifierCall
  split
  · exact (calledNode_row h _ _).singleton rfl
  · exact row_nil

theorem found_row (role : String) (kinds : List String) {f : Reading → List Outline}
    (hf : ∀ c, c.Laid d s.source → Row d [c.span] (list (f c))) :
    Row d (((s.field role).or (s.firstOf kinds)).toList.map Reading.span)
      (list ((((s.field role).or (s.firstOf kinds)).map f).getD [])) := by
  cases hc : (s.field role).or (s.firstOf kinds) with
  | none => exact row_nil
  | some c =>
    exact hf c (h.children c (mem_children_of_field_or (fun _ => mem_children_of_firstOf) hc))

theorem containerFields_filled {rest : List (Field × Outline)} (hrest : Filled d [] rest) :
    Filled d [((s.field "body").or (s.firstOf ["contract_body"])).toList.map Reading.span,
      (s.ofKind "inheritance_specifier").map Reading.span] (s.containerFields ++ rest) :=
  .plain (row_chars _) (.part (found_row h _ _ fun _ hc => hc.each.body)
    (.part (h.gatedParts (fun _ hc => hc.gated.inheritance) fun _ hc => hc.each.inheritance) hrest))

theorem contract_row (hk : s.kind = "contract_declaration") : Row d [s.span] s.contract :=
  h.nodeOfRoles hk (containerFields_filled h (.plain (row_flag _) .nil))

theorem container_row {kind : Kind}
    (hk : s.kind = "library_declaration" ∨ s.kind = "interface_declaration") :
    Row d [s.span] (s.node kind s.containerFields) := by
  have filled := containerFields_filled h .nil
  rw [List.append_nil] at filled
  rcases hk with hk | hk
  · exact h.nodeOfRoles hk filled
  · exact h.nodeOfRoles hk filled

theorem function_row (hk : s.kind = "function_definition" ∨ s.kind = "constructor_definition" ∨
    s.kind = "fallback_receive_definition") : Row d [s.span] s.function := by
  have hname : Row d [] s.functionHead.2 := by
    unfold functionHead
    split
    · exact row_null
    · exact row_null
    · split
      · exact row_null
      · exact row_chars _
  have hmodifiers : Row d ((s.ofKind "modifier_invocation").map Reading.span)
      (list (s.named.flatMap Reading.modifierCall)) :=
    h.gatedParts (fun _ hc => hc.gated.modifierCall) fun _ hc => hc.each.modifierCall
  have hreturned := found_row (f := Reading.parameters) h "return_type" ["return_type_definition"]
    fun _ hc => hc.each.parameters
  have filled := Filled.plain (f := .name) hname (.plain (f := .kind) (row_text s.functionHead.1)
    (.part (f := .params) h.parameters (.part (f := .modifiers) hmodifiers
      (.part (f := .returnParams) hreturned (.part (f := .body) (h.blockIn "body")
        (.plain (f := .visibility) (row_chars? (s.textOf? (s.firstOf ["visibility"])))
          (.plain (f := .stateMutability)
            (row_chars? (s.textOf? (s.firstOf ["state_mutability"])))
            (.plain (f := .isVirtual) (row_flag (s.firstOf ["virtual"]).isSome) .nil))))))))
  rcases hk with hk | hk | hk
  · exact h.nodeOfRoles hk filled
  · exact h.nodeOfRoles hk filled
  · exact h.nodeOfRoles hk filled

theorem modifier_row (hk : s.kind = "modifier_definition") : Row d [s.span] s.modifier :=
  h.nodeOfRoles hk (.plain (row_chars _) (.part h.parameters (.part (h.blockIn "body") .nil)))

theorem stateVariable_row (hk : s.kind = "state_variable_declaration" ∨
    s.kind = "constant_variable_declaration") : Row d [s.span] s.stateVariable := by
  have filled := Filled.plain (f := .name) (row_chars (s.textOf (s.field "name")))
    (.part (f := .literal) (h.typeIn "type")
      (.plain (f := .visibility) (row_chars? (s.textOf? (s.firstOf ["visibility"])))
        (.plain (f := .isConstant)
          (row_flag (s.kind == "constant_variable_declaration" || s.hasToken "constant"))
          (.plain (f := .isImmutable) (row_flag (s.firstOf ["immutable"]).isSome)
            (.part (f := .value) (h.expressionIn "value") .nil)))))
  rcases hk with hk | hk
  · exact h.nodeOfRoles hk filled
  · exact h.nodeOfRoles hk filled

theorem structMembers_row : Row d [s.span] (list s.structMembers) := by
  unfold structMembers
  split
  · exact (declarativeNode_row h row_null).singleton rfl
  · split
    · exact h.inNamed fun _ hc => hc.each.structMembers
    · exact row_nil

theorem struct_row : Row d [s.span] s.struct :=
  h.nodeOf (fun _ => mem_children_of_mem_named) (.plain (row_chars _)
    (.part (h.parts s.named_sublist fun _ hc => hc.each.structMembers) .nil))

theorem event_row : Row d [s.span] s.event :=
  h.nodeOf (fun _ => mem_parameterParts)
    (.plain (row_chars _) (.part h.parameters (.plain (row_flag _) .nil)))

theorem error_row : Row d [s.span] s.error :=
  h.nodeOf (fun _ => mem_parameterParts) (.plain (row_chars _) (.part h.parameters .nil))

theorem userType_row : Row d [s.span] s.userType := by
  have hmem : ∀ c, (s.field "value").or (s.firstOf ["primitive_type"]) = some c →
      c ∈ s.children := fun _ => mem_children_of_field_or fun _ => mem_children_of_firstOf
  exact h.nodeOf (toList_subset hmem) (.plain (row_chars _) (.part (h.typeOutline hmem) .nil))

theorem member_row : Row d [s.span] (list s.member.toList) := by
  unfold member
  split <;> rename_i hk
  · exact (function_row h (.inl hk)).singleton rfl
  · exact (function_row h (.inr (.inl hk))).singleton rfl
  · exact (function_row h (.inr (.inr hk))).singleton rfl
  · exact (modifier_row h hk).singleton rfl
  · exact (stateVariable_row h (.inl hk)).singleton rfl
  · exact (stateVariable_row h (.inr hk)).singleton rfl
  · exact (struct_row h).singleton rfl
  · exact (h.leaf (.plain (row_chars _) (.plain (row_texts _) .nil))).singleton rfl
  · exact (event_row h).singleton rfl
  · exact (error_row h).singleton rfl
  · exact (userType_row h).singleton rfl
  · exact (usingDirective_row h).singleton rfl
  · exact row_nil

theorem unit_row : Row d [s.span] (list s.unit.toList) := by
  unfold unit
  split <;> rename_i hk
  · exact (h.leaf (.plain (row_chars _) (.plain (row_chars _) .nil))).singleton rfl
  · exact (importStatement_row h).singleton rfl
  · exact (contract_row h hk).singleton rfl
  · exact (container_row h (.inl hk)).singleton rfl
  · exact (container_row h (.inr hk)).singleton rfl
  · exact member_row h

theorem contribution_row {inside : Reading → List Outline} {own : Option Outline}
    (hi : ∀ c, c.Laid d s.source → Row d [c.span] (list (inside c)))
    (ho : Row d [s.span] (list own.toList)) :
    Row d [s.span] (list (s.contribution inside own)) := by
  unfold contribution
  split
  · exact row_nil
  · split
    · exact h.inNamed hi
    · exact ho

end Declarations

/-- What one site reads lies inside the site. -/
theorem read_laid : s.read.Laid d s.source where
  span := rfl
  forward := h.forward
  gated := s.read_gated
  each :=
    { expression := expression_row h
      type := type_row h
      statement := statement_row h
      block := block_row h
      headExpression :=
        h.row_of_children (toList_subset fun _ => mem_children_of_head?) (headExpression_row h)
      units := contribution_row h (fun _ hc => hc.each.units) (unit_row h)
      members := contribution_row h (fun _ hc => hc.each.members) (member_row h)
      statements := contribution_row h (fun _ hc => hc.each.statements) (statement_row h)
      body := h.inNamed fun _ hc => hc.each.members
      parameter := parameter_row h
      parameters := h.row_of_children (fun _ => mem_parameterParts) h.parameters
      arguments := arguments_row h
      namedValue := namedValue_row h
      inheritance := inheritance_row h
      modifierCall := modifierCall_row h
      structMembers := structMembers_row h
      declared := declared_row h
      declarations := declarations_row h
      catchClause := catchClause_row h }

end Site

/-- The outline of a well-formed tree is laid out, and nodes do not overlap if no child plays two
roles. -/
theorem Concrete.program_laid {text : String} {root : Concrete} (hw : root.WellFormed text)
    (hs : d → root.SingleRoles text) : (root.program (SourceText.ofText text)).Laid d := by
  obtain ⟨hstop, hsites⟩ := hw
  have hsource := @Concrete.source_of_mem_sites (SourceText.ofText text) root
  have hready : ∀ s ∈ root.sites (SourceText.ofText text),
      (∀ c ∈ s.children, c.Laid d (SourceText.ofText text)) → s.Ready d := by
    intro s hmem hc
    refine ⟨fun hab => ?_, hsites s hmem, fun hd => hs hd s hmem, ?_⟩
    · rw [hsource s hmem]
      exact SourceText.charOffset_mono text hab
    · rw [hsource s hmem]
      exact hc
  have hchildren := Concrete.site_children_of_sites (P := Reading.Laid d (SourceText.ofText text))
    (SourceText.ofText text) root fun s hmem hc => by
      have hlaid := Site.read_laid (hready s hmem hc)
      rwa [hsource s hmem] at hlaid
  have hroot := hready _ (root.site_mem_sites _) hchildren
  have hbody := hroot.inNamed fun _ hc => hc.each.units
  have hend : (root.site (SourceText.ofText text)).span.stop ≤ (SourceText.ofText text).length :=
    SourceText.charOffset_le_length hstop
  refine (Filled.row (.part hbody .nil) (Nat.zero_le _) ?_ (by simp)).laid
  simp only [List.mem_singleton, forall_eq]
  exact ⟨Nat.zero_le _, hend⟩

end SolidityServer
