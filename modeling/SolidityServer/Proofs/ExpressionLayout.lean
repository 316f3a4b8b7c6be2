import SolidityServer.Proofs.SiteLayout

/-! Types and expressions of a well-formed tree lie where they are read. Most nodes span their site;
keywords, new objects and arrays, which do not, are treated on their own. -/

namespace SolidityServer

open Outline

variable {d : Prop}

theorem identifierNode_row (span : Span) (name : List Char) (forward : span.start ≤ span.stop) :
    Row d [span] (identifierNode span name) :=
  Filled.row (.plain (row_chars name) .nil) forward (by simp) (by simp)

theorem TypeForm.row (t : TypeForm) {ps qs : List Span} (forward : t.span.start ≤ t.span.stop)
    (hl : Row d ps t.literal) (ha : Row d qs (list t.arrayParts))
    (inside : ∀ p ∈ ps ++ qs, p.Within t.span) (clear : d → Span.Clear ps qs) :
    Row d [t.span] t.toOutline := by
  have filled := Filled.part (f := .literal) hl (.plain (f := .members) (row_texts t.members)
    (.part (f := .arrayParts) ha (.plain (f := .storageLocation) row_null .nil)))
  refine filled.row forward ?_ ?_
  · simpa using List.forall_mem_append.mp inside
  · simpa using clear

theorem TypeForm.rows_of_laid {t : TypeForm} (h : t.toOutline.Laid d) :
    Row d t.literal.spans t.literal ∧ Row d (list t.arrayParts).spans (list t.arrayParts) ∧
      (∀ p ∈ t.literal.spans ++ (list t.arrayParts).spans, p.Within t.span) ∧
      (d → Span.Clear t.literal.spans (list t.arrayParts).spans) := by
  cases h with
  | node forward each within apart =>
    have hheld : heldSpans [(.literal, t.literal), (.members, texts t.members),
        (.arrayParts, list t.arrayParts), (.storageLocation, .null)] =
        t.literal.spans ++ (list t.arrayParts).spans := by
      simp only [heldSpans, List.flatMap_cons, List.flatMap_nil, spans_texts, List.nil_append]
      rw [spans_null, List.append_nil, List.append_nil]
    rw [hheld] at within apart
    refine ⟨⟨each (.literal, _) (by simp), fun a ha => ⟨a, ha, .refl a⟩, fun hd => ?_⟩,
      ⟨each (.arrayParts, _) (by simp), fun a ha => ⟨a, ha, .refl a⟩, fun hd => ?_⟩, within,
      fun hd => ?_⟩
    · exact (List.pairwise_append.mp (apart hd)).1
    · exact (List.pairwise_append.mp (apart hd)).2.1
    · exact (List.pairwise_append.mp (apart hd)).2.2

namespace Site

variable {s : Site} (h : s.Ready d)

include h

section Types

theorem typeForm_row {literal : Outline} (hl : Row d [s.span] literal) :
    Row d [s.span] (s.typeForm literal).toOutline := by
  refine TypeForm.row (s.typeForm literal) h.forward hl (@row_nil d []) ?_ ?_
  · simpa [typeForm] using Span.Within.refl s.span
  · simp [Span.Clear]

theorem userTypeForm_row : Row d [s.span] s.userTypeForm.toOutline := by
  unfold userTypeForm
  split
  · rename_i first rest _
    exact TypeForm.row ⟨s.span, chars first, rest, []⟩ h.forward (@row_chars d [] _)
      (@row_nil d []) (by simp) (by simp [Span.Clear])
  · exact typeForm_row h (row_chars _)

theorem mappingForm_row (hk : s.kind = "type_name") {key : Reading}
    (hkey : s.field "key_type" = some key) : Row d [s.span] (s.mappingForm key).toOutline := by
  have hfrom := h.typeIn "key_type"
  have hto := h.typeIn "value_type"
  rw [typeOutline, hkey, Option.bind_some, ← hkey] at hfrom
  exact typeForm_row h (h.nodeOfRoles hk (.part hfrom (.part hto .nil)))

/-- The size of an array stands after its element type, so it is apart from all that the element
type holds. -/
theorem arrayForm_row {element : Reading} {size : Option Reading} (he : element ∈ s.children)
    (hs : ∀ c, size = some c → c ∈ s.children ∧ element.span.stop ≤ c.span.start) :
    Row d [s.span] (list ((s.arrayForm element size).map TypeForm.toOutline).toList) := by
  have ht := (h.children element he).each.type
  unfold arrayForm
  cases hte : element.type with
  | none => exact row_nil
  | some inner =>
    rw [hte] at ht
    have hinner : inner.span.Within element.span :=
      ht.within_single inner.span (by simp [spans_list, TypeForm.toOutline, span?])
    obtain ⟨hl, ha, hin, hclear⟩ :=
      TypeForm.rows_of_laid (laid_list_iff.mp ht.laid inner.toOutline (by simp)).2
    have hsize : Row d (size.toList.map Reading.span)
        (list [orNull (size.bind Reading.expression)]) := by
      cases hsz : size with
      | none => exact row_null.singleton rfl
      | some c => exact row_orNull_singleton (h.children c (hs c hsz).1).each.expression
    have hafter : ∀ p ∈ inner.literal.spans ++ (list inner.arrayParts).spans,
        ∀ q ∈ size.toList.map Reading.span, p.Apart q := fun p hp q hq => by
      obtain ⟨c, hc, rfl⟩ := List.mem_map.mp hq
      have hend := ((hin p hp).trans hinner).2
      exact .inl (Nat.le_trans hend (hs c (by simpa using hc)).2)
    have hrow := ha.append hsize fun _ p hp => hafter p (List.mem_append_right _ hp)
    refine Row.singleton (TypeForm.row { inner with span := s.span, arrayParts := inner.arrayParts
      ++ [orNull (size.bind Reading.expression)] } h.forward hl hrow ?_ fun hd p hp q hq => ?_) rfl
    · intro p hp
      rw [← List.append_assoc] at hp
      rcases List.mem_append.mp hp with hp | hp
      · exact ((hin p hp).trans hinner).trans (h.inside he)
      · obtain ⟨c, hc, rfl⟩ := List.mem_map.mp hp
        exact h.inside (hs c (by simpa using hc)).1
    · rcases List.mem_append.mp hq with hq | hq
      · exact hclear hd p hp q hq
      · exact hafter p (List.mem_append_left _ hp) q hq

theorem typeNameForm_row (hk : s.kind = "type_name") :
    Row d [s.span] (list (s.typeNameForm.map TypeForm.toOutline).toList) := by
  unfold typeNameForm
  split
  · rename_i key hkey
    exact (mappingForm_row h hk hkey).singleton rfl
  · split
    · rename_i element rest hnamed
      have hmem : ∀ c ∈ element :: rest, c ∈ s.children := fun c hc =>
        mem_children_of_mem_named (hnamed ▸ hc)
      have hordered := h.ordered.sublist s.named_sublist
      rw [hnamed, List.pairwise_cons] at hordered
      split
      · refine arrayForm_row h (hmem element (by simp)) fun c hc => ?_
        have hc := List.mem_of_head? hc
        exact ⟨hmem c (List.mem_cons_of_mem _ hc), hordered.1 c hc⟩
      · split
        · exact (typeForm_row h (row_text _)).singleton rfl
        · split
          · have he := hmem element (by simp)
            exact h.row_of_child he (h.children element he).each.type
          · exact (typeForm_row h (row_chars _)).singleton rfl
    · split
      · exact (typeForm_row h (row_text _)).singleton rfl
      · exact (typeForm_row h (row_chars _)).singleton rfl

theorem type_row : Row d [s.span] (list (s.type.map TypeForm.toOutline).toList) := by
  unfold type
  split
  · rename_i c hc
    have hc := mem_children_of_wrapped? hc
    exact h.row_of_child hc (h.children c hc).each.type
  · split
    · exact row_nil
    · rename_i hk
      exact typeNameForm_row h hk
    · exact (userTypeForm_row h).singleton rfl
    · exact (typeForm_row h (row_chars _)).singleton rfl
    · exact (typeForm_row h (row_chars _)).singleton rfl

end Types

section Expressions

/-- A keyword that is called is the first child of its site. -/
theorem keyword_first {word : String} (hw : s.calledKeyword = some word) :
    ∃ first rest, s.children = first :: rest ∧ first.label.kind = word ∧
      first.span.start = s.span.start ∧ s.span.start + word.length ≤ first.span.stop ∧
      s.source.slice first.span = word.toList := by
  obtain ⟨first, hhead, hkind, hstart, htext⟩ := h.wellFormed.headed word hw
  obtain ⟨rest, hchildren⟩ := List.head?_eq_some_iff.mp hhead
  have hlaid := h.children first (by simp [hchildren])
  have hforward := hlaid.forward
  have hfirst : first.span.start = s.span.start := by
    rw [hlaid.span, span, spanOf, spanOf, hstart]
  have hlen : word.length ≤ first.span.stop - first.span.start := by
    have := congrArg List.length htext
    simp only [SourceText.slice, Array.length_toList, Array.size_extract,
      String.length_toList] at this
    omega
  exact ⟨first, rest, hchildren, hkind, hfirst, by omega, htext⟩

theorem keyword_inside {word : String} (hw : s.calledKeyword = some word) :
    s.span.start + word.length ≤ s.span.stop := by
  obtain ⟨first, rest, hchildren, _, _, hstop, _⟩ := keyword_first h hw
  have := (h.inside (c := first) (by simp [hchildren])).2
  omega

theorem keyword_before {word : String} (hw : s.calledKeyword = some word) {c : Reading}
    (hc : c ∈ s.children) (hne : c.label.kind ≠ word) :
    s.span.start + word.length ≤ c.span.start := by
  obtain ⟨first, rest, hchildren, hkind, _, hstop, _⟩ := keyword_first h hw
  have hordered := h.ordered
  rw [hchildren] at hc hordered
  rcases List.mem_cons.mp hc with rfl | hc
  · exact absurd hkind hne
  · exact Nat.le_trans hstop ((List.pairwise_cons.mp hordered).1 c hc)

omit h in
theorem keywordNode_row (word : String) :
    Row d [⟨s.span.start, s.span.start + word.length⟩] (s.keywordNode word) :=
  identifierNode_row _ _ (Nat.le_add_right _ _)

omit h in
theorem argument_kind_ne {word : String} (hw : s.calledKeyword = some word) {c : Reading}
    (hc : c ∈ s.argumentParts) : c.label.kind ≠ word := by
  have hword : word = "revert" ∨ word = "payable" ∨ word = "type" := by
    unfold calledKeyword at hw
    split at hw
    · split at hw
      · exact .inl (Option.some.inj hw).symm
      · cases hw
    · exact .inr (.inl (Option.some.inj hw).symm)
    · exact .inr (.inr (Option.some.inj hw).symm)
    · cases hw
  have hkind := (List.mem_filter.mp hc).2
  simp only [Bool.or_eq_true, beq_iff_eq] at hkind
  rcases hkind with hkind | hkind <;> rcases hword with rfl | rfl | rfl <;> simp [hkind]

theorem callNode_row {callee : Outline} {arguments : List Outline} {ps qs : List Span}
    (hc : Row d ps callee) (ha : Row d qs (list arguments))
    (inside : ∀ p ∈ ps ++ qs, p.Within s.span) (clear : d → Span.Clear ps qs) :
    Row d [s.span] (s.callNode callee arguments) := by
  refine h.node (.part hc (.part ha .nil)) ?_ ?_
  · simpa using List.forall_mem_append.mp inside
  · simpa using clear

/-- A call of a keyword, with arguments made from children that are not the keyword. -/
theorem keywordCall_row {word : String} (hw : s.calledKeyword = some word) {cs : List Reading}
    {arguments : List Outline} (hcs : ∀ c ∈ cs, c ∈ s.children ∧ c.label.kind ≠ word)
    (ha : Row d (cs.map Reading.span) (list arguments)) :
    Row d [s.span] (s.callNode (s.keywordNode word) arguments) := by
  refine callNode_row h (keywordNode_row word) ha ?_ fun _ => ?_
  · intro p hp
    rcases List.mem_cons.mp hp with rfl | hp
    · exact ⟨Nat.le_refl _, keyword_inside h hw⟩
    · obtain ⟨c, hc, rfl⟩ := List.mem_map.mp hp
      exact h.inside (hcs c hc).1
  · simp only [Span.Clear, List.mem_singleton, forall_eq, List.forall_mem_map]
    exact fun c hc => .inl (keyword_before h hw (hcs c hc).1 (hcs c hc).2)

theorem literalNode_row {value subdenomination : Outline} (hv : Row d [] value)
    (hs : Row d [] subdenomination) : Row d [s.span] (s.literalNode value subdenomination) :=
  h.leaf (.plain hv (.plain hs .nil))

theorem numberLiteral_row : Row d [s.span] (list [s.numberLiteral]) := by
  unfold numberLiteral
  split
  · exact (literalNode_row h (row_chars _) (row_chars _)).singleton rfl
  · exact (literalNode_row h (row_chars _) row_null).singleton rfl

theorem memberAccess_row (hk : s.kind = "member_expression") : Row d [s.span] s.memberAccess := by
  have hproperty : Row d ((s.field "property").toList.map Reading.span)
      (orNull ((s.field "property").map fun p =>
        identifierNode p.span (s.source.slice p.span))) := by
    cases hp : s.field "property" with
    | none => exact row_null
    | some p =>
      exact identifierNode_row p.span _ (h.children p (mem_children_of_field hp)).forward
  exact h.nodeOfRoles hk
    (.part (h.expressionIn "object") (.part hproperty (.plain (row_flag _) .nil)))

theorem arrayAccess_row (hk : s.kind = "array_access") : Row d [s.span] s.arrayAccess :=
  h.nodeOfRoles hk
    (.part (h.expressionIn "base") (.part (h.expressionIn "index") (.plain (row_flag _) .nil)))

theorem sliceAccess_row (hk : s.kind = "slice_access") : Row d [s.span] s.sliceAccess :=
  h.nodeOfRoles hk
    (.part (h.expressionIn "base")
      (.part (h.expressionIn "from") (.part (h.expressionIn "to") .nil)))

theorem callExpression_row (hk : s.kind = "call_expression") : Row d [s.span] s.callExpression := by
  have hcallee : Row d (((s.field "function").or s.named.head?).toList.map Reading.span)
      (orNull (((s.field "function").or s.named.head?).bind Reading.expression)) :=
    h.optional (fun _ => mem_children_of_field_or fun _ => mem_children_of_head?)
      fun _ hc => hc.each.expression
  exact h.nodeOfRoles hk (.part hcallee (.part h.callArguments .nil))

theorem structExpression_row (hk : s.kind = "struct_expression") :
    Row d [s.span] s.structExpression := by
  have hoptions : Row d ((s.ofKind "struct_field_assignment").map Reading.span)
      (list ((s.ofKind "struct_field_assignment").flatMap Reading.namedValue)) :=
    h.parts (s.filter_named_sublist _) fun _ hc => hc.each.namedValue
  exact h.nodeOfRoles hk (.part (h.expressionIn "type") (.part hoptions .nil))

omit h in
theorem mem_children_of_newType {c : Reading} (hc : s.newType = some c) : c ∈ s.children :=
  mem_children_of_field_or (fun _ => mem_children_of_firstOf) hc

/-- A new object lies from the start of its site to the end of its type. -/
theorem newNode_row {stop : Nat} (hstop : s.span.start ≤ stop)
    (ht : ∀ c, s.newType = some c → c.span.stop ≤ stop) :
    Row d [⟨s.span.start, stop⟩] (newNode ⟨s.span.start, stop⟩ s.newType) := by
  refine Filled.row (.part (h.typeOutline fun _ => mem_children_of_newType) .nil) hstop ?_ (by simp)
  simp only [List.mem_singleton, forall_eq, List.forall_mem_map, Option.mem_toList]
  exact fun c hc => ⟨(h.inside (mem_children_of_newType hc)).1, ht c hc⟩

/-- A new object with arguments ends where its type does, before the arguments. Without a type it is
as wide as its site. -/
theorem newStop_bounds (hk : s.kind = "new_expression") :
    ∃ stop, (s.newType.map fun c => c.span.stop).getD s.span.stop = stop ∧
      s.span.start ≤ stop ∧ stop ≤ s.span.stop ∧ (∀ c, s.newType = some c → c.span.stop ≤ stop) ∧
      (d → ∀ a ∈ s.argumentParts, stop ≤ a.span.start) := by
  refine ⟨_, rfl, ?_⟩
  cases ht : s.newType with
  | none =>
    refine ⟨h.forward, Nat.le_refl _, by simp, fun hd a ha => ?_⟩
    have htype := (h.single hd).newType hk (List.ne_nil_of_mem ha)
    simp [ht] at htype
  | some c =>
    have hc := mem_children_of_newType ht
    have hin := h.inside hc
    have hcalled : s.calledPart = some c := by
      rw [calledPart, hk]
      exact ht
    refine ⟨Nat.le_trans hin.1 (h.children c hc).forward, hin.2, by simp, fun _ a ha => ?_⟩
    exact h.before hc (mem_argumentParts ha) (h.wellFormed.called c hcalled a ha)

theorem newExpression_row (hk : s.kind = "new_expression") : Row d [s.span] s.newExpression := by
  obtain ⟨stop, hstop, hlow, hhigh, htype, hbefore⟩ := newStop_bounds h hk
  have hcall : Row d [s.span]
      (s.callNode (newNode ⟨s.span.start, stop⟩ s.newType) s.callArguments) := by
    refine callNode_row h (newNode_row h hlow htype) h.callArguments ?_ fun hd => ?_
    · intro p hp
      rcases List.mem_cons.mp hp with rfl | hp
      · exact ⟨Nat.le_refl _, hhigh⟩
      · obtain ⟨a, ha, rfl⟩ := List.mem_map.mp hp
        exact h.inside (mem_argumentParts ha)
    · simp only [Span.Clear, List.mem_singleton, forall_eq, List.forall_mem_map]
      exact fun a ha => .inl (hbefore hd a ha)
  rw [← hstop] at hcall
  unfold newExpression
  dsimp only
  split
  · exact newNode_row h h.forward fun c hc => (h.inside (mem_children_of_newType hc)).2
  · exact hcall

theorem typeCast_row (hk : s.kind = "type_cast_expression") : Row d [s.span] s.typeCast :=
  h.nodeOfRoles hk (.part (h.typeOutline fun _ => mem_children_of_firstOf)
    (.part h.callArguments .nil))

theorem payableConversion_row (hk : s.kind = "payable_conversion_expression") :
    Row d [s.span] (s.callNode (s.keywordNode "payable") s.callArguments) := by
  have hw : s.calledKeyword = some "payable" := by
    rw [calledKeyword, hk]
    rfl
  exact keywordCall_row h hw (fun c hc => ⟨mem_argumentParts hc, argument_kind_ne hw hc⟩)
    h.callArguments

theorem metaType_row (hk : s.kind = "meta_type_expression") : Row d [s.span] s.metaType := by
  have hw : s.calledKeyword = some "type" := by
    rw [calledKeyword, hk]
    rfl
  have hrow : ∀ o : Option Reading, (∀ c, o = some c → c ∈ s.children) →
      Row d (o.toList.map Reading.span) (list (o.toList.map fun t => typeOutline (some t))) := by
    intro o ho
    cases o with
    | none => exact row_nil
    | some c => exact row_orNull_singleton (h.children c (ho c rfl)).each.type
  refine keywordCall_row h hw (fun c hc => ?_) (hrow _ fun _ => mem_children_of_firstOf)
  have hc : s.firstOf ["type_name", "primitive_type", "user_defined_type"] = some c := by
    simpa using hc
  refine ⟨mem_children_of_firstOf hc, ?_⟩
  have hkind := List.find?_some hc
  rintro hkt
  simp [hkt] at hkind

theorem binaryExpression_row (hk : s.kind = "binary_expression") :
    Row d [s.span] s.binaryExpression :=
  h.nodeOfRoles hk (.plain (row_chars _)
    (.part (h.expressionIn "left") (.part (h.expressionIn "right") .nil)))

theorem assignmentExpression_row
    (hk : s.kind = "assignment_expression" ∨ s.kind = "augmented_assignment_expression") :
    Row d [s.span] s.assignmentExpression := by
  have filled := Filled.plain (f := .operator)
    (row_chars ((s.textOf? (s.field "operator")).getD ['=']))
    (.part (f := .left) (h.expressionIn "left") (.part (f := .right) (h.expressionIn "right") .nil))
  rcases hk with hk | hk
  · exact h.nodeOfRoles hk filled
  · exact h.nodeOfRoles hk filled

theorem unaryExpression_row (kind : Kind) : Row d [s.span] (s.unaryExpression kind) :=
  h.nodeOf (toList_subset fun _ => mem_children_of_field)
    (.plain (row_chars _) (.part (h.expressionIn "argument") (.plain (row_flag _) .nil)))

theorem parts_row : Row d (s.named.map Reading.span) (list s.parts) := by
  have hrow := h.parts (f := fun c => [orNull c.expression]) s.named_sublist
    fun _ hc => row_orNull_singleton hc.each.expression
  rwa [← List.map_eq_flatMap] at hrow

theorem named_clear {i j : Nat} (hij : i < j) :
    Span.Clear (s.named[i]?.toList.map Reading.span) (s.named[j]?.toList.map Reading.span) := by
  have hordered := List.pairwise_iff_getElem.mp (h.ordered.sublist s.named_sublist)
  simp only [Span.Clear, List.forall_mem_map, Option.mem_toList]
  intro a ha b hb
  obtain ⟨hi, rfl⟩ := List.getElem?_eq_some_iff.mp ha
  obtain ⟨hj, rfl⟩ := List.getElem?_eq_some_iff.mp hb
  exact .inl (hordered i j hi hj hij)

theorem part_row (i : Nat) :
    Row d (s.named[i]?.toList.map Reading.span) (s.parts.getD i .null) := by
  rw [Site.parts, List.getD_eq_getElem?_getD, List.getElem?_map]
  cases hi : s.named[i]? with
  | none => exact row_null
  | some c =>
    have hc := mem_children_of_mem_named (List.mem_of_getElem? hi)
    exact row_orNull (h.children c hc).each.expression

theorem ternaryExpression_row : Row d [s.span] s.ternaryExpression := by
  refine h.node (.part (part_row h 0) (.part (part_row h 1) (.part (part_row h 2) .nil))) ?_ ?_
  · have hin : ∀ i : Nat, ∀ p ∈ s.named[i]?.toList.map Reading.span, p.Within s.span := by
      intro i p hp
      obtain ⟨c, hc, rfl⟩ := List.mem_map.mp hp
      exact h.inside (mem_children_of_mem_named (List.mem_of_getElem? (by simpa using hc)))
    intro ps hps
    simp only [List.mem_cons, List.not_mem_nil, or_false] at hps
    rcases hps with rfl | rfl | rfl
    · exact hin 0
    · exact hin 1
    · exact hin 2
  · intro _
    simp only [List.pairwise_cons, List.mem_cons, List.not_mem_nil, or_false, forall_eq_or_imp,
      forall_eq, false_imp_iff, implies_true, List.Pairwise.nil, and_true]
    exact ⟨⟨named_clear h (by omega), named_clear h (by omega)⟩, named_clear h (by omega)⟩

theorem partsNode_row (kind : Kind) (f : Field) :
    Row d [s.span] (s.node kind [(f, list s.parts)]) :=
  h.nodeOf (fun _ => mem_children_of_mem_named) (.part (parts_row h) .nil)

theorem onlyChild_row {c : Reading} (hc : s.named = [c]) :
    Row d [s.span] (list c.expression.toList) := by
  have hmem : c ∈ s.children := mem_children_of_mem_named (by simp [hc])
  exact h.row_of_child hmem (h.children c hmem).each.expression

theorem tupleExpression_row : Row d [s.span] (list s.tupleExpression.toList) := by
  unfold tupleExpression
  split
  · rename_i c hc
    split
    · exact (partsNode_row h _ _).singleton rfl
    · exact onlyChild_row h hc
  · exact (partsNode_row h _ _).singleton rfl

theorem otherExpression_row : Row d [s.span] (list s.otherExpression.toList) := by
  unfold otherExpression
  split
  · rename_i c hc
    exact onlyChild_row h hc
  · exact (h.leaf .nil).singleton rfl

theorem plainExpression_row : Row d [s.span] (list s.plainExpression.toList) := by
  unfold plainExpression
  split <;> rename_i hk
  · exact (identifierNode_row _ _ h.forward).singleton rfl
  · exact numberLiteral_row h
  · exact (literalNode_row h (row_chars _) row_null).singleton rfl
  · exact (literalNode_row h (row_chars _) row_null).singleton rfl
  · exact (literalNode_row h (row_chars _) row_null).singleton rfl
  · exact (literalNode_row h (row_flag _) row_null).singleton rfl
  · exact (memberAccess_row h hk).singleton rfl
  · exact (arrayAccess_row h hk).singleton rfl
  · exact (sliceAccess_row h hk).singleton rfl
  · exact (callExpression_row h hk).singleton rfl
  · exact (structExpression_row h hk).singleton rfl
  · refine (newExpression_row h hk).singleton ?_
    unfold newExpression
    dsimp only
    split <;> rfl
  · exact (typeCast_row h hk).singleton rfl
  · exact (payableConversion_row h hk).singleton rfl
  · exact (metaType_row h hk).singleton rfl
  · exact (binaryExpression_row h hk).singleton rfl
  · exact (assignmentExpression_row h (.inl hk)).singleton rfl
  · exact (assignmentExpression_row h (.inr hk)).singleton rfl
  · exact (unaryExpression_row h .unary).singleton rfl
  · exact (unaryExpression_row h .update).singleton rfl
  · exact (ternaryExpression_row h).singleton rfl
  · exact tupleExpression_row h
  · exact (partsNode_row h _ _).singleton rfl
  · exact type_row h
  · exact type_row h
  · exact type_row h
  · exact otherExpression_row h

theorem expression_row : Row d [s.span] (list s.expression.toList) := by
  unfold expression
  split
  · rename_i c hc
    have hc := mem_children_of_wrapped? hc
    exact h.row_of_child hc (h.children c hc).each.expression
  · split
    · exact row_nil
    · exact plainExpression_row h

theorem headExpression_row :
    Row d (s.named.head?.toList.map Reading.span)
      (list (s.named.head?.bind Reading.expression).toList) := by
  cases hc : s.named.head? with
  | none => exact row_nil
  | some c => exact (h.children c (mem_children_of_head? hc)).each.expression

theorem namedValue_row : Row d [s.span] (list s.namedValue) := by
  unfold namedValue
  split
  · exact (h.nodeOf (toList_subset fun _ => mem_children_of_field)
      (.plain (row_chars _) (.part (h.expressionIn "value") .nil))).singleton rfl
  · exact row_nil

theorem arguments_row : Row d [s.span] (list s.arguments) := by
  unfold arguments
  split
  · exact h.row_of_children (fun _ => mem_argumentParts) h.callArguments
  · split
    · exact h.row_of_children (toList_subset fun _ => mem_children_of_head?) (headExpression_row h)
    · exact h.row_of_children (fun _ => mem_children_of_ofKind)
        (h.parts (s.filter_named_sublist _) fun _ hc => hc.each.namedValue)
  · exact row_nil

end Expressions

end Site

end SolidityServer
