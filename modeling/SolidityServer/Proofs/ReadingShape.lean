import SolidityServer.Proofs.OutlineShape

/-! Site by site, what is read keeps to the schema, whatever the concrete tree. -/

namespace SolidityServer

theorem identifierNode_conforms (span : Span) (name : List Char) :
    (identifierNode span name).Conforms := by
  refine .node rfl ?_ ?_ <;> simp

theorem TypeForm.toOutline_conforms {t : TypeForm} (hl : t.literal.Conforms)
    (ha : (Outline.list t.arrayParts).Conforms) : t.toOutline.Conforms := by
  refine .node rfl ?_ ?_ <;> simp +decide [hl, ha]

theorem TypeForm.conforms_parts {t : TypeForm} (h : t.toOutline.Conforms) :
    t.literal.Conforms ∧ (Outline.list t.arrayParts).Conforms := by
  cases h with
  | node _ each _ => exact ⟨each (.literal, _) (by simp), each (.arrayParts, _) (by simp)⟩

namespace Site

open Outline

variable {s : Site}

section Types

variable (h : ∀ c ∈ s.children, c.Conforms)

theorem typeForm_conforms {literal : Outline} (hl : literal.Conforms) :
    (s.typeForm literal).toOutline.Conforms := TypeForm.toOutline_conforms hl conforms_nil

theorem userTypeForm_conforms : s.userTypeForm.toOutline.Conforms := by
  unfold userTypeForm
  split
  · exact TypeForm.toOutline_conforms (conforms_chars _) conforms_nil
  · exact typeForm_conforms (conforms_chars _)

theorem arrayForm_conforms {element : Reading} {size : Option Reading} (he : element.Conforms)
    (hs : ∀ c, size = some c → c.Conforms) :
    (list ((s.arrayForm element size).map TypeForm.toOutline).toList).Conforms := by
  unfold arrayForm
  have ht := he.type
  cases hte : element.type with
  | none => exact conforms_nil
  | some inner =>
    rw [hte] at ht
    obtain ⟨hl, ha⟩ := TypeForm.conforms_parts (conforms_list_iff.mp ht inner.toOutline (by simp)).2
    refine conforms_singleton rfl (TypeForm.toOutline_conforms hl ?_)
    rw [conforms_list_iff]
    intro o ho
    rcases List.mem_append.mp ho with ho | ho
    · exact conforms_list_iff.mp ha o ho
    · rw [List.mem_singleton.mp ho]
      cases size with
      | none => exact ⟨rfl, .null⟩
      | some c =>
        cases hx : c.expression with
        | none => simp [orNull, hx, isList]
        | some x =>
          have := conforms_list_iff.mp (hs c rfl).expression x (by simp [hx])
          simpa [orNull, hx] using this

include h

theorem mappingForm_conforms {key : Reading} (hk : key.Conforms) :
    (s.mappingForm key).toOutline.Conforms := by
  have hv : (orNull (((s.field "value_type").bind Reading.type).map TypeForm.toOutline)).Conforms :=
    typeIn_conforms h "value_type"
  apply typeForm_conforms
  refine node_conforms rfl ?_
  simp +decide [conforms_orNull hk.type, hv, -Option.map_bind]

theorem typeNameForm_conforms :
    (list (s.typeNameForm.map TypeForm.toOutline).toList).Conforms := by
  unfold typeNameForm
  split
  · rename_i key hkey
    exact conforms_singleton rfl (mappingForm_conforms h (h key (mem_children_of_field hkey)))
  · split
    · rename_i element rest hnamed
      have hc : ∀ c ∈ element :: rest, c.Conforms := fun c hc =>
        h c (mem_children_of_mem_named (hnamed ▸ hc))
      split
      · refine arrayForm_conforms (hc element (by simp)) fun c hhead => ?_
        exact hc c (List.mem_cons_of_mem _ (List.mem_of_head? hhead))
      · split
        · exact conforms_singleton rfl (typeForm_conforms (conforms_text _))
        · split
          · exact (hc element (by simp)).type
          · exact conforms_singleton rfl (typeForm_conforms (conforms_chars _))
    · split
      · exact conforms_singleton rfl (typeForm_conforms (conforms_text _))
      · exact conforms_singleton rfl (typeForm_conforms (conforms_chars _))

theorem type_conforms : (list (s.type.map TypeForm.toOutline).toList).Conforms := by
  unfold type
  split
  · rename_i c hc
    exact (h c (mem_children_of_wrapped? hc)).type
  · split
    · exact conforms_nil
    · exact typeNameForm_conforms h
    · exact conforms_singleton rfl userTypeForm_conforms
    · exact conforms_singleton rfl (typeForm_conforms (conforms_chars _))
    · exact conforms_singleton rfl (typeForm_conforms (conforms_chars _))

end Types

section Expressions

variable (h : ∀ c ∈ s.children, c.Conforms)

theorem literalNode_conforms {value subdenomination : Outline}
    (hv : value.Conforms ∧ value.Aside .literal .value)
    (hs : subdenomination.Conforms ∧ subdenomination.Aside .literal .subdenomination) :
    (s.literalNode value subdenomination).Conforms :=
  node_conforms rfl (by simp [hv, hs])

theorem numberLiteral_conforms : (list [s.numberLiteral]).Conforms := by
  unfold numberLiteral
  split
  · exact conforms_singleton rfl (literalNode_conforms (by simp) (by simp))
  · exact conforms_singleton rfl (literalNode_conforms (by simp) (by simp))

theorem callNode_conforms {callee : Outline} {arguments : List Outline} (hc : callee.Conforms)
    (ha : (list arguments).Conforms) : (s.callNode callee arguments).Conforms :=
  node_conforms rfl (by simp +decide [hc, ha])

theorem newNode_conforms (span : Span) {target : Option Reading}
    (ht : ∀ c, target = some c → c.Conforms) : (newNode span target).Conforms := by
  refine .node rfl ?_ ?_ <;> simp +decide [typeOutline_conforms ht]

include h

theorem memberAccess_conforms : s.memberAccess.Conforms := by
  refine node_conforms rfl ?_
  cases s.field "property" with
  | none => simp +decide [expressionIn_conforms h, orNull]
  | some p => simp +decide [expressionIn_conforms h, orNull, identifierNode_conforms]

theorem arrayAccess_conforms : s.arrayAccess.Conforms :=
  node_conforms rfl (by simp +decide [expressionIn_conforms h])

theorem sliceAccess_conforms : s.sliceAccess.Conforms :=
  node_conforms rfl (by simp +decide [expressionIn_conforms h])

theorem callExpression_conforms : s.callExpression.Conforms := by
  refine callNode_conforms (conforms_orNull (conforms_bind fun c hc => ?_))
    (callArguments_conform h)
  exact (h c (mem_children_of_field_or (fun _ => mem_children_of_head?) hc)).expression

theorem structExpression_conforms : s.structExpression.Conforms := by
  have ho : (list ((s.ofKind "struct_field_assignment").flatMap Reading.namedValue)).Conforms :=
    conforms_flatMap fun c hc => (h c (mem_children_of_ofKind hc)).namedValue
  exact node_conforms rfl (by simp +decide [expressionIn_conforms h, ho])

theorem newExpression_conforms : (list [s.newExpression]).Conforms := by
  have ht : ∀ c, (s.field "name").or (s.firstOf ["type_name"]) = some c → c.Conforms := fun c hc =>
    h c (mem_children_of_field_or (fun _ => mem_children_of_firstOf) hc)
  unfold newExpression
  split
  · exact conforms_singleton rfl (newNode_conforms _ ht)
  · exact conforms_singleton rfl
      (callNode_conforms (newNode_conforms _ ht) (callArguments_conform h))

theorem typeCast_conforms : s.typeCast.Conforms :=
  callNode_conforms (typeOutline_conforms fun c hc => h c (mem_children_of_firstOf hc))
    (callArguments_conform h)

theorem metaType_conforms : s.metaType.Conforms := by
  refine callNode_conforms (identifierNode_conforms _ _) ?_
  rw [conforms_list_iff]
  simp only [List.forall_mem_map, Option.mem_toList]
  intro t ht
  have hc := (h t (mem_children_of_firstOf ht)).type
  refine ⟨?_, typeOutline_conforms fun c hc => h c (mem_children_of_firstOf (ht.trans hc))⟩
  cases hty : t.type with
  | none => simp [typeOutline, hty, orNull, isList]
  | some form => simp [typeOutline, hty, orNull, isList, TypeForm.toOutline]

theorem binaryExpression_conforms : s.binaryExpression.Conforms :=
  node_conforms rfl (by simp +decide [expressionIn_conforms h])

theorem assignmentExpression_conforms : s.assignmentExpression.Conforms :=
  node_conforms rfl (by simp +decide [expressionIn_conforms h])

theorem unaryExpression_conforms {kind : Kind} (hk : kind = .unary ∨ kind = .update) :
    (s.unaryExpression kind).Conforms := by
  rcases hk with rfl | rfl
  · exact node_conforms rfl (by simp +decide [expressionIn_conforms h])
  · exact node_conforms rfl (by simp +decide [expressionIn_conforms h])

theorem parts_conforms : (list s.parts).Conforms := by
  rw [conforms_list_iff]
  simp only [parts, List.forall_mem_map]
  intro c hc
  have he := (h c (mem_children_of_mem_named hc)).expression
  cases hx : c.expression with
  | none => exact ⟨rfl, .null⟩
  | some x => exact conforms_list_iff.mp he x (by simp [hx])

theorem part_conforms (index : Nat) : (s.parts[index]?.getD .null).Conforms := by
  cases hx : s.parts[index]? with
  | none => exact .null
  | some x => exact (conforms_list_iff.mp (parts_conforms h) x (List.mem_of_getElem? hx)).2

theorem ternaryExpression_conforms : s.ternaryExpression.Conforms := by
  refine node_conforms rfl ?_
  simp +decide [part_conforms h]

theorem partsNode_conforms {kind : Kind} {f : Field} (keys : [f] = kind.fields.map Prod.fst)
    (hf : f ∈ kind.slots) : (list [s.node kind [(f, .list s.parts)]]).Conforms := by
  refine conforms_singleton rfl (node_conforms keys ?_)
  simp [parts_conforms h, hf]

theorem tupleExpression_conforms : (list s.tupleExpression.toList).Conforms := by
  unfold tupleExpression
  split
  · rename_i c hc
    split
    · exact partsNode_conforms h rfl (by decide)
    · exact (h c (mem_children_of_mem_named (by simp [hc]))).expression
  · exact partsNode_conforms h rfl (by decide)

theorem otherExpression_conforms : (list s.otherExpression.toList).Conforms := by
  unfold otherExpression
  split
  · rename_i c hc
    exact (h c (mem_children_of_mem_named (by simp [hc]))).expression
  · exact conforms_singleton rfl (node_conforms rfl (by simp))

theorem plainExpression_conforms : (list s.plainExpression.toList).Conforms := by
  unfold plainExpression
  split
  · exact conforms_singleton rfl (identifierNode_conforms _ _)
  · exact numberLiteral_conforms
  · exact conforms_singleton rfl (literalNode_conforms (by simp) (by simp))
  · exact conforms_singleton rfl (literalNode_conforms (by simp) (by simp))
  · exact conforms_singleton rfl (literalNode_conforms (by simp) (by simp))
  · exact conforms_singleton rfl (literalNode_conforms (by simp) (by simp))
  · exact conforms_singleton rfl (memberAccess_conforms h)
  · exact conforms_singleton rfl (arrayAccess_conforms h)
  · exact conforms_singleton rfl (sliceAccess_conforms h)
  · exact conforms_singleton rfl (callExpression_conforms h)
  · exact conforms_singleton rfl (structExpression_conforms h)
  · exact newExpression_conforms h
  · exact conforms_singleton rfl (typeCast_conforms h)
  · exact conforms_singleton rfl
      (callNode_conforms (identifierNode_conforms _ _) (callArguments_conform h))
  · exact conforms_singleton rfl (metaType_conforms h)
  · exact conforms_singleton rfl (binaryExpression_conforms h)
  · exact conforms_singleton rfl (assignmentExpression_conforms h)
  · exact conforms_singleton rfl (assignmentExpression_conforms h)
  · exact conforms_singleton rfl (unaryExpression_conforms h (.inl rfl))
  · exact conforms_singleton rfl (unaryExpression_conforms h (.inr rfl))
  · exact conforms_singleton rfl (ternaryExpression_conforms h)
  · exact tupleExpression_conforms h
  · exact partsNode_conforms h rfl (by decide)
  · exact type_conforms h
  · exact type_conforms h
  · exact type_conforms h
  · exact otherExpression_conforms h

theorem expression_conforms : (list s.expression.toList).Conforms := by
  unfold expression
  split
  · rename_i c hc
    exact (h c (mem_children_of_wrapped? hc)).expression
  · split
    · exact conforms_nil
    · exact plainExpression_conforms h

theorem headExpression_conforms :
    (list (s.named.head?.bind Reading.expression).toList).Conforms :=
  conforms_bind fun c hc => (h c (mem_children_of_head? hc)).expression

theorem namedValue_conforms : (list s.namedValue).Conforms := by
  unfold namedValue
  split
  · refine conforms_singleton rfl (node_conforms rfl ?_)
    simp +decide [name, expressionIn_conforms h]
  · exact conforms_nil

theorem arguments_conform : (list s.arguments).Conforms := by
  unfold arguments
  split
  · exact callArguments_conform h
  · split
    · exact headExpression_conforms h
    · exact conforms_flatMap fun c hc => (h c (mem_children_of_ofKind hc)).namedValue
  · exact conforms_nil

end Expressions

section Statements

variable (h : ∀ c ∈ s.children, c.Conforms)

theorem statementCall_conforms {callee : Outline} (hc : callee.Conforms)
    (ha : (list s.callArguments).Conforms) : (s.statementCall callee).Conforms := by
  refine .node rfl ?_ ?_ <;> simp +decide [hc, ha]

include h

theorem block_conforms : (list s.block.toList).Conforms := by
  unfold block
  split
  · exact conforms_nil
  · have hb := parts_conform h fun _ _ hc => hc.statements
    exact conforms_singleton rfl (node_conforms rfl (by simp +decide [hb]))

theorem blockStatement_conforms : (list s.blockStatement.toList).Conforms := by
  unfold blockStatement
  split
  · have hb := conforms_orNull (block_conforms h)
    exact conforms_singleton rfl (node_conforms rfl (by simp +decide [hb]))
  · exact block_conforms h

theorem expressionStatement_conforms : (list [s.expressionStatement]).Conforms := by
  unfold expressionStatement
  dsimp only
  split
  · exact conforms_singleton rfl (node_conforms rfl (by simp))
  · have he := conforms_orNull (headExpression_conforms h)
    exact conforms_singleton rfl (node_conforms rfl (by simp +decide [he]))

theorem declarativeNode_conforms {location : Outline}
    (hl : location.Conforms ∧ location.Aside .declarative .storageLocation) :
    (s.declarativeNode location).Conforms :=
  node_conforms rfl (by simp +decide [name, typeIn_conforms h, hl])

theorem declared_conforms : (list s.declared).Conforms := by
  unfold declared
  split
  · exact conforms_singleton rfl (declarativeNode_conforms h (by simp))
  · exact conforms_nil

theorem declarations_conform : (list s.declarations).Conforms := by
  unfold declarations
  split
  · exact declared_conforms h
  · exact parts_conform h fun _ _ hc => hc.declared
  · exact conforms_nil

theorem variableDeclaration_conforms : s.variableDeclaration.Conforms := by
  have hd := parts_conform h fun _ _ hc => hc.declarations
  exact node_conforms rfl (by simp +decide [hd, expressionIn_conforms h])

theorem ifStatement_conforms : s.ifStatement.Conforms :=
  node_conforms rfl (by simp +decide [expressionIn_conforms h, statementIn_conforms h])

theorem loopTest_conforms : s.loopTest.Conforms := by
  refine conforms_orNull (conforms_bind fun c hc => ?_)
  have hc := h c (mem_children_of_field hc)
  split
  · exact hc.headExpression
  · exact hc.expression

theorem forStatement_conforms : s.forStatement.Conforms := by
  refine node_conforms rfl ?_
  simp +decide [loopTest_conforms h, expressionIn_conforms h, statementIn_conforms h]

theorem parameter_conforms : (list s.parameter).Conforms := by
  unfold parameter
  split
  · exact conforms_singleton rfl (node_conforms rfl (by simp +decide [typeIn_conforms h]))
  · exact conforms_nil

theorem catchClause_conforms : (list s.catchClause).Conforms := by
  unfold catchClause
  split
  · refine conforms_singleton rfl (node_conforms rfl ?_)
    simp +decide [parameters_conform h, blockIn_conforms h]
  · exact conforms_nil

theorem tryStatement_conforms : s.tryStatement.Conforms := by
  have hr : (list ((s.ofKind "parameter").flatMap Reading.parameter)).Conforms :=
    conforms_flatMap fun c hc => (h c (mem_children_of_ofKind hc)).parameter
  have hc := parts_conform h fun _ _ hc => hc.catchClause
  exact node_conforms rfl
    (by simp +decide [expressionIn_conforms h, hr, blockIn_conforms h, hc])

theorem emitCall_conforms : s.emitCall.Conforms := by
  unfold emitCall
  cases hf : s.field "name" with
  | none => exact .null
  | some c =>
    have hc := (h c (mem_children_of_field hf)).expression
    cases hx : c.expression with
    | none => simp [orNull, hx]
    | some callee =>
      have hcallee := (conforms_list_iff.mp hc callee (by simp [hx])).2
      simpa [orNull, hx] using statementCall_conforms hcallee (callArguments_conform h)

theorem revertCall_conforms : s.revertCall.Conforms := by
  unfold revertCall
  split
  · rename_i c hf
    have hc := (h c (mem_children_of_field hf)).expression
    cases hx : c.expression with
    | none => exact .null
    | some callee =>
      have hcallee := (conforms_list_iff.mp hc callee (by simp [hx])).2
      exact statementCall_conforms hcallee (callArguments_conform h)
  · exact statementCall_conforms (identifierNode_conforms _ _) (callArguments_conform h)

theorem looseStatement_conforms : (list s.looseStatement.toList).Conforms := by
  unfold looseStatement
  split
  · rename_i e he
    split
    · exact conforms_nil
    · have hx := (conforms_list_iff.mp (expression_conforms h) e (by simp [he])).2
      exact conforms_singleton rfl (node_conforms rfl (by simp +decide [hx]))
  · exact conforms_nil

theorem plainStatement_conforms : (list s.plainStatement.toList).Conforms := by
  have hhead := conforms_orNull (headExpression_conforms h)
  unfold plainStatement
  split
  · exact blockStatement_conforms h
  · exact blockStatement_conforms h
  · exact expressionStatement_conforms h
  · exact conforms_singleton rfl (variableDeclaration_conforms h)
  · exact conforms_singleton rfl (ifStatement_conforms h)
  · exact conforms_singleton rfl (forStatement_conforms h)
  · exact conforms_singleton rfl (node_conforms rfl
      (by simp +decide [expressionIn_conforms h, statementIn_conforms h]))
  · exact conforms_singleton rfl (node_conforms rfl
      (by simp +decide [expressionIn_conforms h, statementIn_conforms h]))
  · exact conforms_singleton rfl (node_conforms rfl (by simp +decide [hhead]))
  · exact conforms_singleton rfl (node_conforms rfl (by simp +decide [emitCall_conforms h]))
  · exact conforms_singleton rfl (node_conforms rfl (by simp +decide [revertCall_conforms h]))
  · exact conforms_singleton rfl (tryStatement_conforms h)
  · exact conforms_singleton rfl (node_conforms rfl (by simp))
  · exact conforms_singleton rfl (node_conforms rfl (by simp))
  · exact conforms_singleton rfl (node_conforms rfl (by simp))
  · exact looseStatement_conforms h

theorem statement_conforms : (list s.statement.toList).Conforms := by
  unfold statement
  split
  · rename_i c hc
    exact (h c (mem_children_of_wrapped? hc)).statement
  · exact plainStatement_conforms h

end Statements

section Declarations

variable (h : ∀ c ∈ s.children, c.Conforms)

theorem importStatement_conforms : s.importStatement.Conforms := by
  have hsymbol : ∀ y : Symbol, y.toOutline.Conforms := fun y => by
    refine .node rfl ?_ ?_ <;> simp
  have hsymbols : ∀ ys : List Symbol, (list (ys.map Symbol.toOutline)).Conforms := fun ys => by
    rw [conforms_list_iff]
    simp only [List.forall_mem_map]
    exact fun y _ => ⟨rfl, hsymbol y⟩
  have haside : ∀ ys : List Symbol,
      Aside .importStatement .symbols (list (ys.map Symbol.toOutline)) := fun ys => by
    refine .inr ⟨rfl, rfl, ?_⟩
    simp only [nodes, List.mem_filter, List.mem_map]
    rintro _ ⟨⟨y, _, rfl⟩, _⟩
    rfl
  refine node_conforms rfl ?_
  simp [hsymbols, haside, -List.map_reverse]

include h

theorem usingDirective_conforms : s.usingDirective.Conforms := by
  have ht : (list ((s.children.foldl (UsingParts.add s.source (s.hasToken "\x7b")) {}).target.map
      TypeForm.toOutline).toList).Conforms := by
    rcases usingTarget_cases s.source (s.hasToken "\x7b") s.children {} with ht | ⟨c, hc, ht⟩
    · rw [ht]
      exact conforms_nil
    · rw [ht]
      exact (h c hc).type
  refine node_conforms rfl ?_
  simp +decide [flagOf, conforms_orNull ht]

theorem inheritance_conforms : (list s.inheritance).Conforms := by
  unfold inheritance
  split
  · exact conforms_singleton rfl (node_conforms rfl (by simp +decide [callArguments_conform h]))
  · exact conforms_nil

theorem containerFields_conform : ∀ e ∈ s.containerFields, e.2.Conforms := by
  have hbases := parts_conform h fun _ _ hc => hc.inheritance
  have hbody : (list ((((s.field "body").or (s.firstOf ["contract_body"])).map
      Reading.body).getD [])).Conforms := by
    cases hb : (s.field "body").or (s.firstOf ["contract_body"]) with
    | none => exact conforms_nil
    | some c => exact (h c (mem_children_of_field_or (fun _ => mem_children_of_firstOf) hb)).body
  simp [containerFields, name, hbases, hbody]

theorem container_conforms {kind : Kind} (hk : kind = .library ∨ kind = .interface) :
    (s.node kind s.containerFields).Conforms := by
  have hf := containerFields_conform h
  rcases hk with rfl | rfl
  · refine node_conforms rfl fun e he => ⟨hf e he, ?_⟩
    revert e
    simp +decide [containerFields, name]
  · refine node_conforms rfl fun e he => ⟨hf e he, ?_⟩
    revert e
    simp +decide [containerFields, name]

theorem contract_conforms : s.contract.Conforms := by
  have hf := containerFields_conform h
  refine node_conforms rfl ?_
  simp only [List.forall_mem_append]
  refine ⟨fun e he => ⟨hf e he, ?_⟩, by simp [flagOf]⟩
  revert e
  simp +decide [containerFields, name]

theorem modifierCall_conforms : (list s.modifierCall).Conforms := by
  unfold modifierCall
  split
  · exact conforms_singleton rfl (node_conforms rfl (by simp +decide [callArguments_conform h]))
  · exact conforms_nil

theorem function_conforms : s.function.Conforms := by
  have hn : s.functionHead.2.Conforms ∧ s.functionHead.2.Aside .function .name := by
    unfold functionHead
    split
    · simp
    · simp
    · split <;> simp
  have hm := parts_conform h fun _ _ hc => hc.modifierCall
  have hr : (list ((((s.field "return_type").or (s.firstOf ["return_type_definition"])).map
      Reading.parameters).getD [])).Conforms := by
    cases hr : (s.field "return_type").or (s.firstOf ["return_type_definition"]) with
    | none => exact conforms_nil
    | some c =>
      exact (h c (mem_children_of_field_or (fun _ => mem_children_of_firstOf) hr)).parameters
  refine node_conforms rfl ?_
  simp +decide [hn, parameters_conform h, hm, hr, blockIn_conforms h, textOfFirst, flagOfNode]

theorem modifier_conforms : s.modifier.Conforms :=
  node_conforms rfl (by simp +decide [name, parameters_conform h, blockIn_conforms h])

theorem stateVariable_conforms : s.stateVariable.Conforms := by
  refine node_conforms rfl ?_
  simp +decide [name, typeIn_conforms h, expressionIn_conforms h, textOfFirst, flagOfNode]

theorem structMembers_conform : (list s.structMembers).Conforms := by
  unfold structMembers
  split
  · exact conforms_singleton rfl (declarativeNode_conforms h (by simp))
  · split
    · exact parts_conform h fun _ _ hc => hc.structMembers
    · exact conforms_nil

theorem struct_conforms : s.struct.Conforms := by
  have hm := parts_conform h fun _ _ hc => hc.structMembers
  exact node_conforms rfl (by simp +decide [name, hm])

omit h in
theorem enum_conforms : s.enum.Conforms := node_conforms rfl (by simp [name])

theorem event_conforms : s.event.Conforms :=
  node_conforms rfl (by simp +decide [name, flagOf, parameters_conform h])

theorem error_conforms : s.error.Conforms :=
  node_conforms rfl (by simp +decide [name, parameters_conform h])

theorem userType_conforms : s.userType.Conforms := by
  have ht : (typeOutline ((s.field "value").or (s.firstOf ["primitive_type"]))).Conforms :=
    typeOutline_conforms fun c hc =>
      h c (mem_children_of_field_or (fun _ => mem_children_of_firstOf) hc)
  exact node_conforms rfl (by simp +decide [name, ht])

theorem member_conforms : (list s.member.toList).Conforms := by
  unfold member
  split
  · exact conforms_singleton rfl (function_conforms h)
  · exact conforms_singleton rfl (function_conforms h)
  · exact conforms_singleton rfl (function_conforms h)
  · exact conforms_singleton rfl (modifier_conforms h)
  · exact conforms_singleton rfl (stateVariable_conforms h)
  · exact conforms_singleton rfl (stateVariable_conforms h)
  · exact conforms_singleton rfl (struct_conforms h)
  · exact conforms_singleton rfl enum_conforms
  · exact conforms_singleton rfl (event_conforms h)
  · exact conforms_singleton rfl (error_conforms h)
  · exact conforms_singleton rfl (userType_conforms h)
  · exact conforms_singleton rfl (usingDirective_conforms h)
  · exact conforms_nil

theorem unit_conforms : (list s.unit.toList).Conforms := by
  unfold unit
  split
  · exact conforms_singleton rfl (node_conforms rfl (by simp))
  · exact conforms_singleton rfl importStatement_conforms
  · exact conforms_singleton rfl (contract_conforms h)
  · exact conforms_singleton rfl (container_conforms h (.inl rfl))
  · exact conforms_singleton rfl (container_conforms h (.inr rfl))
  · exact member_conforms h

theorem contribution_conforms {inside : Reading → List Outline} {own : Option Outline}
    (hi : ∀ c ∈ s.named, c.Conforms → (list (inside c)).Conforms)
    (ho : (list own.toList).Conforms) : (list (s.contribution inside own)).Conforms := by
  unfold contribution
  split
  · exact conforms_nil
  · split
    · exact parts_conform h hi
    · exact ho

end Declarations

/-- One site keeps to the schema if its children do. -/
theorem read_conforms (h : ∀ c ∈ s.children, c.Conforms) : s.read.Conforms where
  expression := expression_conforms h
  type := type_conforms h
  statement := statement_conforms h
  block := block_conforms h
  headExpression := headExpression_conforms h
  units := contribution_conforms h (fun _ _ hc => hc.units) (unit_conforms h)
  members := contribution_conforms h (fun _ _ hc => hc.members) (member_conforms h)
  statements := contribution_conforms h (fun _ _ hc => hc.statements) (statement_conforms h)
  body := parts_conform h fun _ _ hc => hc.members
  parameter := parameter_conforms h
  parameters := parameters_conform h
  arguments := arguments_conform h
  namedValue := namedValue_conforms h
  inheritance := inheritance_conforms h
  modifierCall := modifierCall_conforms h
  structMembers := structMembers_conform h
  declared := declared_conforms h
  declarations := declarations_conform h
  catchClause := catchClause_conforms h

end Site

/-- The outline of any tree keeps to the schema. -/
theorem Concrete.program_conforms (source : SourceText) (root : Concrete) :
    (root.program source).Conforms := by
  have hc := Concrete.site_children_of_sites source root fun _ _ => Site.read_conforms
  have hb : (Outline.list (root.body source)).Conforms :=
    Site.parts_conform hc fun _ _ h => h.units
  refine .node rfl ?_ ?_ <;> simp +decide [hb]

end SolidityServer
