import SolidityServer.Proofs.Sites

/-! How deep outlines nest. A site adds at most three levels to what its children read, so an
outline is at most three times as high as the concrete tree it is made from. -/

namespace SolidityServer

mutual

/-- The levels of a concrete tree, named or not. -/
def Concrete.height : Concrete → Nat
  | .node _ cs => Concrete.heightOf cs + 1

def Concrete.heightOf : List Concrete → Nat
  | [] => 0
  | c :: cs => max c.height (Concrete.heightOf cs)

end

mutual

/-- The levels of an outline, where nodes and lists are levels and plain values are none. -/
def Outline.height : Outline → Nat
  | .null | .flag _ | .text _ => 0
  | .list items => Outline.itemsHeight items + 1
  | .node _ _ fields => Outline.fieldsHeight fields + 1

def Outline.itemsHeight : List Outline → Nat
  | [] => 0
  | o :: items => max o.height (Outline.itemsHeight items)

def Outline.fieldsHeight : List (Field × Outline) → Nat
  | [] => 0
  | (_, o) :: fields => max o.height (Outline.fieldsHeight fields)

end

variable {n : Nat}

namespace Outline

variable {kind : Kind} {span : Span} {items : List Outline} {fields : List (Field × Outline)}

@[simp] theorem height_null : height .null = 0 := rfl

@[simp] theorem height_flag (b : Bool) : (flag b).height = 0 := rfl

@[simp] theorem height_text (t : String) : (text t).height = 0 := rfl

@[simp] theorem height_chars (cs : List Char) : (chars cs).height = 0 := rfl

@[simp] theorem height_chars? (cs : Option (List Char)) : (chars? cs).height = 0 := by
  cases cs with
  | none => rfl
  | some cs => rfl

/-- None of the outlines is higher than `n`. -/
def Low (n : Nat) (os : List Outline) : Prop := ∀ o ∈ os, o.height ≤ n

theorem Low.mono {m : Nat} (h : Low n items) (hm : n ≤ m) : Low m items :=
  fun o ho => Nat.le_trans (h o ho) hm

theorem itemsHeight_le : itemsHeight items ≤ n ↔ Low n items := by
  induction items with
  | nil => simp [itemsHeight, Low]
  | cons o items ih => rw [itemsHeight, Nat.max_le, ih, Low, Low, List.forall_mem_cons]

theorem fieldsHeight_le : fieldsHeight fields ≤ n ↔ ∀ e ∈ fields, e.2.height ≤ n := by
  induction fields with
  | nil => simp [fieldsHeight]
  | cons e fields ih => rw [fieldsHeight, Nat.max_le, ih, List.forall_mem_cons]

@[simp] theorem height_list_le : (list items).height ≤ n + 1 ↔ Low n items := by
  rw [height, Nat.add_le_add_iff_right, itemsHeight_le]

@[simp] theorem height_node_le :
    (node kind span fields).height ≤ n + 1 ↔ ∀ e ∈ fields, e.2.height ≤ n := by
  rw [height, Nat.add_le_add_iff_right, fieldsHeight_le]

@[simp] theorem height_texts_le (ss : List (List Char)) : (texts ss).height ≤ n + 1 := by
  simp [texts, Low]

theorem height_lt_of_mem_items {o : Outline} (ho : o ∈ items) : o.height < (list items).height :=
  Nat.lt_succ_of_le (itemsHeight_le.mp (Nat.le_refl _) o ho)

theorem height_lt_of_mem_fields {e : Field × Outline} (he : e ∈ fields) :
    e.2.height < (node kind span fields).height :=
  Nat.lt_succ_of_le (fieldsHeight_le.mp (Nat.le_refl _) e he)

theorem low_nil : Low n [] := fun _ ho => absurd ho List.not_mem_nil

theorem low_singleton {o : Outline} (h : o.height ≤ n) : Low n [o] := by
  intro x hx
  rw [List.mem_singleton.mp hx]
  exact h

theorem low_flatMap {α : Type} {l : List α} {f : α → List Outline} (h : ∀ a ∈ l, Low n (f a)) :
    Low n (l.flatMap f) := by
  intro o ho
  obtain ⟨a, ha, hoa⟩ := List.mem_flatMap.mp ho
  exact h a ha o hoa

theorem low_bind {α : Type} {a : Option α} {f : α → Option Outline}
    (h : ∀ x, a = some x → Low n (f x).toList) : Low n (a.bind f).toList := by
  cases a with
  | none => exact low_nil
  | some x => exact h x rfl

theorem height_orNull_le {o : Option Outline} (h : Low n o.toList) : (orNull o).height ≤ n := by
  cases o with
  | none => exact Nat.zero_le n
  | some x => exact h x (by simp)

end Outline

/-- No outline of a reading is higher than `n`. -/
abbrev Reading.Low (n : Nat) (r : Reading) : Prop := r.Each (Outline.Low n)

theorem Reading.Low.mono {m : Nat} {r : Reading} (h : r.Low n) (hm : n ≤ m) : r.Low m :=
  h.imp fun _ hos => hos.mono hm

theorem TypeForm.toOutline_height_le {t : TypeForm} (hl : t.literal.height ≤ n + 1)
    (ha : Outline.Low n t.arrayParts) : t.toOutline.height ≤ n + 2 := by
  simp [toOutline, hl, ha]

theorem identifierNode_height_le (span : Span) (name : List Char) :
    (identifierNode span name).height ≤ n + 1 := by
  simp [identifierNode]

namespace Site

open Outline

variable {s : Site}

@[simp] theorem node_height_le {kind : Kind} {fields : List (Field × Outline)} :
    (s.node kind fields).height ≤ n + 1 ↔ ∀ e ∈ fields, e.2.height ≤ n := Outline.height_node_le

section Parts

variable (h : ∀ c ∈ s.children, c.Low n)

theorem typeOutline_low {r : Option Reading} (hr : ∀ c, r = some c → c.Low n) :
    (typeOutline r).height ≤ n := by
  cases r with
  | none => exact Nat.zero_le n
  | some c => exact height_orNull_le (hr c rfl).type

include h

theorem expressionIn_low (role : String) : (s.expressionIn role).height ≤ n :=
  height_orNull_le (low_bind fun c hc => (h c (mem_children_of_field hc)).expression)

theorem statementIn_low (role : String) : (s.statementIn role).height ≤ n :=
  height_orNull_le (low_bind fun c hc => (h c (mem_children_of_field hc)).statement)

theorem blockIn_low (role : String) : (s.blockIn role).height ≤ n :=
  height_orNull_le (low_bind fun c hc => (h c (mem_children_of_field hc)).block)

theorem typeIn_low (role : String) : (typeOutline (s.field role)).height ≤ n :=
  typeOutline_low fun c hc => h c (mem_children_of_field hc)

theorem headExpression_low : Low n (s.named.head?.bind Reading.expression).toList :=
  low_bind fun c hc => (h c (mem_children_of_head? hc)).expression

theorem named_low {f : Reading → List Outline} (hf : ∀ c : Reading, c.Low n → Low n (f c)) :
    Low n (s.named.flatMap f) :=
  low_flatMap fun c hc => hf c (h c (mem_children_of_mem_named hc))

theorem callArguments_low : Low n s.callArguments := named_low h fun _ hc => hc.arguments

theorem parameters_low : Low n s.parameters := named_low h fun _ hc => hc.parameter

end Parts

section Types

variable (h : ∀ c ∈ s.children, c.Low n)

theorem typeForm_low {literal : Outline} (hl : literal.height ≤ n + 1) :
    Low (n + 2) [(s.typeForm literal).toOutline] :=
  low_singleton (TypeForm.toOutline_height_le hl low_nil)

theorem userTypeForm_low : Low (n + 2) [s.userTypeForm.toOutline] := by
  unfold userTypeForm
  split
  · exact low_singleton (TypeForm.toOutline_height_le (by simp) low_nil)
  · exact typeForm_low (by simp)

/-- The form of the element type is kept, so a further part makes it no higher than its own size
does. -/
theorem arrayForm_low {element : Reading} {size : Option Reading} (he : element.Low n)
    (hs : ∀ c, size = some c → c.Low n) :
    Low (n + 2) ((s.arrayForm element size).map TypeForm.toOutline).toList := by
  unfold arrayForm
  have ht := he.type
  cases hte : element.type with
  | none => exact low_nil
  | some inner =>
    rw [hte] at ht
    have hinner : inner.toOutline.height ≤ n := ht _ (by simp)
    have hl : inner.literal.height < inner.toOutline.height :=
      height_lt_of_mem_fields (e := (.literal, _)) (by simp)
    have hparts : (list inner.arrayParts).height < inner.toOutline.height :=
      height_lt_of_mem_fields (e := (.arrayParts, _)) (by simp)
    have hliteral : inner.literal.height ≤ n + 1 := by omega
    refine low_singleton (TypeForm.toOutline_height_le hliteral fun o ho => ?_)
    rcases List.mem_append.mp ho with ho | ho
    · have := height_lt_of_mem_items ho
      omega
    · rw [List.mem_singleton.mp ho]
      exact height_orNull_le (low_bind fun c hc => (hs c hc).expression)

include h

theorem mappingForm_low {key : Reading} (hk : key.Low n) :
    Low (n + 2) [(s.mappingForm key).toOutline] := by
  have hvalue : (orNull (((s.field "value_type").bind Reading.type).map
      TypeForm.toOutline)).height ≤ n := typeIn_low h "value_type"
  refine typeForm_low ?_
  simp [height_orNull_le hk.type, hvalue, -Option.map_bind]

theorem typeNameForm_low : Low (n + 2) (s.typeNameForm.map TypeForm.toOutline).toList := by
  unfold typeNameForm
  split
  · rename_i key hkey
    exact mappingForm_low h (h key (mem_children_of_field hkey))
  · split
    · rename_i element rest hnamed
      have hc : ∀ c ∈ element :: rest, c.Low n := fun c hc =>
        h c (mem_children_of_mem_named (hnamed ▸ hc))
      split
      · refine arrayForm_low (hc element (by simp)) fun c hhead => ?_
        exact hc c (List.mem_cons_of_mem _ (List.mem_of_head? hhead))
      · split
        · exact typeForm_low (by simp)
        · split
          · exact (hc element (by simp)).type.mono (by omega)
          · exact typeForm_low (by simp)
    · split
      · exact typeForm_low (by simp)
      · exact typeForm_low (by simp)

theorem type_low : Low (n + 2) (s.type.map TypeForm.toOutline).toList := by
  unfold type
  split
  · rename_i c hc
    exact (h c (mem_children_of_wrapped? hc)).type.mono (by omega)
  · split
    · exact low_nil
    · exact typeNameForm_low h
    · exact userTypeForm_low
    · exact typeForm_low (by simp)
    · exact typeForm_low (by simp)

end Types

section Expressions

variable (h : ∀ c ∈ s.children, c.Low n)

theorem numberLiteral_low : s.numberLiteral.height ≤ n + 2 := by
  unfold numberLiteral
  split
  · simp [literalNode]
  · simp [literalNode]

theorem callNode_low {callee : Outline} {arguments : List Outline} (hc : callee.height ≤ n + 1)
    (ha : Low n arguments) : (s.callNode callee arguments).height ≤ n + 2 := by
  simp [callNode, hc, ha]

theorem newNode_low (span : Span) {target : Option Reading}
    (ht : ∀ c, target = some c → c.Low n) : (newNode span target).height ≤ n + 1 := by
  simp [newNode, typeOutline_low ht]

include h

theorem memberAccess_low : s.memberAccess.height ≤ n + 2 := by
  have hproperty : (orNull ((s.field "property").map fun p =>
      identifierNode p.span (s.source.slice p.span))).height ≤ n + 1 := by
    cases s.field "property" with
    | none => exact Nat.zero_le _
    | some p => exact identifierNode_height_le _ _
  simp [memberAccess, Nat.le_succ_of_le (expressionIn_low h _), hproperty]

theorem arrayAccess_low : s.arrayAccess.height ≤ n + 1 := by
  simp [arrayAccess, expressionIn_low h]

theorem sliceAccess_low : s.sliceAccess.height ≤ n + 1 := by
  simp [sliceAccess, expressionIn_low h]

theorem callExpression_low : s.callExpression.height ≤ n + 2 := by
  refine callNode_low (Nat.le_succ_of_le (height_orNull_le (low_bind fun c hc => ?_)))
    (callArguments_low h)
  exact (h c (mem_children_of_field_or (fun _ => mem_children_of_head?) hc)).expression

theorem structExpression_low : s.structExpression.height ≤ n + 2 := by
  have ho : Low n ((s.ofKind "struct_field_assignment").flatMap Reading.namedValue) :=
    low_flatMap fun c hc => (h c (mem_children_of_ofKind hc)).namedValue
  simp [structExpression, Nat.le_succ_of_le (expressionIn_low h _), ho]

theorem newExpression_low : s.newExpression.height ≤ n + 2 := by
  have ht : ∀ c, (s.field "name").or (s.firstOf ["type_name"]) = some c → c.Low n := fun c hc =>
    h c (mem_children_of_field_or (fun _ => mem_children_of_firstOf) hc)
  unfold newExpression
  split
  · exact Nat.le_succ_of_le (newNode_low _ ht)
  · exact callNode_low (newNode_low _ ht) (callArguments_low h)

theorem typeCast_low : s.typeCast.height ≤ n + 2 :=
  callNode_low (Nat.le_succ_of_le (typeOutline_low fun c hc => h c (mem_children_of_firstOf hc)))
    (callArguments_low h)

theorem metaType_low : s.metaType.height ≤ n + 2 := by
  refine callNode_low (identifierNode_height_le _ _) fun o ho => ?_
  obtain ⟨t, ht, rfl⟩ := List.mem_map.mp ho
  refine typeOutline_low fun c hc => ?_
  rw [← Option.some.inj hc]
  exact h t (mem_children_of_firstOf (Option.mem_toList.mp ht))

theorem binaryExpression_low : s.binaryExpression.height ≤ n + 1 := by
  simp [binaryExpression, expressionIn_low h]

theorem assignmentExpression_low : s.assignmentExpression.height ≤ n + 1 := by
  simp [assignmentExpression, expressionIn_low h]

theorem unaryExpression_low (kind : Kind) : (s.unaryExpression kind).height ≤ n + 1 := by
  simp [unaryExpression, expressionIn_low h]

theorem expressions_low : Low n s.parts := by
  intro o ho
  obtain ⟨c, hc, rfl⟩ := List.mem_map.mp ho
  exact height_orNull_le (h c (mem_children_of_mem_named hc)).expression

theorem part_low (index : Nat) : (s.parts.getD index .null).height ≤ n := by
  rw [List.getD_eq_getElem?_getD]
  cases hx : s.parts[index]? with
  | none => exact Nat.zero_le n
  | some x => exact expressions_low h x (List.mem_of_getElem? hx)

theorem ternaryExpression_low : s.ternaryExpression.height ≤ n + 1 := by
  simp only [ternaryExpression, node_height_le, List.forall_mem_cons]
  exact ⟨part_low h 0, part_low h 1, part_low h 2, by simp⟩

theorem partsNode_low (kind : Kind) (f : Field) :
    (s.node kind [(f, .list s.parts)]).height ≤ n + 2 := by
  simp [expressions_low h]

theorem tupleExpression_low : Low (n + 2) s.tupleExpression.toList := by
  unfold tupleExpression
  split
  · rename_i c hc
    split
    · exact low_singleton (partsNode_low h _ _)
    · exact (h c (mem_children_of_mem_named (by simp [hc]))).expression.mono (by omega)
  · exact low_singleton (partsNode_low h _ _)

theorem otherExpression_low : Low (n + 2) s.otherExpression.toList := by
  unfold otherExpression
  split
  · rename_i c hc
    exact (h c (mem_children_of_mem_named (by simp [hc]))).expression.mono (by omega)
  · exact low_singleton (by simp)

theorem plainExpression_low : Low (n + 2) s.plainExpression.toList := by
  unfold plainExpression
  split
  · exact low_singleton (Nat.le_succ_of_le (identifierNode_height_le _ _))
  · exact low_singleton numberLiteral_low
  · exact low_singleton (by simp [stringLiteral, literalNode])
  · exact low_singleton (by simp [literalNode])
  · exact low_singleton (by simp [literalNode])
  · exact low_singleton (by simp [literalNode])
  · exact low_singleton (memberAccess_low h)
  · exact low_singleton (Nat.le_succ_of_le (arrayAccess_low h))
  · exact low_singleton (Nat.le_succ_of_le (sliceAccess_low h))
  · exact low_singleton (callExpression_low h)
  · exact low_singleton (structExpression_low h)
  · exact low_singleton (newExpression_low h)
  · exact low_singleton (typeCast_low h)
  · exact low_singleton (callNode_low (identifierNode_height_le _ _) (callArguments_low h))
  · exact low_singleton (metaType_low h)
  · exact low_singleton (Nat.le_succ_of_le (binaryExpression_low h))
  · exact low_singleton (Nat.le_succ_of_le (assignmentExpression_low h))
  · exact low_singleton (Nat.le_succ_of_le (assignmentExpression_low h))
  · exact low_singleton (Nat.le_succ_of_le (unaryExpression_low h _))
  · exact low_singleton (Nat.le_succ_of_le (unaryExpression_low h _))
  · exact low_singleton (Nat.le_succ_of_le (ternaryExpression_low h))
  · exact tupleExpression_low h
  · exact low_singleton (partsNode_low h _ _)
  · exact type_low h
  · exact type_low h
  · exact type_low h
  · exact otherExpression_low h

theorem expression_low : Low (n + 2) s.expression.toList := by
  unfold expression
  split
  · rename_i c hc
    exact (h c (mem_children_of_wrapped? hc)).expression.mono (by omega)
  · split
    · exact low_nil
    · exact plainExpression_low h

theorem namedValue_low : Low (n + 1) s.namedValue := by
  unfold namedValue
  split
  · exact low_singleton (by simp [name, expressionIn_low h])
  · exact low_nil

theorem arguments_low : Low n s.arguments := by
  unfold arguments
  split
  · exact callArguments_low h
  · split
    · exact headExpression_low h
    · exact low_flatMap fun c hc => (h c (mem_children_of_ofKind hc)).namedValue
  · exact low_nil

end Expressions

section Statements

variable (h : ∀ c ∈ s.children, c.Low n)

theorem statementCall_low {callee : Outline} (hc : callee.height ≤ n + 1)
    (ha : Low n s.callArguments) : (s.statementCall callee).height ≤ n + 2 := by
  simp [statementCall, hc, ha]

include h

theorem block_low : Low (n + 2) s.block.toList := by
  unfold block
  split
  · exact low_nil
  · exact low_singleton (by simp [named_low h fun _ hc => hc.statements])

theorem blockStatement_low : Low (n + 3) s.blockStatement.toList := by
  unfold blockStatement
  split
  · exact low_singleton (by simp [height_orNull_le (block_low h)])
  · exact (block_low h).mono (by omega)

theorem expressionStatement_low : s.expressionStatement.height ≤ n + 1 := by
  unfold expressionStatement
  dsimp only
  split
  · simp
  · simp [height_orNull_le (headExpression_low h)]

theorem declarativeNode_low {location : Outline} (hl : location.height = 0) :
    (s.declarativeNode location).height ≤ n + 1 := by
  simp [declarativeNode, name, typeIn_low h, hl]

theorem declared_low : Low (n + 1) s.declared := by
  unfold declared
  split
  · exact low_singleton (declarativeNode_low h (by simp))
  · exact low_nil

theorem declarations_low : Low (n + 1) s.declarations := by
  unfold declarations
  split
  · exact declared_low h
  · exact (named_low h fun _ hc => hc.declared).mono (by omega)
  · exact low_nil

theorem variableDeclaration_low : s.variableDeclaration.height ≤ n + 2 := by
  simp [variableDeclaration, named_low h fun _ hc => hc.declarations,
    Nat.le_succ_of_le (expressionIn_low h _)]

theorem ifStatement_low : s.ifStatement.height ≤ n + 1 := by
  simp [ifStatement, expressionIn_low h, statementIn_low h]

theorem loopTest_low : s.loopTest.height ≤ n := by
  refine height_orNull_le (low_bind fun c hc => ?_)
  have hc := h c (mem_children_of_field hc)
  split
  · exact hc.headExpression
  · exact hc.expression

theorem forStatement_low : s.forStatement.height ≤ n + 1 := by
  simp [forStatement, loopTest_low h, expressionIn_low h, statementIn_low h]

theorem parameter_low : Low (n + 1) s.parameter := by
  unfold parameter
  split
  · exact low_singleton (by simp [typeIn_low h])
  · exact low_nil

theorem catchClause_low : Low (n + 2) s.catchClause := by
  unfold catchClause
  split
  · refine low_singleton ?_
    simp [parameters_low h, Nat.le_succ_of_le (blockIn_low h _)]
  · exact low_nil

theorem tryStatement_low : s.tryStatement.height ≤ n + 2 := by
  have hr : Low n ((s.ofKind "parameter").flatMap Reading.parameter) :=
    low_flatMap fun c hc => (h c (mem_children_of_ofKind hc)).parameter
  simp [tryStatement, Nat.le_succ_of_le (expressionIn_low h _), hr,
    Nat.le_succ_of_le (blockIn_low h _), named_low h fun _ hc => hc.catchClause]

theorem emitCall_low : s.emitCall.height ≤ n + 2 := by
  refine height_orNull_le fun o ho => ?_
  obtain ⟨callee, hcallee, rfl⟩ := Option.map_eq_some_iff.mp (Option.mem_toList.mp ho)
  obtain ⟨c, hc, he⟩ := Option.bind_eq_some_iff.mp hcallee
  have hlow := (h c (mem_children_of_field hc)).expression callee (by simp [he])
  exact statementCall_low (Nat.le_succ_of_le hlow) (callArguments_low h)

theorem revertCall_low : s.revertCall.height ≤ n + 2 := by
  unfold revertCall
  split
  · rename_i c hc
    refine height_orNull_le fun o ho => ?_
    obtain ⟨callee, he, rfl⟩ := Option.map_eq_some_iff.mp (Option.mem_toList.mp ho)
    have hlow := (h c (mem_children_of_field hc)).expression callee (by simp [he])
    exact statementCall_low (Nat.le_succ_of_le hlow) (callArguments_low h)
  · exact statementCall_low (identifierNode_height_le _ _) (callArguments_low h)

theorem looseStatement_low : Low (n + 3) s.looseStatement.toList := by
  unfold looseStatement
  split
  · rename_i e he
    split
    · exact low_nil
    · have hlow := expression_low h e (by simp [he])
      exact low_singleton (by simp [hlow])
  · exact low_nil

theorem plainStatement_low : Low (n + 3) s.plainStatement.toList := by
  have hexpression := expressionIn_low h "condition"
  have hstatement := statementIn_low h "body"
  have hhead := height_orNull_le (headExpression_low h)
  unfold plainStatement
  split
  · exact blockStatement_low h
  · exact blockStatement_low h
  · exact low_singleton (Nat.le_add_right_of_le (k := 2) (expressionStatement_low h))
  · exact low_singleton (Nat.le_succ_of_le (variableDeclaration_low h))
  · exact low_singleton (Nat.le_add_right_of_le (k := 2) (ifStatement_low h))
  · exact low_singleton (Nat.le_add_right_of_le (k := 2) (forStatement_low h))
  · exact (low_singleton (n := n + 1) (by simp [hexpression, hstatement])).mono (by omega)
  · exact (low_singleton (n := n + 1) (by simp [hexpression, hstatement])).mono (by omega)
  · exact (low_singleton (n := n + 1) (by simp [hhead])).mono (by omega)
  · exact low_singleton (by simp [emitCall_low h])
  · exact low_singleton (by simp [revertCall_low h])
  · exact low_singleton (Nat.le_succ_of_le (tryStatement_low h))
  · exact low_singleton (by simp)
  · exact low_singleton (by simp)
  · exact low_singleton (by simp)
  · exact looseStatement_low h

theorem statement_low : Low (n + 3) s.statement.toList := by
  unfold statement
  split
  · rename_i c hc
    exact (h c (mem_children_of_wrapped? hc)).statement.mono (by omega)
  · exact plainStatement_low h

end Statements

section Declarations

variable (h : ∀ c ∈ s.children, c.Low n)

theorem importStatement_low : s.importStatement.height ≤ n + 3 := by
  have hsymbols : ∀ ys : List Symbol, Low (n + 1) (ys.map Symbol.toOutline) := by
    intro ys o ho
    obtain ⟨y, -, rfl⟩ := List.mem_map.mp ho
    simp [Symbol.toOutline]
  simp [importStatement, hsymbols, -List.map_reverse]

theorem enum_low : s.enum.height ≤ n + 2 := by simp [enum, name]

include h

theorem usingDirective_low : s.usingDirective.height ≤ n + 2 := by
  have ht : Low n ((s.children.foldl (UsingParts.add s.source (s.hasToken "\x7b")) {}).target.map
      TypeForm.toOutline).toList := by
    rcases usingTarget_cases s.source (s.hasToken "\x7b") s.children {} with ht | ⟨c, hc, ht⟩
    · rw [ht]
      exact low_nil
    · rw [ht]
      exact (h c hc).type
  simp [usingDirective, flagOf, Nat.le_succ_of_le (height_orNull_le ht)]

theorem inheritance_low : Low (n + 2) s.inheritance := by
  unfold inheritance
  split
  · exact low_singleton (by simp [callArguments_low h])
  · exact low_nil

theorem containerFields_low : ∀ e ∈ s.containerFields, e.2.height ≤ n + 1 := by
  have hbody : Low n ((((s.field "body").or (s.firstOf ["contract_body"])).map
      Reading.body).getD []) := by
    cases hb : (s.field "body").or (s.firstOf ["contract_body"]) with
    | none => exact low_nil
    | some c => exact (h c (mem_children_of_field_or (fun _ => mem_children_of_firstOf) hb)).body
  simp [containerFields, name, hbody, named_low h fun _ hc => hc.inheritance]

theorem container_low (kind : Kind) : (s.node kind s.containerFields).height ≤ n + 2 :=
  node_height_le.mpr (containerFields_low h)

theorem contract_low : s.contract.height ≤ n + 2 := by
  refine node_height_le.mpr ?_
  rw [List.forall_mem_append]
  exact ⟨containerFields_low h, by simp [flagOf]⟩

theorem modifierCall_low : Low (n + 2) s.modifierCall := by
  unfold modifierCall
  split
  · exact low_singleton (by simp [callArguments_low h])
  · exact low_nil

theorem function_low : s.function.height ≤ n + 2 := by
  have hname : s.functionHead.2.height = 0 := by
    unfold functionHead
    split
    · rfl
    · rfl
    · split <;> rfl
  have hreturned : Low n ((((s.field "return_type").or (s.firstOf ["return_type_definition"])).map
      Reading.parameters).getD []) := by
    cases hr : (s.field "return_type").or (s.firstOf ["return_type_definition"]) with
    | none => exact low_nil
    | some c =>
      exact (h c (mem_children_of_field_or (fun _ => mem_children_of_firstOf) hr)).parameters
  simp [function, hname, parameters_low h, named_low h fun _ hc => hc.modifierCall, hreturned,
    Nat.le_succ_of_le (blockIn_low h _), textOfFirst, flagOfNode]

theorem modifier_low : s.modifier.height ≤ n + 2 := by
  simp [modifier, name, parameters_low h, Nat.le_succ_of_le (blockIn_low h _)]

theorem stateVariable_low : s.stateVariable.height ≤ n + 1 := by
  simp [stateVariable, name, typeIn_low h, expressionIn_low h, textOfFirst, flagOfNode]

theorem structMembers_low : Low (n + 1) s.structMembers := by
  unfold structMembers
  split
  · exact low_singleton (declarativeNode_low h rfl)
  · split
    · exact (named_low h fun _ hc => hc.structMembers).mono (by omega)
    · exact low_nil

theorem struct_low : s.struct.height ≤ n + 2 := by
  simp [struct, name, named_low h fun _ hc => hc.structMembers]

theorem event_low : s.event.height ≤ n + 2 := by
  simp [event, name, flagOf, parameters_low h]

theorem error_low : s.error.height ≤ n + 2 := by
  simp [error, name, parameters_low h]

theorem userType_low : s.userType.height ≤ n + 1 := by
  have ht : (typeOutline ((s.field "value").or (s.firstOf ["primitive_type"]))).height ≤ n :=
    typeOutline_low fun c hc => h c (mem_children_of_field_or (fun _ => mem_children_of_firstOf) hc)
  simp [userType, name, ht]

theorem member_low : Low (n + 2) s.member.toList := by
  unfold member
  split
  · exact low_singleton (function_low h)
  · exact low_singleton (function_low h)
  · exact low_singleton (function_low h)
  · exact low_singleton (modifier_low h)
  · exact low_singleton (Nat.le_succ_of_le (stateVariable_low h))
  · exact low_singleton (Nat.le_succ_of_le (stateVariable_low h))
  · exact low_singleton (struct_low h)
  · exact low_singleton enum_low
  · exact low_singleton (event_low h)
  · exact low_singleton (error_low h)
  · exact low_singleton (Nat.le_succ_of_le (userType_low h))
  · exact low_singleton (usingDirective_low h)
  · exact low_nil

theorem unit_low : Low (n + 3) s.unit.toList := by
  unfold unit
  split
  · exact low_singleton (by simp [pragma])
  · exact low_singleton importStatement_low
  · exact low_singleton (Nat.le_succ_of_le (contract_low h))
  · exact low_singleton (Nat.le_succ_of_le (container_low h _))
  · exact low_singleton (Nat.le_succ_of_le (container_low h _))
  · exact (member_low h).mono (by omega)

theorem contribution_low {inside : Reading → List Outline} {own : Option Outline}
    (hi : ∀ c : Reading, c.Low n → Low n (inside c)) (ho : Low (n + 3) own.toList) :
    Low (n + 3) (s.contribution inside own) := by
  unfold contribution
  split
  · exact low_nil
  · split
    · exact (named_low h hi).mono (by omega)
    · exact ho

end Declarations

/-- A site adds at most three levels: for one, a block that is not checked is a list in a block in
a node of its own. -/
theorem read_low (h : ∀ c ∈ s.children, c.Low n) : s.read.Low (n + 3) where
  expression := (expression_low h).mono (by omega)
  type := (type_low h).mono (by omega)
  statement := statement_low h
  block := (block_low h).mono (by omega)
  headExpression := (headExpression_low h).mono (by omega)
  units := contribution_low h (fun _ hc => hc.units) (unit_low h)
  members := contribution_low h (fun _ hc => hc.members) ((member_low h).mono (by omega))
  statements := contribution_low h (fun _ hc => hc.statements) (statement_low h)
  body := (named_low h fun _ hc => hc.members).mono (by omega)
  parameter := (parameter_low h).mono (by omega)
  parameters := (parameters_low h).mono (by omega)
  arguments := (arguments_low h).mono (by omega)
  namedValue := (namedValue_low h).mono (by omega)
  inheritance := (inheritance_low h).mono (by omega)
  modifierCall := (modifierCall_low h).mono (by omega)
  structMembers := (structMembers_low h).mono (by omega)
  declared := (declared_low h).mono (by omega)
  declarations := (declarations_low h).mono (by omega)
  catchClause := (catchClause_low h).mono (by omega)

end Site

namespace Concrete

mutual

/-- The reading of a tree is at most three times as high as the tree. -/
theorem read_low (source : SourceText) : ∀ c : Concrete, (c.read source).Low (3 * c.height)
  | .node label children => by
    rw [Concrete.read, height]
    exact Site.read_low (readAll_low source children)

theorem readAll_low (source : SourceText) :
    ∀ cs : List Concrete, ∀ r ∈ readAll source cs, r.Low (3 * heightOf cs)
  | [] => by simp [readAll]
  | c :: cs => by
    intro r hr
    rw [heightOf]
    rcases List.mem_cons.mp hr with rfl | hr
    · exact (read_low source c).mono (by omega)
    · exact (readAll_low source cs r hr).mono (by omega)

end

theorem program_height_le (source : SourceText) (root : Concrete) :
    (root.program source).height ≤ 3 * root.height := by
  obtain ⟨label, children⟩ := root
  have hbody : Outline.Low (3 * heightOf children) ((node label children).body source) :=
    Site.named_low (readAll_low source children) fun _ hc => hc.units
  have hprogram : ((node label children).program source).height ≤ 3 * heightOf children + 2 := by
    simp [program, programNode, hbody]
  rw [height]
  omega

end Concrete

end SolidityServer
