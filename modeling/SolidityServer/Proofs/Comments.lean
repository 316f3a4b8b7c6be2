import Mathlib.Logic.Relation
import SolidityServer.Proofs.Sites
import SolidityServer.Syntax.Outcome

/-! Comments. They may stand between any two parts of a node, and nothing that is read counts them:
a site is looked at through its named children, its fields, its tokens and the first children of
some kinds, and a comment is in none of these. -/

namespace SolidityServer

namespace Site

/-- Two sites in which every reading finds the same. -/
structure Alike (s t : Site) : Prop where
  source : t.source = s.source
  label : t.label = s.label
  named : t.named = s.named
  field : ∀ role, t.field role = s.field role
  hasToken : ∀ kind, kind ≠ "comment" → t.hasToken kind = s.hasToken kind
  firstOf : ∀ kinds, "comment" ∉ kinds → t.firstOf kinds = s.firstOf kinds
  importParts : t.children.foldl (ImportParts.add s.source) {} =
    s.children.foldl (ImportParts.add s.source) {}
  usingParts : ∀ braces, t.children.foldl (UsingParts.add s.source braces) {} =
    s.children.foldl (UsingParts.add s.source braces) {}

namespace Alike

variable {s t : Site}

protected theorem rfl : Alike s s :=
  ⟨rfl, rfl, rfl, fun _ => rfl, fun _ _ => rfl, fun _ _ => rfl, rfl, fun _ => rfl⟩

variable (h : Alike s t)
include h

theorem span : t.span = s.span := by rw [Site.span, Site.span, h.source, h.label]

theorem kind : t.kind = s.kind := by rw [Site.kind, Site.kind, h.label]

theorem text : t.text = s.text := by rw [Site.text, Site.text, h.source, h.span]

theorem node (kind : Kind) (fields : List (Field × Outline)) :
    t.node kind fields = s.node kind fields := by
  rw [Site.node, Site.node, h.span]

theorem textOf (c : Option Reading) : t.textOf c = s.textOf c := by
  simp only [Site.textOf, h.source]

theorem textOf? (c : Option Reading) : t.textOf? c = s.textOf? c := by
  rw [Site.textOf?, Site.textOf?, h.source]

theorem name : t.name = s.name := by rw [Site.name, Site.name, h.field, h.textOf]

theorem wrapped? : t.wrapped? = s.wrapped? := by
  rw [Site.wrapped?, Site.wrapped?, h.kind, h.named]

theorem ofKind (kind : String) : t.ofKind kind = s.ofKind kind := by
  rw [Site.ofKind, Site.ofKind, h.named]

theorem names : t.names = s.names := by rw [Site.names, Site.names, h.ofKind, h.source]

-- Each reading looks at a site through what was compared above, and through the readings before it.

theorem type : t.type = s.type := by
  simp +decide only [Site.type, typeNameForm, mappingForm, arrayForm, userTypeForm, typeForm,
    h.wrapped?, h.names, h.named, h.node, h.field, h.hasToken, h.span, h.text, h.kind]

theorem expressionIn (role : String) : t.expressionIn role = s.expressionIn role := by
  rw [Site.expressionIn, Site.expressionIn, h.field]

theorem callArguments : t.callArguments = s.callArguments := by
  rw [Site.callArguments, Site.callArguments, h.named]

theorem keywordNode (word : String) : t.keywordNode word = s.keywordNode word := by
  rw [Site.keywordNode, Site.keywordNode, h.span]

theorem callNode (callee : Outline) (arguments : List Outline) :
    t.callNode callee arguments = s.callNode callee arguments := by
  rw [Site.callNode, Site.callNode, h.node]

theorem newExpression : t.newExpression = s.newExpression := by
  simp +decide only [Site.newExpression, h.field, h.firstOf, h.callArguments, h.hasToken,
    h.callNode, h.span]

theorem unaryExpression (kind : Kind) : t.unaryExpression kind = s.unaryExpression kind := by
  simp +decide only [Site.unaryExpression, operatorLeads, h.field, h.textOf, h.node, h.expressionIn]

theorem parts : t.parts = s.parts := by rw [Site.parts, Site.parts, h.named]

theorem literalNode (value subdenomination : Outline) :
    t.literalNode value subdenomination = s.literalNode value subdenomination := by
  rw [Site.literalNode, Site.literalNode, h.node]

theorem tupleExpression : t.tupleExpression = s.tupleExpression := by
  simp +decide only [Site.tupleExpression, h.named, h.hasToken, h.node, h.parts]

theorem plainExpression : t.plainExpression = s.plainExpression := by
  simp +decide only [Site.plainExpression, numberLiteral, stringLiteral, memberAccess, arrayAccess,
    sliceAccess, callExpression, structExpression, typeCast, metaType, binaryExpression,
    assignmentExpression, ternaryExpression, otherExpression, h.kind, h.span, h.text, h.source,
    h.literalNode, h.expressionIn, h.callNode, h.callArguments, h.keywordNode, h.node, h.named,
    h.field, h.firstOf, h.ofKind, h.textOf, h.textOf?, h.parts, h.type, h.newExpression,
    h.unaryExpression, h.tupleExpression]

theorem expression : t.expression = s.expression := by
  simp only [Site.expression, h.wrapped?, h.label, h.plainExpression]

theorem namedValue : t.namedValue = s.namedValue := by
  simp only [Site.namedValue, h.kind, h.node, h.name, h.expressionIn]

theorem arguments : t.arguments = s.arguments := by
  simp only [Site.arguments, h.kind, h.callArguments, h.ofKind, h.named]

theorem parameters : t.parameters = s.parameters := by
  rw [Site.parameters, Site.parameters, h.named]

theorem statementIn (role : String) : t.statementIn role = s.statementIn role := by
  rw [Site.statementIn, Site.statementIn, h.field]

theorem blockIn (role : String) : t.blockIn role = s.blockIn role := by
  rw [Site.blockIn, Site.blockIn, h.field]

theorem block : t.block = s.block := by
  simp only [Site.block, h.label, h.node, h.named]

theorem declarativeNode (location : Outline) :
    t.declarativeNode location = s.declarativeNode location := by
  simp only [Site.declarativeNode, h.node, h.name, h.field]

theorem declared : t.declared = s.declared := by
  simp only [Site.declared, h.kind, h.declarativeNode, h.field, h.textOf?]

theorem declarations : t.declarations = s.declarations := by
  simp only [Site.declarations, h.kind, h.declared, h.named]

theorem parameter : t.parameter = s.parameter := by
  simp +decide only [Site.parameter, h.kind, h.node, h.field, h.textOf?, h.hasToken]

theorem catchClause : t.catchClause = s.catchClause := by
  simp +decide only [Site.catchClause, h.kind, h.node, h.firstOf, h.textOf?, h.parameters,
    h.blockIn]

theorem statementCall (callee : Outline) : t.statementCall callee = s.statementCall callee := by
  simp only [Site.statementCall, argumentsEnd, h.span, h.text, h.callArguments]

theorem revertCall : t.revertCall = s.revertCall := by
  simp only [Site.revertCall, h.field, funext h.statementCall, h.keywordNode]

theorem plainStatement : t.plainStatement = s.plainStatement := by
  simp +decide only [Site.plainStatement, blockStatement, expressionStatement, variableDeclaration,
    ifStatement, loopTest, forStatement, tryStatement, emitCall, looseStatement, h.kind, h.source,
    h.node, h.named, h.field, h.ofKind, h.hasToken, h.block, h.expression, h.expressionIn,
    h.statementIn, h.blockIn, funext h.statementCall, h.revertCall]

theorem statement : t.statement = s.statement := by
  simp only [Site.statement, h.wrapped?, h.plainStatement]

theorem inheritance : t.inheritance = s.inheritance := by
  simp +decide only [Site.inheritance, h.kind, h.field, h.firstOf, h.source, h.node,
    h.callArguments]

theorem modifierCall : t.modifierCall = s.modifierCall := by
  simp only [Site.modifierCall, h.kind, h.names, h.text, h.node, h.callArguments]

theorem structMembers : t.structMembers = s.structMembers := by
  simp only [Site.structMembers, h.kind, h.declarativeNode, h.named]

theorem enumValues : t.enumValues = s.enumValues := by
  simp only [Site.enumValues, h.kind, h.text, h.named]

theorem containerFields : t.containerFields = s.containerFields := by
  simp +decide only [Site.containerFields, h.field, h.firstOf, h.name, h.named]

theorem function : t.function = s.function := by
  simp +decide only [Site.function, functionHead, textOfFirst, flagOfNode, h.kind, h.node, h.field,
    h.firstOf, h.hasToken, h.textOf, h.textOf?, h.parameters, h.named, h.blockIn]

theorem stateVariable : t.stateVariable = s.stateVariable := by
  simp +decide only [Site.stateVariable, textOfFirst, flagOfNode, h.kind, h.node, h.name, h.field,
    h.firstOf, h.hasToken, h.textOf?, h.expressionIn]

theorem usingDirective : t.usingDirective = s.usingDirective := by
  simp +decide only [Site.usingDirective, flagOf, h.source, h.usingParts, h.hasToken, h.node]

theorem member : t.member = s.member := by
  simp +decide only [Site.member, modifier, struct, enum, event, error, userType, flagOf, h.kind,
    h.node, h.name, h.named, h.field, h.firstOf, h.hasToken, h.parameters, h.blockIn, h.function,
    h.stateVariable, h.usingDirective]

theorem unit : t.unit = s.unit := by
  simp +decide only [Site.unit, pragma, importStatement, contract, flagOf, h.kind, h.node, h.source,
    h.text, h.importParts, h.containerFields, h.hasToken, h.member]

theorem contribution (inside : Reading → List Outline) (own : Option Outline) :
    t.contribution inside own = s.contribution inside own := by
  simp only [Site.contribution, h.label, h.named]

theorem read : t.read = s.read := by
  simp only [Site.read, core, h.label, h.span, h.wrapped?, h.names, h.expression, h.type,
    h.statement, h.block, h.named, h.contribution, h.unit, h.member, h.parameter, h.parameters,
    h.arguments, h.namedValue, h.inheritance, h.modifierCall, h.structMembers, h.enumValues,
    h.declared, h.declarations, h.catchClause]

end Alike

end Site

namespace Concrete

variable {t u : Concrete} {source : SourceText}

/-- A comment that plays no role in its parent and bears no mark of an error. -/
def comment (start stop : Nat) : Concrete :=
  .node { kind := "comment", named := true, start, stop } []

/-- One comment is put among the children of some node. -/
inductive AddsComment : Concrete → Concrete → Prop
  | here (l : Label) (before after : List Concrete) (start stop : Nat) :
      AddsComment (.node l (before ++ after)) (.node l (before ++ comment start stop :: after))
  | inside (l : Label) (before after : List Concrete) {c d : Concrete} (h : AddsComment c d) :
      AddsComment (.node l (before ++ c :: after)) (.node l (before ++ d :: after))

/-- Trees that differ only by comments, put in or taken out anywhere. -/
def SameButComments : Concrete → Concrete → Prop := Relation.EqvGen AddsComment

theorem anyHasError_append (cs ds : List Concrete) :
    anyHasError (cs ++ ds) = (anyHasError cs || anyHasError ds) := by
  induction cs with
  | nil => rfl
  | cons c cs ih => rw [List.cons_append, anyHasError, anyHasError, ih, Bool.or_assoc]

theorem firstErrorOf?_append (cs ds : List Concrete) :
    firstErrorOf? (cs ++ ds) = (firstErrorOf? cs).or (firstErrorOf? ds) := by
  induction cs with
  | nil => rfl
  | cons c cs ih => rw [List.cons_append, firstErrorOf?, firstErrorOf?, ih, Option.or_assoc]

theorem alike_comment (source : SourceText) (label : Label) (before after : List Reading)
    (start stop : Nat) :
    Site.Alike ⟨source, label, before ++ after⟩
      ⟨source, label, before ++ (comment start stop).read source :: after⟩ := by
  have hlabel : ((comment start stop).read source).label =
      { kind := "comment", named := true, start, stop } := rfl
  refine ⟨rfl, rfl, ?_, ?_, ?_, ?_, ?_, ?_⟩
  · simp [Site.named, hlabel, Label.isComment]
  · intro role
    simp [Site.field, hlabel]
  · intro kind hkind
    have hne : ("comment" == kind) = false := by simpa using hkind.symm
    simp [Site.hasToken, hlabel, hne]
  · intro kinds hkinds
    simp [Site.firstOf, hlabel, hkinds]
  · have hadd : ∀ p : Site.ImportParts,
        p.add source ((comment start stop).read source) = p := fun p => by
      simp [Site.ImportParts.add, hlabel]
    simp [hadd]
  · intro braces
    have hadd : ∀ p : Site.UsingParts,
        p.add source braces ((comment start stop).read source) = p := fun p => by
      simp [Site.UsingParts.add, hlabel, Label.isComment]
    simp [hadd]

namespace AddsComment

theorem alike (h : AddsComment t u) : (t.site source).Alike (u.site source) := by
  induction h with
  | here l before after start stop =>
    simp only [site, label, children, readAll_append, readAll]
    exact alike_comment source l _ _ start stop
  | @inside l before after c d _ ih =>
    have hread : d.read source = c.read source := by
      rw [read_eq_site_read, read_eq_site_read, ih.read]
    simp only [site, label, children, readAll_append, readAll, hread]
    exact .rfl

theorem hasError (h : AddsComment t u) : u.hasError = t.hasError := by
  induction h with
  | here l before after start stop =>
    have hcomment : (comment start stop).hasError = false := rfl
    simp [Concrete.hasError, anyHasError_append, anyHasError, hcomment]
  | inside l before after _ ih => simp [Concrete.hasError, anyHasError_append, anyHasError, ih]

theorem firstError? (h : AddsComment t u) : u.firstError? = t.firstError? := by
  induction h with
  | here l before after start stop =>
    have hcomment : (comment start stop).firstError? = none := rfl
    have herror := (AddsComment.here l before after start stop).hasError
    simp [Concrete.firstError?, firstErrorOf?_append, firstErrorOf?, hcomment, herror]
  | inside l before after h ih =>
    have herror := (AddsComment.inside l before after h).hasError
    simp [Concrete.firstError?, firstErrorOf?_append, firstErrorOf?, ih, herror]

theorem outcome (h : AddsComment t u) : u.outcome source = t.outcome source := by
  have hbody : u.body source = t.body source := congrArg (List.flatMap Reading.units) h.alike.named
  have hfault : u.fault source = t.fault source := by rw [fault, fault, h.firstError?]
  rw [Concrete.outcome, Concrete.outcome, h.hasError, hbody, hfault]

end AddsComment

/-- Comments are transparent: trees of a source that differ only by comments come to the same. -/
theorem outcome_ignores_comments (source : SourceText) (h : SameButComments t u) :
    t.outcome source = u.outcome source := by
  induction h with
  | rel _ _ h => exact h.outcome.symm
  | refl _ => rfl
  | symm _ _ _ ih => exact ih.symm
  | trans _ _ _ _ _ ih ih' => exact ih.trans ih'

/-- A state variable whose type is an array, with some children before the length. -/
def arrayTree (inserted : List Concrete) : Concrete :=
  let element := branch "type_name" 0 4 [branch "primitive_type" 0 4 []]
  let length := branch "expression" 10 11 [branch "number_literal" 10 11 []]
  let array := branch "type_name" 0 12
    ([element, token "[" 4 5] ++ inserted ++ [length, token "]" 11 12])
  branch "source_file" 0 15 [branch "state_variable_declaration" 0 15
    [array.inField "type", (branch "identifier" 13 14 []).inField "name", token ";" 14 15]]

theorem outcome_of_commented_length :
    let source := SourceText.ofText "uint[/*n*/2] x;"
    let length := Outline.node .literal ⟨10, 11⟩ [(.value, .chars ['2']), (.subdenomination, .null)]
    let array := Outline.node .type ⟨0, 12⟩ [(.literal, .chars "uint".toList),
      (.members, .texts []), (.arrayParts, .list [length]), (.storageLocation, .null)]
    (arrayTree []).SameButComments (arrayTree [comment 5 10]) ∧
      (arrayTree [comment 5 10]).outcome source =
        .clean (programNode source [.node .stateVariable ⟨0, 15⟩ [(.name, .chars ['x']),
          (.literal, array), (.visibility, .null), (.isConstant, .flag false),
          (.isImmutable, .flag false), (.value, .null)]]) := by
  intro source length array
  have hsame : (arrayTree []).SameButComments (arrayTree [comment 5 10]) :=
    .rel _ _ (.inside _ [] [] (.inside _ [] [_, _] (.here _ [_, _] [_, _] 5 10)))
  refine ⟨hsame, ?_⟩
  rw [← outcome_ignores_comments source hsame]
  rfl

end Concrete

end SolidityServer
