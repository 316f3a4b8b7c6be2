import SolidityServer.Proofs.Sites

/-! Well-formed concrete trees of a text: spans are inside the text, children stand inside their
parent one after the other, and what is called stands before its arguments. -/

namespace SolidityServer

namespace Site

/-- The children that give the arguments of a call. -/
def argumentParts (s : Site) : List Reading :=
  s.named.filter fun c => c.label.kind == "call_argument" || c.label.kind == "revert_arguments"

def parameterParts (s : Site) : List Reading :=
  s.named.filter fun c =>
    ["parameter", "event_parameter", "error_parameter", "return_parameter"].contains c.label.kind

def newType (s : Site) : Option Reading := (s.field "name").or (s.firstOf ["type_name"])

/-- The event, the error or the type that an emit, a revert or a new object calls. -/
def calledPart (s : Site) : Option Reading :=
  match s.kind with
  | "emit_statement" => s.field "name"
  | "revert_statement" => s.field "error"
  | "new_expression" => s.newType
  | _ => none

/-- The keyword that is called in the place of a child. -/
def calledKeyword (s : Site) : Option String :=
  match s.kind with
  | "revert_statement" => if (s.field "error").isNone then some "revert" else none
  | "payable_conversion_expression" => some "payable"
  | "meta_type_expression" => some "type"
  | _ => none

/-- The first child is the token `word`, and the site begins with it. -/
def BeginsWith (s : Site) (word : String) : Prop :=
  ∃ first ∈ s.children.head?, first.label.kind = word ∧ first.label.start = s.label.start ∧
    s.source.slice first.span = word.toList

instance (s : Site) (word : String) : Decidable (s.BeginsWith word) :=
  inferInstanceAs (Decidable (∃ first ∈ s.children.head?, _))

/-- Where the semicolon stands that ends an emit or a revert. -/
def finalSemicolon (s : Site) : Option Nat :=
  let text := Text.trimEnd Text.isBlank s.text
  if (s.kind = "emit_statement" ∨ s.kind = "revert_statement") ∧ text.getLast? = some ';' then
    some (s.span.start + (text.length - 1))
  else none

structure WellFormed (s : Site) : Prop where
  forward : s.label.start ≤ s.label.stop
  inside : ∀ c ∈ s.children, s.label.start ≤ c.label.start ∧ c.label.stop ≤ s.label.stop
  ordered : s.children.Pairwise fun a b => a.label.stop ≤ b.label.start
  called : ∀ c ∈ s.calledPart, ∀ a ∈ s.argumentParts, c.label.stop ≤ a.label.start
  ended : ∀ p ∈ s.finalSemicolon, ∀ c ∈ s.calledPart.toList ++ s.argumentParts, c.span.stop ≤ p
  headed : ∀ word ∈ s.calledKeyword, s.BeginsWith word

instance (s : Site) : Decidable s.WellFormed :=
  decidable_of_iff (_ ∧ _ ∧ _ ∧ _ ∧ _ ∧ _)
    ⟨fun ⟨forward, inside, ordered, called, ended, headed⟩ =>
      ⟨forward, inside, ordered, called, ended, headed⟩,
    fun h => ⟨h.forward, h.inside, h.ordered, h.called, h.ended, h.headed⟩⟩

/-- The children in each role that a site of some kind gives to its children. -/
def rolesOf (s : Site) (kind : String) : List (List Reading) :=
  match kind with
  | "contract_declaration" | "library_declaration" | "interface_declaration" =>
    [((s.field "body").or (s.firstOf ["contract_body"])).toList, s.ofKind "inheritance_specifier"]
  | "function_definition" | "constructor_definition" | "fallback_receive_definition" =>
    [s.parameterParts, s.ofKind "modifier_invocation",
      ((s.field "return_type").or (s.firstOf ["return_type_definition"])).toList,
      (s.field "body").toList]
  | "modifier_definition" | "catch_clause" => [s.parameterParts, (s.field "body").toList]
  | "state_variable_declaration" | "constant_variable_declaration" =>
    [(s.field "type").toList, (s.field "value").toList]
  | "type_name" => [(s.field "key_type").toList, (s.field "value_type").toList]
  | "variable_declaration_statement" =>
    [s.named.filter fun c => c.label.kind == "variable_declaration"
        || c.label.kind == "variable_declaration_tuple",
      (s.field "value").toList]
  | "if_statement" =>
    [(s.field "condition").toList, (s.field "body").toList, (s.field "else").toList]
  | "for_statement" =>
    [(s.field "initial").toList, (s.field "condition").toList, (s.field "update").toList,
      (s.field "body").toList]
  | "while_statement" => [(s.field "condition").toList, (s.field "body").toList]
  | "do_while_statement" => [(s.field "body").toList, (s.field "condition").toList]
  | "try_statement" =>
    [(s.field "attempt").toList, s.ofKind "parameter", (s.field "body").toList,
      s.ofKind "catch_clause"]
  | "call_expression" => [((s.field "function").or s.named.head?).toList, s.argumentParts]
  | "type_cast_expression" =>
    [(s.firstOf ["primitive_type", "type_name"]).toList, s.argumentParts]
  | "struct_expression" => [(s.field "type").toList, s.ofKind "struct_field_assignment"]
  | "member_expression" => [(s.field "object").toList, (s.field "property").toList]
  | "array_access" => [(s.field "base").toList, (s.field "index").toList]
  | "slice_access" => [(s.field "base").toList, (s.field "from").toList, (s.field "to").toList]
  | "binary_expression" | "assignment_expression" | "augmented_assignment_expression" =>
    [(s.field "left").toList, (s.field "right").toList]
  | _ => []

/-- No child plays two roles, and a new object with arguments has a type. -/
structure SingleRoles (s : Site) : Prop where
  roles : (s.rolesOf s.kind).Pairwise fun cs ds => ∀ c ∈ cs, ∀ d ∈ ds, c.label ≠ d.label
  newType : s.kind = "new_expression" → s.argumentParts ≠ [] → s.newType.isSome

instance (s : Site) : Decidable s.SingleRoles :=
  decidable_of_iff (_ ∧ _) ⟨fun ⟨roles, newType⟩ => ⟨roles, newType⟩, fun h => ⟨h.roles, h.newType⟩⟩

end Site

/-- The tree lies in the text, and each of its nodes is well formed. -/
def Concrete.WellFormed (text : String) (root : Concrete) : Prop :=
  root.label.stop ≤ text.utf8ByteSize ∧
    ∀ s ∈ root.sites (SourceText.ofText text), s.WellFormed

instance (text : String) (root : Concrete) : Decidable (root.WellFormed text) :=
  inferInstanceAs (Decidable (_ ∧ _))

/-- No child plays two roles in its parent. -/
def Concrete.SingleRoles (text : String) (root : Concrete) : Prop :=
  ∀ s ∈ root.sites (SourceText.ofText text), s.SingleRoles

instance (text : String) (root : Concrete) : Decidable (root.SingleRoles text) :=
  inferInstanceAs (Decidable (∀ s ∈ _, _))

/-- A source with an event that is emitted, and its concrete tree. The first letter of the event's
name takes two bytes. -/
def emitText : String := "function f() \x7b emit Éa(bc); \x7d"

def emitTree : Concrete :=
  let emit : Concrete := .branch "emit_statement" 15 28
    [.token "emit" 15 19,
      .inField "name" (.branch "expression" 20 23 [.branch "identifier" 20 23 []]),
      .token "(" 23 24, .branch "call_argument" 24 26 [.branch "identifier" 24 26 []],
      .token ")" 26 27, .token ";" 27 28]
  .branch "source_file" 0 30 [.branch "function_definition" 0 30
    [.token "function" 0 8, .inField "name" (.branch "identifier" 9 10 []), .token "(" 10 11,
      .token ")" 11 12,
      .inField "body"
        (.branch "function_body" 13 30 [.token "\x7b" 13 14, emit, .token "\x7d" 29 30])]]

def emitFields : List (Field × Outline) :=
  [(.callee, identifierNode ⟨20, 22⟩ "Éa".toList),
    (.arguments, .list [identifierNode ⟨23, 25⟩ "bc".toList])]

theorem emitTree_body : emitTree.body (SourceText.ofText emitText) =
    [.node .function ⟨0, 29⟩ [(.name, .chars "f".toList), (.kind, .text "function"),
      (.params, .list []), (.modifiers, .list []), (.returnParams, .list []),
      (.body, .node .block ⟨13, 29⟩ [(.body, .list [.node .emitStatement ⟨15, 27⟩
        [(.expression, .node .call ⟨20, 26⟩ emitFields)]])]),
      (.visibility, .null), (.stateMutability, .null), (.isVirtual, .flag false)]] := rfl

end SolidityServer
