import SolidityServer.Query.Resolve

/-! What the element under the cursor refers to. -/

namespace SolidityServer.Query

/-- What a name stands for, by where it is written. -/
inductive Reference where
  | nothing
  | ancestor (name : Option String)
  | library (name : Option String)
  | type (ref : TypeRef)
  | callee (name : Option String)
  | variable (name : Option String)
  /-- A name after a dot: a variable or something to call. -/
  | member (name : Option String)
deriving Repr, DecidableEq, Inhabited

/-- What an identifier stands for, given the node it was reached from. Arguments of a call are not
resolved. -/
def identifierReference (parent : Option Node) (n : Node) : Reference :=
  let role := n.place.head?
  match parent.map Node.kind with
  | some .call => if role == some (.field .callee) then .callee n.name? else .nothing
  | some .member =>
    if role == some (.field .object) then .variable n.name?
    else if role == some (.field .property) then .member n.name?
    else .nothing
  | _ => .variable n.name?

/-- What the name of a type stands for. -/
def typeReference (n : Node) : Reference :=
  match (n.get .literal).text? with
  | none => .nothing
  | some "function" => .nothing
  | some name =>
    let members := (n.get .members).items.filterMap Value.text?
    .type { name := some name, members, start := n.start }

/-- What the library of a using directive stands for. -/
def usingReference (n : Node) : Reference :=
  match (n.get .library).text? with
  | none => .nothing
  | some name => .library (some name)

/-- The first node in a field that contains the offset. -/
def fieldAt? (offset : Int) : Value → Option Node
  | .list items => nodeAt? (items.filterMap Value.node?) offset
  | .node n => if n.contains offset then some n else none
  | .plain _ => none

theorem mem_of_fieldAt? {offset : Int} {v : Value} {n : Node} (h : fieldAt? offset v = some n) :
    n ∈ v.nodes := by
  cases v with
  | plain => cases h
  | list items => exact mem_of_nodeAt? h
  | node m =>
    rw [fieldAt?] at h
    split at h
    · cases h
      simp [Value.nodes]
    · cases h

/-- The child that the way to the cursor leads into: the first one that contains it, slot by slot.
The target of a using directive counts from its start on. -/
def enter? (offset : Int) (n : Node) : Option Node :=
  if n.kind == .using then (n.get .target).nodes.find? fun target => target.start ≤ offset
  else n.kind.slots.findSome? fun f => fieldAt? offset (n.get f)

theorem sizeOf_lt_of_enter? {offset : Int} {n child : Node} (h : enter? offset n = some child) :
    sizeOf child < sizeOf n := by
  unfold enter? at h
  split at h
  · exact Node.sizeOf_lt_of_mem_get (List.mem_of_find?_eq_some h)
  · obtain ⟨f, _, hf⟩ := List.exists_of_findSome?_eq_some h
    exact Node.sizeOf_lt_of_mem_get (mem_of_fieldAt? hf)

/-- What a node stands for if no child of it contains the cursor. -/
def ownReference (parent : Option Node) (n : Node) : Reference :=
  match n.kind with
  | .identifier => identifierReference parent n
  | .type => typeReference n
  | .using => usingReference n
  | .modifierCall => .callee n.name?
  | _ => .nothing

/-- What the cursor is on, at or below a node that was reached from `parent`. -/
def referenceAt (offset : Int) (parent : Option Node) (n : Node) : Reference :=
  match _h : enter? offset n with
  | some child => referenceAt offset (some n) child
  | none => ownReference parent n
termination_by sizeOf n
decreasing_by exact sizeOf_lt_of_enter? _h

/-- What the cursor is on in a contract, library or interface. -/
def containerReference (offset : Int) (n : Node) : Reference :=
  match nodeAt? (n.get .bases).nodes offset with
  | some base => .ancestor base.name?
  | none =>
    match nodeAt? (body n) offset with
    | some statement => referenceAt offset (some n) statement
    | none => .nothing

end SolidityServer.Query
