import SolidityServer.Syntax.Outline

/-! Typed nodes. A node has every field of its kind, given or by default, knows its place in the
tree that it was read with, and the place of the node that holds it. -/

namespace SolidityServer

/-- One step down a tree. -/
inductive Step where
  | field (f : Field)
  | item (index : Nat)
deriving Repr, DecidableEq, Inhabited

/-- The way from the root to a node, last step first. -/
abbrev Place := List Step

mutual

inductive Node where
  | mk (kind : Kind) (place : Place) (parent : Option Place) (fields : List (Field × Value))

/-- What a field holds. Objects that are no nodes stay as they are. -/
inductive Value where
  | plain (json : Json)
  | list (items : List Value)
  | node (n : Node)

end

deriving instance Repr for Node, Value

instance : Inhabited Node := ⟨.mk .base [] none []⟩

instance : Inhabited Value := ⟨.plain .null⟩

namespace Node

def kind : Node → Kind
  | .mk kind _ _ _ => kind

def place : Node → Place
  | .mk _ place _ _ => place

def parent : Node → Option Place
  | .mk _ _ parent _ => parent

def fields : Node → List (Field × Value)
  | .mk _ _ _ fields => fields

def field? (n : Node) (f : Field) : Option Value := n.fields.lookup f

/-- The value of a field, null if the kind has no such field. -/
def get (n : Node) (f : Field) : Value := (n.field? f).getD (.plain .null)

end Node

namespace Value

/-- The nodes that a field holds: one, or those of a list. -/
def nodes : Value → List Node
  | .node n => [n]
  | .list items => items.filterMap fun
    | .node n => some n
    | _ => none
  | .plain _ => []

def node? : Value → Option Node
  | .node n => some n
  | _ => none

def text? : Value → Option String
  | .plain (.str s) => some s
  | _ => none

/-- A value as a whole number; the truth values count as one and zero. -/
def int? : Value → Option Int
  | .plain (.int n) => some n
  | .plain (.bool b) => some (if b then 1 else 0)
  | _ => none

def items : Value → List Value
  | .list items => items
  | _ => []

end Value

namespace Node

def start (n : Node) : Int := (n.get .start).int?.getD 0

def stop (n : Node) : Int := (n.get .stop).int?.getD 0

def name? (n : Node) : Option String := (n.get .name).text?

/-- Both ends count, so that a cursor right after a name is still on it. -/
def contains (n : Node) (offset : Int) : Bool := n.start ≤ offset && offset ≤ n.stop

/-- The nodes in the slots of a node's kind, in order. -/
def children (n : Node) : List Node := n.kind.slots.flatMap fun f => (n.get f).nodes

end Node

/-- What is one step below a value. -/
def Value.child? : Value → Step → Option Value
  | .node n, .field f => n.field? f
  | .list items, .item index => items[index]?
  | _, _ => none

/-- The node at a place below a root. -/
def Node.at? (root : Node) (place : Place) : Option Node :=
  (place.reverse.foldlM Value.child? (Value.node root)).bind Value.node?

/-- The first node that contains the offset. Where two overlap the earlier one wins. -/
def nodeAt? (nodes : List Node) (offset : Int) : Option Node := nodes.find? (·.contains offset)

theorem sizeOf_lookup_lt {fields : List (Field × Value)} {f : Field} {v : Value}
    (h : fields.lookup f = some v) : sizeOf v < sizeOf fields := by
  induction fields with
  | nil => simp at h
  | cons entry fields ih =>
    obtain ⟨g, w⟩ := entry
    rw [List.lookup_cons] at h
    split at h
    · cases h
      simp; omega
    · have := ih h
      simp; omega

theorem Value.sizeOf_lt_of_mem_nodes {v : Value} {n : Node} (h : n ∈ v.nodes) :
    sizeOf n < sizeOf v := by
  cases v with
  | plain json => simp [Value.nodes] at h
  | node m =>
    simp [Value.nodes] at h
    subst h; simp
  | list items =>
    simp only [Value.nodes, List.mem_filterMap] at h
    obtain ⟨item, hmem, hitem⟩ := h
    have := List.sizeOf_lt_of_mem hmem
    cases item with
    | node m =>
      simp at hitem
      subst hitem
      simp at this ⊢; omega
    | _ => simp at hitem

theorem Node.sizeOf_lt_of_mem_get {n c : Node} {f : Field} (h : c ∈ (n.get f).nodes) :
    sizeOf c < sizeOf n := by
  obtain ⟨kind, place, parent, fields⟩ := n
  unfold Node.get Node.field? at h
  cases hv : fields.lookup f with
  | none => simp [Node.fields, hv, Value.nodes] at h
  | some v =>
    simp only [Node.fields, hv, Option.getD_some] at h
    have h1 := Value.sizeOf_lt_of_mem_nodes h
    have h2 := sizeOf_lookup_lt hv
    simp; omega

theorem Node.sizeOf_lt_of_mem_children {n c : Node} (h : c ∈ n.children) : sizeOf c < sizeOf n := by
  obtain ⟨f, _, hf⟩ := List.mem_flatMap.mp h
  exact Node.sizeOf_lt_of_mem_get hf

theorem mem_of_nodeAt? {nodes : List Node} {offset : Int} {n : Node}
    (h : nodeAt? nodes offset = some n) : n ∈ nodes := List.mem_of_find?_eq_some h

/-- The nodes passed on the way down to an offset, always into the first child that contains it. -/
def Node.descent (n : Node) (offset : Int) : List Node :=
  match _h : nodeAt? n.children offset with
  | some child => child :: child.descent offset
  | none => []
termination_by sizeOf n
decreasing_by exact Node.sizeOf_lt_of_mem_children (mem_of_nodeAt? _h)

/-- Why an object cannot become a node. -/
inductive NodeError where
  | noType
  | listAsType
  | objectAsType
  | slotsGiven (kind : Kind)
deriving Repr, DecidableEq, Inhabited

def NodeError.message : NodeError → String
  | .noType => "'type'"
  | .listAsType => "unhashable type: 'list'"
  | .objectAsType => "unhashable type: 'dict'"
  | .slotsGiven kind => kind.name ++ ".__init__() got an unexpected keyword argument 'child_slots'"

/-- The fields of every node of a kind but its parent, with their defaults. -/
def Kind.allFields (kind : Kind) (tag : Json) : List (Field × Value) :=
  (.tag, .plain tag) :: (.start, .plain (.int 0)) :: (.stop, .plain (.int 0))
    :: kind.fields.map fun (f, default) =>
      (f, match default with
        | .arr [] => .list []
        | json => .plain json)

/-- What a key of an object means to a node of some kind. -/
inductive Kind.KeyMeaning where
  | field (f : Field)
  | parent
  | slots
  | unknown

/-- The key as the name of a field of a typed node. -/
def typedKeyOf (key : String) : String :=
  match key with
  | "from" => "from_"
  | "is" => "is_"
  | "for" => "for_"
  | _ => key

def Kind.meaning (kind : Kind) (key : String) : Kind.KeyMeaning :=
  let key := typedKeyOf key
  match (kind.allFields .null).find? fun (f, _) => f.typedKey == key with
  | some (f, _) => .field f
  | none =>
    if key == "parent" then .parent
    else if key == "child_slots" then .slots
    else .unknown

/-- Set the value of a field that is there. -/
def assign (f : Field) (v : Value) (fields : List (Field × Value)) : List (Field × Value) :=
  fields.map fun (g, old) => if g == f then (g, v) else (g, old)

def kindOfType : Json → Except NodeError Kind
  | .str name => .ok (Kind.ofName name)
  | .arr _ => .error .listAsType
  | .obj _ => .error .objectAsType
  | _ => .ok .base

/-- The fields read so far, and whether the slots of the kind were given too. -/
structure Node.Draft where
  fields : List (Field × Value)
  slotsGiven : Bool := false

def Node.Draft.take (d : Node.Draft) (v : Value) : Kind.KeyMeaning → Node.Draft
  | .field f => { d with fields := assign f v d.fields }
  | .slots => { d with slotsGiven := true }
  | _ => d

/-- Where a key leads to. -/
def Kind.KeyMeaning.place (place : Place) : Kind.KeyMeaning → Place
  | .field f => .field f :: place
  | _ => .field .parent :: place

mutual

/-- The value of a field. A node in it, or in a list in it, is held by `holder`; one in a list in a
list is held by none. -/
def Value.ofJson (place : Place) (holder : Option Place) : Json → Except NodeError Value
  | .arr items => do
    return .list (← Value.ofItems place 0 holder items)
  | .obj fields =>
    match fields.lookup "type" with
    | none => .ok (.plain (.obj fields))
    | some tag => do
      let kind ← kindOfType tag
      let draft ← Node.draft kind place { fields := kind.allFields tag } fields
      if draft.slotsGiven then .error (.slotsGiven kind)
      return .node (.mk kind place holder draft.fields)
  | json => .ok (.plain json)

def Value.ofItems (place : Place) (index : Nat) (holder : Option Place) :
    List Json → Except NodeError (List Value)
  | [] => .ok []
  | item :: items => do
    let first ← Value.ofJson (.item index :: place) (if item.isList then none else holder) item
    return first :: (← Value.ofItems place (index + 1) holder items)

def Node.draft (kind : Kind) (place : Place) (d : Node.Draft) :
    List (String × Json) → Except NodeError Node.Draft
  | [] => .ok d
  | (key, json) :: fields => do
    if key == "type" then Node.draft kind place d fields
    else
      match kind.meaning key with
      | .unknown => Node.draft kind place d fields
      | meaning =>
        let value ← Value.ofJson (meaning.place place) (some place) json
        Node.draft kind place (d.take value meaning) fields

end

/-- The node that an object describes. -/
def Node.ofJson (fields : List (String × Json)) : Except NodeError Node := do
  match fields.lookup "type" with
  | none => .error .noType
  | some _ =>
    match ← Value.ofJson [] none (.obj fields) with
    | .node n => return n
    | _ => .error .noType

end SolidityServer
