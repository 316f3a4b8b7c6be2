import SolidityServer.Proofs.Sites

/-! Every outline that is read keeps to the schema: a node has the fields of its kind in their
order, and only the slots of its kind hold nodes. -/

namespace SolidityServer

namespace Outline

def isNode : Outline → Bool
  | .node .. => true
  | _ => false

def isList : Outline → Bool
  | .list _ => true
  | _ => false

/-- The nodes that a field holds: one, or those of a list. -/
def nodes : Outline → List Outline
  | .node kind span fields => [.node kind span fields]
  | .list items => items.filter isNode
  | _ => []

def kind? : Outline → Option Kind
  | .node kind _ _ => some kind
  | _ => none

/-- No nodes, or the symbols of an import, which no slot holds. -/
def Aside (kind : Kind) (f : Field) (o : Outline) : Prop :=
  o.nodes = [] ∨
    kind = .importStatement ∧ f = .symbols ∧ ∀ n ∈ o.nodes, n.kind? = some .importSymbol

/-- The outline keeps to the schema, at every depth. -/
inductive Conforms : Outline → Prop
  | null : Conforms .null
  | flag (b : Bool) : Conforms (.flag b)
  | text (t : String) : Conforms (.text t)
  | list {items : List Outline} (flat : ∀ o ∈ items, o.isList = false)
      (each : ∀ o ∈ items, o.Conforms) : Conforms (.list items)
  | node {kind : Kind} {span : Span} {fields : List (Field × Outline)}
      (keys : fields.map Prod.fst = kind.fields.map Prod.fst)
      (each : ∀ e ∈ fields, e.2.Conforms)
      (aside : ∀ e ∈ fields, e.1 ∉ kind.slots → e.2.Aside kind e.1) :
      Conforms (.node kind span fields)

@[simp] theorem conforms_null : Conforms .null := .null

@[simp] theorem conforms_flag (b : Bool) : Conforms (.flag b) := .flag b

@[simp] theorem conforms_text (t : String) : Conforms (.text t) := .text t

@[simp] theorem conforms_chars (cs : List Char) : (chars cs).Conforms := .text _

@[simp] theorem conforms_chars? (cs : Option (List Char)) : (chars? cs).Conforms := by
  cases cs
  · exact .null
  · exact .text _

@[simp] theorem conforms_texts (ss : List (List Char)) : (texts ss).Conforms := by
  apply Conforms.list <;>
  · simp only [List.forall_mem_map]
    intro cs _
    simp [chars, isList]

@[simp] theorem aside_null (kind : Kind) (f : Field) : Aside kind f .null := .inl rfl

@[simp] theorem aside_flag (kind : Kind) (f : Field) (b : Bool) : Aside kind f (.flag b) :=
  .inl rfl

@[simp] theorem aside_text (kind : Kind) (f : Field) (t : String) : Aside kind f (.text t) :=
  .inl rfl

@[simp] theorem aside_chars (kind : Kind) (f : Field) (cs : List Char) : (chars cs).Aside kind f :=
  .inl rfl

@[simp] theorem aside_chars? (kind : Kind) (f : Field) (cs : Option (List Char)) :
    (chars? cs).Aside kind f := by
  cases cs
  · exact .inl rfl
  · exact .inl rfl

@[simp] theorem aside_texts (kind : Kind) (f : Field) (ss : List (List Char)) :
    (texts ss).Aside kind f := by
  refine .inl ?_
  simp [texts, nodes, List.filter_eq_nil_iff, chars, isNode]

theorem conforms_list_iff {items : List Outline} :
    (list items).Conforms ↔ ∀ o ∈ items, o.isList = false ∧ o.Conforms := by
  constructor
  · intro h
    cases h with
    | list flat each => exact fun o ho => ⟨flat o ho, each o ho⟩
  · intro h
    exact .list (fun o ho => (h o ho).1) (fun o ho => (h o ho).2)

theorem conforms_singleton {o : Outline} (hl : o.isList = false) (h : o.Conforms) :
    (list [o]).Conforms := by
  simp [conforms_list_iff, hl, h]

theorem conforms_nil : (list []).Conforms := by simp [conforms_list_iff]

theorem conforms_flatMap {α : Type} {l : List α} {f : α → List Outline}
    (h : ∀ a ∈ l, (list (f a)).Conforms) : (list (l.flatMap f)).Conforms := by
  rw [conforms_list_iff]
  intro o ho
  obtain ⟨a, ha, hoa⟩ := List.mem_flatMap.mp ho
  exact conforms_list_iff.mp (h a ha) o hoa

theorem conforms_orNull {o : Option Outline} (h : (list o.toList).Conforms) :
    (orNull o).Conforms := by
  cases o with
  | none => exact .null
  | some o => exact (conforms_list_iff.mp h o (by simp)).2

theorem conforms_bind {α : Type} {a : Option α} {f : α → Option Outline}
    (h : ∀ x, a = some x → (list (f x).toList).Conforms) :
    (list (a.bind f).toList).Conforms := by
  cases a with
  | none => exact conforms_nil
  | some x => exact h x rfl

theorem Conforms.of_mem_nodes {o n : Outline} (h : o.Conforms) (hn : n ∈ o.nodes) :
    n.Conforms := by
  cases o with
  | null | flag | text => simp [nodes] at hn
  | node kind span fields =>
    rw [nodes, List.mem_singleton] at hn
    exact hn ▸ h
  | list items => exact (conforms_list_iff.mp h n (List.mem_filter.mp hn).1).2

end Outline

/-- The outlines of a reading keep to the schema, and none of them is a list. -/
abbrev Reading.Conforms (r : Reading) : Prop := r.Each fun os => (Outline.list os).Conforms

namespace Site

open Outline

variable {s : Site}

theorem node_conforms {kind : Kind} {fields : List (Field × Outline)}
    (keys : fields.map Prod.fst = kind.fields.map Prod.fst)
    (h : ∀ e ∈ fields, e.2.Conforms ∧ (e.1 ∉ kind.slots → e.2.Aside kind e.1)) :
    (s.node kind fields).Conforms :=
  .node keys (fun e he => (h e he).1) (fun e he => (h e he).2)

section

variable (h : ∀ c ∈ s.children, c.Conforms)

include h

theorem expressionIn_conforms (role : String) : (s.expressionIn role).Conforms :=
  conforms_orNull (conforms_bind fun c hc => (h c (mem_children_of_field hc)).expression)

theorem statementIn_conforms (role : String) : (s.statementIn role).Conforms :=
  conforms_orNull (conforms_bind fun c hc => (h c (mem_children_of_field hc)).statement)

theorem blockIn_conforms (role : String) : (s.blockIn role).Conforms :=
  conforms_orNull (conforms_bind fun c hc => (h c (mem_children_of_field hc)).block)

omit h in
theorem typeOutline_conforms {r : Option Reading} (hr : ∀ c, r = some c → c.Conforms) :
    (typeOutline r).Conforms := by
  cases r with
  | none => exact .null
  | some c => exact conforms_orNull (hr c rfl).type

theorem typeIn_conforms (role : String) : (typeOutline (s.field role)).Conforms :=
  typeOutline_conforms fun c hc => h c (mem_children_of_field hc)

theorem parts_conform {f : Reading → List Outline}
    (hf : ∀ c ∈ s.named, c.Conforms → (list (f c)).Conforms) :
    (list (s.named.flatMap f)).Conforms :=
  conforms_flatMap fun c hc => hf c hc (h c (mem_children_of_mem_named hc))

theorem parameters_conform : (list s.parameters).Conforms :=
  parts_conform h fun _ _ hc => hc.parameter

theorem callArguments_conform : (list s.callArguments).Conforms :=
  parts_conform h fun _ _ hc => hc.arguments

end

end Site

end SolidityServer
