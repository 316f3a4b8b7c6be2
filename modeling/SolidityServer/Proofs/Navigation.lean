import Mathlib.Data.List.Pairwise
import Mathlib.Logic.Relation
import SolidityServer.Proofs.HeldNodes
import SolidityServer.Proofs.ReadingLayout
import SolidityServer.Query.Reference

/-! The way down to the cursor never goes back, and need not: children do not overlap, so the first
child that contains an offset is the only one it lies inside of. -/

namespace SolidityServer

/-- The nodes that are found from child to child. -/
abbrev Node.Reaches : Node → Node → Prop := Relation.ReflTransGen fun m n => n ∈ m.children

def Node.Apart (a b : Node) : Prop := a.stop ≤ b.start ∨ b.stop ≤ a.start

instance : Std.Symm Node.Apart := ⟨fun _ _ h => Or.symm h⟩

theorem nodeAt?_eq_of_apart {nodes : List Node} (h : nodes.Pairwise Node.Apart) {n : Node}
    (hn : n ∈ nodes) {offset : Int} (hstart : n.start < offset) (hstop : offset < n.stop) :
    nodeAt? nodes offset = some n := by
  cases hfound : nodeAt? nodes offset with
  | none =>
    have hmiss := List.find?_eq_none.mp hfound n hn
    simp only [Node.contains, Bool.and_eq_true, decide_eq_true_eq] at hmiss
    omega
  | some m =>
    have hcontains := List.find?_some hfound
    simp only [Node.contains, Bool.and_eq_true, decide_eq_true_eq] at hcontains
    by_contra hne
    have hmn : m ≠ n := fun heq => hne (congrArg some heq)
    rcases h.forall (mem_of_nodeAt? hfound) hn hmn with hapart | hapart
    · omega
    · omega

theorem Query.fieldAt?_eq (offset : Int) (v : Value) :
    Query.fieldAt? offset v = nodeAt? v.nodes offset := by
  cases v with
  | plain => rfl
  | list items => rfl
  | node n =>
    cases hc : n.contains offset with
    | false => simp [Query.fieldAt?, nodeAt?, Value.nodes, hc]
    | true => simp [Query.fieldAt?, nodeAt?, Value.nodes, hc]

/-- Looking through the slots one by one finds what looking through all children finds. -/
theorem Query.enter?_eq {n : Node} (hk : n.kind ≠ .using) (offset : Int) :
    Query.enter? offset n = nodeAt? n.children offset := by
  have hkind : (n.kind == .using) = false := by simpa using hk
  rw [Query.enter?, hkind, nodeAt?, Node.children, List.find?_flatMap]
  simp only [Query.fieldAt?_eq, nodeAt?, Bool.false_eq_true, if_false]

theorem bounds_toValue (place : Place) (holder : Option Place) (o : Outline) :
    (o.toValue place holder).nodes.map (fun c => (c.start, c.stop)) =
      o.spans.map fun a => ((a.start : Int), (a.stop : Int)) := by
  have h := toValue_nodes place holder o
  rw [Outline.spans]
  generalize (o.toValue place holder).nodes = typed, o.nodes = outlines at h
  induction h with
  | nil => rfl
  | @cons c n typed outlines hcn _ ih =>
    obtain ⟨p, hp⟩ := hcn
    cases n with
    | node kind span fields =>
      cases hp
      rw [List.map_cons, ih]
      rfl
    | null | flag | text | list => cases hp

/-- The spans of the children of a node, slot by slot. -/
def slotSpans (kind : Kind) (fields : List (Field × Outline)) : List Span :=
  kind.slots.flatMap fun f => ((fields.lookup f).getD .null).spans

theorem bounds_children (place : Place) (holder : Option Place) (kind : Kind) (span : Span)
    (fields : List (Field × Outline)) :
    (typedNode place holder kind span fields).children.map (fun c => (c.start, c.stop)) =
      (slotSpans kind fields).map fun a => ((a.start : Int), (a.stop : Int)) := by
  rw [typedNode_children, slotSpans, List.map_flatMap, List.map_flatMap]
  exact List.flatMap_congr fun f _ => bounds_toValue _ _ _

theorem mem_of_spans_lookup {fields : List (Field × Outline)} {f : Field} {a : Span}
    (ha : a ∈ ((fields.lookup f).getD .null).spans) : ∃ o, (f, o) ∈ fields ∧ a ∈ o.spans := by
  cases hl : fields.lookup f with
  | none => simp [hl, Outline.spans_null] at ha
  | some o =>
    rw [hl] at ha
    obtain ⟨before, after, rfl, _⟩ := List.lookup_eq_some_iff.mp hl
    exact ⟨o, by simp, ha⟩

/-- The fields keep their nodes apart in their own order, and so do the slots in theirs. -/
theorem slotSpans_apart (kind : Kind) {fields : List (Field × Outline)}
    (h : (Outline.heldSpans fields).Pairwise Span.Apart) :
    (slotSpans kind fields).Pairwise Span.Apart := by
  obtain ⟨hwithin, hbetween⟩ := List.pairwise_flatMap.mp h
  have hsymm : Std.Symm fun e e' : Field × Outline =>
      ∀ a ∈ e.2.spans, ∀ b ∈ e'.2.spans, a.Apart b :=
    ⟨fun _ _ hab b hb a ha => (hab a ha b hb).symm⟩
  refine List.pairwise_flatMap.mpr ⟨fun f _ => ?_, kind.slots_nodup.imp fun {f g} hfg => ?_⟩
  · cases hl : fields.lookup f with
    | none => exact .nil
    | some o =>
      obtain ⟨before, after, rfl, _⟩ := List.lookup_eq_some_iff.mp hl
      exact hwithin (f, o) (by simp)
  · intro a ha b hb
    obtain ⟨o, ho, hao⟩ := mem_of_spans_lookup ha
    obtain ⟨o', ho', hbo⟩ := mem_of_spans_lookup hb
    exact hbetween.forall ho ho' (fun heq => hfg (congrArg Prod.fst heq)) a hao b hbo

/-- A node of a typed tree, as the typed form of an outline that is laid out without overlaps. -/
def Node.LaidOut (n : Node) : Prop :=
  ∃ place holder kind span fields, n = typedNode place holder kind span fields ∧
    (Outline.node kind span fields).Conforms ∧ (Outline.node kind span fields).Laid True

namespace Node.LaidOut

variable {n c : Node}

theorem children_apart (h : n.LaidOut) : n.children.Pairwise Node.Apart := by
  obtain ⟨place, holder, kind, span, fields, rfl, _, hlaid⟩ := h
  cases hlaid with
  | node _ _ _ apart =>
    have hslots : ((slotSpans kind fields).map fun a => ((a.start : Int), (a.stop : Int))).Pairwise
        fun a b => a.2 ≤ b.1 ∨ b.2 ≤ a.1 := by
      rw [List.pairwise_map]
      refine (slotSpans_apart kind (apart trivial)).imp fun {a b} hab => ?_
      unfold Span.Apart at hab
      omega
    rw [← bounds_children place holder kind span, List.pairwise_map] at hslots
    exact hslots

theorem child (h : n.LaidOut) (hc : c ∈ n.children) :
    c.LaidOut ∧ n.start ≤ c.start ∧ c.stop ≤ n.stop := by
  obtain ⟨place, holder, kind, span, fields, rfl, hconforms, hlaid⟩ := h
  rw [typedNode_children] at hc
  obtain ⟨f, _, hc⟩ := List.mem_flatMap.mp hc
  obtain ⟨k, a, fs, p, hmem, rfl, _⟩ := Outline.typed_of_mem_nodes hc
  cases hl : fields.lookup f with
  | none => simp [hl, Outline.nodes] at hmem
  | some o =>
    rw [hl, Option.getD_some] at hmem
    obtain ⟨before, after, rfl, _⟩ := List.lookup_eq_some_iff.mp hl
    cases hconforms with
    | node _ conform _ =>
      cases hlaid with
      | node _ laid within _ =>
        have hfo : (f, o) ∈ before ++ (f, o) :: after := by simp
        have ha : a ∈ o.spans := List.mem_filterMap.mpr ⟨_, hmem, rfl⟩
        have hin := within a (List.mem_flatMap.mpr ⟨(f, o), hfo, ha⟩)
        have hbounds : (span.start : Int) ≤ a.start ∧ (a.stop : Int) ≤ span.stop := by
          have := hin.1
          have := hin.2
          omega
        refine ⟨⟨_, _, _, _, _, rfl, (conform _ hfo).of_mem_nodes hmem, ?_⟩, hbounds⟩
        exact (laid _ hfo).of_mem_nodes hmem

theorem reaches (h : n.LaidOut) (hc : n.Reaches c) :
    c.LaidOut ∧ n.start ≤ c.start ∧ c.stop ≤ n.stop := by
  induction hc with
  | refl => exact ⟨h, Int.le_refl _, Int.le_refl _⟩
  | tail _ hstep ih =>
    obtain ⟨hlaid, hstart, hstop⟩ := ih.1.child hstep
    exact ⟨hlaid, Int.le_trans ih.2.1 hstart, Int.le_trans hstop ih.2.2⟩

/-- The way down to an offset inside of a node passes the node. -/
theorem mem_descent (h : n.LaidOut) (hc : n.Reaches c) {offset : Int} (hstart : c.start < offset)
    (hstop : offset < c.stop) : c ∈ n :: n.descent offset := by
  induction hc using Relation.ReflTransGen.head_induction_on with
  | refl => exact List.mem_cons_self
  | @head n m hstep hrest ih =>
    obtain ⟨hm, _, _⟩ := h.child hstep
    obtain ⟨_, hlow, hhigh⟩ := hm.reaches hrest
    have hfound : nodeAt? n.children offset = some m :=
      nodeAt?_eq_of_apart h.children_apart hstep (by omega) (by omega)
    rw [Node.descent, hfound]
    exact List.mem_cons_of_mem _ (ih hm)

end Node.LaidOut

/-- In the typed tree of a well-formed concrete tree in which no child plays two roles, the way down
to an offset inside of a node passes the node, and the walk slot by slot takes the same way. -/
theorem descent_passes_every_node {text : String} {root : Concrete} (hw : root.WellFormed text)
    (hs : root.SingleRoles text) :
    ∃ program, (root.program (SourceText.ofText text)).toNode? = some program ∧
      ∀ n, program.Reaches n →
        (∀ offset : Int, n.start < offset → offset < n.stop →
          n ∈ program :: program.descent offset) ∧
        (n.kind ≠ .using → ∀ offset : Int,
          Query.enter? offset n = nodeAt? n.children offset) := by
  have hconforms := root.program_conforms (SourceText.ofText text)
  have hlaid : (root.program (SourceText.ofText text)).Laid True :=
    Concrete.program_laid hw fun _ => hs
  refine ⟨_, hconforms.toNode?_eq, fun n hn => ⟨fun offset hstart hstop => ?_, fun hk offset => ?_⟩⟩
  · have hprogram : Node.LaidOut (typedNode [] none .program
        { start := 0, stop := (SourceText.ofText text).length }
        [(.body, .list (root.body (SourceText.ofText text)))]) :=
      ⟨_, _, _, _, _, rfl, hconforms, hlaid⟩
    exact hprogram.mem_descent hn hstart hstop
  · exact Query.enter?_eq hk offset

theorem descent_passes_emitted_argument :
    emitTree.WellFormed emitText ∧ emitTree.SingleRoles emitText ∧
      ∃ program, (emitTree.program (SourceText.ofText emitText)).toNode? = some program ∧
        ∃ n, program.Reaches n ∧ n.kind ≠ .using ∧ n.name? = some "bc" ∧
          n.start < 24 ∧ 24 < n.stop ∧ n ∈ program :: program.descent 24 ∧
          Query.enter? 24 n = nodeAt? n.children 24 := by
  have hw : emitTree.WellFormed emitText := by decide +kernel
  have hs : emitTree.SingleRoles emitText := by decide +kernel
  obtain ⟨program, hprogram, hall⟩ := descent_passes_every_node hw hs
  have hnode := (emitTree.program_conforms (SourceText.ofText emitText)).toNode?_eq
  rw [emitTree_body] at hnode
  obtain ⟨n, hn, hk, hname, hstart, hstop⟩ : ∃ n, program.Reaches n ∧ n.kind ≠ .using ∧
      n.name? = some "bc" ∧ n.start < 24 ∧ 24 < n.stop := by
    rw [Option.some.inj (hprogram.symm.trans hnode)]
    have hstep : ∀ {m c : Node} (i : Nat), m.children[i]? = some c → c ∈ m.children :=
      fun _ => List.mem_of_getElem?
    refine ⟨_, .tail (.tail (.tail (.tail (.tail .refl (hstep 0 rfl)) (hstep 0 rfl)) (hstep 0 rfl))
      (hstep 0 rfl)) (hstep 1 rfl), ?_⟩
    decide
  exact ⟨hw, hs, program, hprogram, n, hn, hk, hname, hstart, hstop,
    (hall n hn).1 24 hstart hstop, (hall n hn).2 hk 24⟩

end SolidityServer
