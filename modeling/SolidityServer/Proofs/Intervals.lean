import SolidityServer.Proofs.ReadingLayout

/-! The intervals of an outline: every node of a well-formed tree ends after it starts and inside
the text, and holds only nodes inside itself. -/

namespace SolidityServer

namespace Outline

/-- What an outline is made of, at any depth. -/
inductive PartOf : Outline → Outline → Prop
  | refl (o : Outline) : PartOf o o
  | item {o x : Outline} {items : List Outline} (h : PartOf o x) (hx : x ∈ items) :
      PartOf o (.list items)
  | field {o x : Outline} {kind : Kind} {span : Span} {fields : List (Field × Outline)} {f : Field}
      (h : PartOf o x) (hx : (f, x) ∈ fields) : PartOf o (.node kind span fields)

variable {d : Prop}

theorem PartOf.laid {n o : Outline} (hp : n.PartOf o) (h : o.Laid d) : n.Laid d := by
  induction hp with
  | refl => exact h
  | item _ hx ih => exact ih (laid_list_iff.mp h _ hx).2
  | field _ hx ih =>
    cases h with
    | node _ each _ _ => exact ih (each _ hx)

theorem PartOf.within {n o : Outline} (hp : n.PartOf o) (h : o.Laid d) (bound : Span)
    (hb : ∀ a ∈ o.spans, a.Within bound) : ∀ a ∈ n.spans, a.Within bound := by
  induction hp with
  | refl => exact hb
  | @item x items _ hx ih =>
    obtain ⟨hflat, hlaid⟩ := laid_list_iff.mp h x hx
    refine ih hlaid fun a ha => hb a ?_
    cases x with
    | list => simp [isList] at hflat
    | null | flag | text => simp [spans, nodes] at ha
    | node kind span fields =>
      rw [spans_node, List.mem_singleton] at ha
      rw [spans_list, List.mem_filterMap]
      exact ⟨_, hx, ha ▸ rfl⟩
  | @field x kind span fields f _ hx ih =>
    cases h with
    | node _ each within _ =>
      refine ih (each (f, x) hx) fun a ha => ?_
      have hspan := hb span (by simp)
      exact (within a (List.mem_flatMap.mpr ⟨(f, x), hx, ha⟩)).trans hspan

end Outline

/-- Every node read from a well-formed tree has an interval inside the text that contains the
intervals of all nodes in its fields. -/
theorem program_intervals_nested {text : String} {root : Concrete} (h : root.WellFormed text)
    {kind : Kind} {span : Span} {fields : List (Field × Outline)}
    (hn : (Outline.node kind span fields).PartOf (root.program (SourceText.ofText text))) :
    span.start ≤ span.stop ∧ span.stop ≤ text.length ∧
      ∀ e ∈ fields, ∀ n ∈ e.2.nodes, ∀ inner, n.span? = some inner →
        span.start ≤ inner.start ∧ inner.stop ≤ span.stop := by
  have hprogram := Concrete.program_laid (d := False) h False.elim
  have hbound := hn.within hprogram ⟨0, text.length⟩ fun a ha => by
    rw [← SourceText.length_ofText]
    exact List.mem_singleton.mp ha ▸ Span.Within.refl _
  cases hn.laid hprogram with
  | node forward _ within _ =>
    refine ⟨forward, (hbound span (by simp)).2, ?_⟩
    intro e he n hne inner hinner
    exact within inner (List.mem_flatMap.mpr ⟨e, he, List.mem_filterMap.mpr ⟨n, hne, hinner⟩⟩)

theorem emit_intervals_nested :
    emitTree.WellFormed emitText ∧
      (Outline.node .call ⟨20, 26⟩ emitFields).PartOf
        (emitTree.program (SourceText.ofText emitText)) ∧
      20 ≤ 26 ∧ 26 ≤ emitText.length ∧
      ∀ e ∈ emitFields, ∀ n ∈ e.2.nodes, ∀ inner, n.span? = some inner →
        20 ≤ inner.start ∧ inner.stop ≤ 26 := by
  have hw : emitTree.WellFormed emitText := by decide +kernel
  have hn : (Outline.node .call ⟨20, 26⟩ emitFields).PartOf
      (emitTree.program (SourceText.ofText emitText)) := by
    rw [Concrete.program, programNode, emitTree_body]
    exact .field (.item (.field (.field (.item (.field (.refl _) (.head _)) (.head _)) (.head _))
      (List.mem_of_getElem? (i := 5) rfl)) (.head _)) (.head _)
  exact ⟨hw, hn, program_intervals_nested hw hn⟩

end SolidityServer
