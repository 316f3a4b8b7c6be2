import SolidityServer.Proofs.OutlineShape

/-! How the nodes of an outline lie in the text: every node spans the nodes that it holds, and where
no child of a concrete node plays two roles they do not overlap either. -/

namespace SolidityServer

namespace Span

def Within (a b : Span) : Prop := b.start ≤ a.start ∧ a.stop ≤ b.stop

def Apart (a b : Span) : Prop := a.stop ≤ b.start ∨ b.stop ≤ a.start

theorem Within.refl (a : Span) : a.Within a := ⟨Nat.le_refl _, Nat.le_refl _⟩

theorem Within.trans {a b c : Span} (hab : a.Within b) (hbc : b.Within c) : a.Within c :=
  ⟨Nat.le_trans hbc.1 hab.1, Nat.le_trans hab.2 hbc.2⟩

theorem Apart.symm {a b : Span} (h : a.Apart b) : b.Apart a := Or.symm h

theorem Apart.mono {a b c d : Span} (h : c.Apart d) (ha : a.Within c) (hb : b.Within d) :
    a.Apart b := by
  rcases h with h | h
  · exact .inl (Nat.le_trans ha.2 (Nat.le_trans h hb.1))
  · exact .inr (Nat.le_trans hb.2 (Nat.le_trans h ha.1))

/-- No span of the one list overlaps one of the other. -/
def Clear (ps qs : List Span) : Prop := ∀ p ∈ ps, ∀ q ∈ qs, p.Apart q

end Span

namespace Outline

/-- The spans of the nodes that a field holds. -/
def spans (o : Outline) : List Span := o.nodes.filterMap span?

theorem spans_list (items : List Outline) : (list items).spans = items.filterMap span? := by
  rw [spans, nodes, List.filterMap_filter]
  congr 1
  funext o
  cases o <;> rfl

theorem spans_null : null.spans = [] := rfl

@[simp] theorem spans_node (kind : Kind) (span : Span) (fields : List (Field × Outline)) :
    (node kind span fields).spans = [span] := rfl

@[simp] theorem spans_texts (ss : List (List Char)) : (texts ss).spans = [] := by
  rw [texts, spans_list, List.filterMap_map, List.filterMap_eq_nil_iff]
  exact fun cs _ => rfl

theorem spans_eq_of_not_list {o : Outline} (h : o.isList = false) :
    (list [o]).spans = o.spans := by
  cases o with
  | list => simp [isList] at h
  | null | flag | text | node => rfl

/-- The spans of the nodes in some fields. -/
def heldSpans (fields : List (Field × Outline)) : List Span := fields.flatMap fun e => e.2.spans

/-- Every node spans what it holds. If `d` holds, then what it holds does not overlap. -/
inductive Laid (d : Prop) : Outline → Prop
  | null : Laid d .null
  | flag (b : Bool) : Laid d (.flag b)
  | text (t : String) : Laid d (.text t)
  | list {items : List Outline} (flat : ∀ o ∈ items, o.isList = false)
      (each : ∀ o ∈ items, o.Laid d) : Laid d (.list items)
  | node {kind : Kind} {span : Span} {fields : List (Field × Outline)}
      (forward : span.start ≤ span.stop) (each : ∀ e ∈ fields, e.2.Laid d)
      (within : ∀ a ∈ heldSpans fields, a.Within span)
      (apart : d → (heldSpans fields).Pairwise Span.Apart) : Laid d (.node kind span fields)

variable {d : Prop}

theorem laid_list_iff {items : List Outline} :
    (list items).Laid d ↔ ∀ o ∈ items, o.isList = false ∧ o.Laid d := by
  constructor
  · intro h
    cases h with
    | list flat each => exact fun o ho => ⟨flat o ho, each o ho⟩
  · intro h
    exact .list (fun o ho => (h o ho).1) (fun o ho => (h o ho).2)

theorem Laid.of_mem_nodes {o n : Outline} (h : o.Laid d) (hn : n ∈ o.nodes) : n.Laid d := by
  cases o with
  | null | flag | text => simp [nodes] at hn
  | node kind span fields =>
    rw [nodes, List.mem_singleton] at hn
    exact hn ▸ h
  | list items => exact (laid_list_iff.mp h n (List.mem_filter.mp hn).1).2

/-- What is laid out inside some parts of the text. -/
structure Row (d : Prop) (parts : List Span) (o : Outline) : Prop where
  laid : o.Laid d
  within : ∀ a ∈ o.spans, ∃ p ∈ parts, a.Within p
  apart : d → o.spans.Pairwise Span.Apart

variable {parts : List Span}

theorem Row.of_spans_nil {o : Outline} (hl : o.Laid d) (hs : o.spans = []) : Row d parts o where
  laid := hl
  within := by simp [hs]
  apart _ := by simp [hs]

theorem row_null : Row d parts .null := .of_spans_nil .null rfl

theorem row_flag (b : Bool) : Row d parts (.flag b) := .of_spans_nil (.flag b) rfl

theorem row_text (t : String) : Row d parts (.text t) := .of_spans_nil (.text t) rfl

theorem row_chars (cs : List Char) : Row d parts (chars cs) := row_text _

theorem row_chars? (cs : Option (List Char)) : Row d parts (chars? cs) := by
  cases cs with
  | none => exact row_null
  | some cs => exact row_chars cs

theorem row_texts (ss : List (List Char)) : Row d parts (texts ss) := by
  refine .of_spans_nil (laid_list_iff.mpr ?_) (spans_texts ss)
  simp only [List.forall_mem_map]
  exact fun cs _ => ⟨rfl, .text _⟩

theorem row_nil : Row d parts (list []) := row_texts []

theorem Row.within_single {p : Span} {o : Outline} (h : Row d [p] o) :
    ∀ a ∈ o.spans, a.Within p := by
  intro a ha
  obtain ⟨q, hq, haq⟩ := h.within a ha
  exact List.mem_singleton.mp hq ▸ haq

theorem Row.mono {parts' : List Span} {o : Outline} (h : Row d parts o)
    (hp : ∀ p ∈ parts, ∃ q ∈ parts', p.Within q) : Row d parts' o where
  laid := h.laid
  within a ha := by
    obtain ⟨p, hpm, hap⟩ := h.within a ha
    obtain ⟨q, hq, hpq⟩ := hp p hpm
    exact ⟨q, hq, hap.trans hpq⟩
  apart := h.apart

theorem Row.self {o : Outline} (h : Row d parts o) : Row d o.spans o :=
  ⟨h.laid, fun a ha => ⟨a, ha, .refl a⟩, h.apart⟩

theorem Row.singleton {o : Outline} (h : Row d parts o) (ho : o.isList = false) :
    Row d parts (list [o]) where
  laid := laid_list_iff.mpr (by simpa using ⟨ho, h.laid⟩)
  within := spans_eq_of_not_list ho ▸ h.within
  apart := spans_eq_of_not_list ho ▸ h.apart

theorem row_orNull {o : Option Outline} (h : Row d parts (list o.toList)) :
    Row d parts (orNull o) := by
  cases o with
  | none => exact row_null
  | some o =>
    obtain ⟨hl, ho⟩ := laid_list_iff.mp h.laid o (by simp)
    have hs := spans_eq_of_not_list hl
    exact ⟨ho, hs ▸ h.within, hs ▸ h.apart⟩

theorem row_orNull_singleton {o : Option Outline} (h : Row d parts (list o.toList)) :
    Row d parts (list [orNull o]) := by
  cases o with
  | none => exact row_null.singleton rfl
  | some o => exact h

theorem Row.append {parts' : List Span} {xs ys : List Outline} (hx : Row d parts (list xs))
    (hy : Row d parts' (list ys)) (clear : d → Span.Clear parts parts') :
    Row d (parts ++ parts') (list (xs ++ ys)) := by
  have hspans : (list (xs ++ ys)).spans = (list xs).spans ++ (list ys).spans := by
    simp only [spans_list, List.filterMap_append]
  refine ⟨laid_list_iff.mpr ?_, ?_, fun hd => ?_⟩
  · intro o ho
    rcases List.mem_append.mp ho with ho | ho
    · exact laid_list_iff.mp hx.laid o ho
    · exact laid_list_iff.mp hy.laid o ho
  · intro a ha
    rw [hspans] at ha
    rcases List.mem_append.mp ha with ha | ha
    · obtain ⟨p, hp, hap⟩ := hx.within a ha
      exact ⟨p, List.mem_append_left _ hp, hap⟩
    · obtain ⟨p, hp, hap⟩ := hy.within a ha
      exact ⟨p, List.mem_append_right _ hp, hap⟩
  · rw [hspans]
    refine List.pairwise_append.mpr ⟨hx.apart hd, hy.apart hd, fun a ha b hb => ?_⟩
    obtain ⟨p, hp, hap⟩ := hx.within a ha
    obtain ⟨q, hq, hbq⟩ := hy.within b hb
    exact (clear hd p hp q hq).mono hap hbq

theorem row_flatMap {α : Type} (span : α → Span) {cs : List α} {f : α → List Outline}
    (hc : cs.Pairwise fun a b => (span a).Apart (span b))
    (hf : ∀ c ∈ cs, Row d [span c] (list (f c))) :
    Row d (cs.map span) (list (cs.flatMap f)) := by
  have hspans : (list (cs.flatMap f)).spans = cs.flatMap fun c => (list (f c)).spans := by
    simp only [spans_list, List.filterMap_flatMap]
  have hin : ∀ c ∈ cs, ∀ a ∈ (list (f c)).spans, a.Within (span c) := fun c hcm =>
    (hf c hcm).within_single
  refine ⟨laid_list_iff.mpr ?_, ?_, fun hd => ?_⟩
  · intro o ho
    obtain ⟨c, hcm, hoc⟩ := List.mem_flatMap.mp ho
    exact laid_list_iff.mp (hf c hcm).laid o hoc
  · intro a ha
    rw [hspans] at ha
    obtain ⟨c, hcm, hac⟩ := List.mem_flatMap.mp ha
    exact ⟨span c, List.mem_map_of_mem hcm, hin c hcm a hac⟩
  · rw [hspans, List.pairwise_flatMap]
    refine ⟨fun c hcm => (hf c hcm).apart hd, hc.imp_of_mem ?_⟩
    intro c e hcm hem hce a ha b hb
    exact hce.mono (hin c hcm a ha) (hin e hem b hb)

/-- The fields of a node with the parts of the text that their nodes stand in, field by field;
fields without nodes have no part. -/
inductive Filled (d : Prop) : List (List Span) → List (Field × Outline) → Prop
  | nil : Filled d [] []
  | plain {f : Field} {o : Outline} {rows : List (List Span)} {fields : List (Field × Outline)}
      (ho : Row d [] o) (rest : Filled d rows fields) : Filled d rows ((f, o) :: fields)
  | part {f : Field} {o : Outline} {parts : List Span} {rows : List (List Span)}
      {fields : List (Field × Outline)} (ho : Row d parts o) (rest : Filled d rows fields) :
      Filled d (parts :: rows) ((f, o) :: fields)

variable {rows : List (List Span)} {fields : List (Field × Outline)}

theorem Filled.laid (h : Filled d rows fields) : ∀ e ∈ fields, e.2.Laid d := by
  induction h with
  | nil => simp
  | plain ho rest ih => simpa using ⟨ho.laid, by simpa using ih⟩
  | part ho rest ih => simpa using ⟨ho.laid, by simpa using ih⟩

theorem Filled.within (h : Filled d rows fields) :
    ∀ a ∈ heldSpans fields, ∃ parts ∈ rows, ∃ p ∈ parts, a.Within p := by
  induction h with
  | nil => simp [heldSpans]
  | plain ho rest ih =>
    intro a ha
    rcases List.mem_append.mp ha with ha | ha
    · obtain ⟨p, hp, _⟩ := ho.within a ha
      simp at hp
    · exact ih a ha
  | part ho rest ih =>
    intro a ha
    rcases List.mem_append.mp ha with ha | ha
    · exact ⟨_, List.mem_cons_self, ho.within a ha⟩
    · obtain ⟨parts, hparts, hp⟩ := ih a ha
      exact ⟨parts, List.mem_cons_of_mem _ hparts, hp⟩

theorem Filled.apart (h : Filled d rows fields) (hd : d) (hc : rows.Pairwise Span.Clear) :
    (heldSpans fields).Pairwise Span.Apart := by
  induction h with
  | nil => simp [heldSpans]
  | plain ho rest ih =>
    refine List.pairwise_append.mpr ⟨ho.apart hd, ih hc, fun a ha => ?_⟩
    obtain ⟨p, hp, _⟩ := ho.within a ha
    simp at hp
  | part ho rest ih =>
    obtain ⟨hfirst, hc⟩ := List.pairwise_cons.mp hc
    refine List.pairwise_append.mpr ⟨ho.apart hd, ih hc, fun a ha b hb => ?_⟩
    obtain ⟨p, hp, hap⟩ := ho.within a ha
    obtain ⟨qs, hqs, q, hq, hbq⟩ := rest.within b hb
    exact (hfirst qs hqs p hp q hq).mono hap hbq

theorem Filled.row {kind : Kind} {span : Span} (h : Filled d rows fields)
    (forward : span.start ≤ span.stop) (inside : ∀ parts ∈ rows, ∀ p ∈ parts, p.Within span)
    (clear : d → rows.Pairwise Span.Clear) : Row d [span] (.node kind span fields) where
  laid := by
    refine .node forward h.laid (fun a ha => ?_) fun hd => h.apart hd (clear hd)
    obtain ⟨parts, hparts, p, hp, hap⟩ := h.within a ha
    exact hap.trans (inside parts hparts p hp)
  within a ha := by
    rw [spans_node, List.mem_singleton] at ha
    exact ⟨span, by simp, ha ▸ .refl span⟩
  apart _ := by simp

end Outline

end SolidityServer
