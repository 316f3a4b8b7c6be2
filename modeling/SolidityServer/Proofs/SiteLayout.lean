import Mathlib.Data.List.Pairwise
import SolidityServer.Proofs.OutlineLayout
import SolidityServer.Proofs.WellFormedTree

/-! What the children of a site give to it, and where that stands in the text. -/

namespace SolidityServer

/-- Which kinds of node add to the lists of their parent. -/
structure Reading.Gated (r : Reading) : Prop where
  arguments : r.arguments ≠ [] →
    (r.label.kind == "call_argument" || r.label.kind == "revert_arguments") = true
  parameter : r.parameter ≠ [] → ["parameter", "event_parameter", "error_parameter",
    "return_parameter"].contains r.label.kind = true
  inheritance : r.inheritance ≠ [] → (r.label.kind == "inheritance_specifier") = true
  modifierCall : r.modifierCall ≠ [] → (r.label.kind == "modifier_invocation") = true
  declarations : r.declarations ≠ [] → (r.label.kind == "variable_declaration"
    || r.label.kind == "variable_declaration_tuple") = true
  catchClause : r.catchClause ≠ [] → (r.label.kind == "catch_clause") = true

theorem Site.read_gated (s : Site) : s.read.Gated where
  arguments h := by
    simp only [Site.read, Site.arguments] at h ⊢
    split at h
    · rename_i hk; simp [← hk, Site.kind]
    · rename_i hk; simp [← hk, Site.kind]
    · exact absurd rfl h
  parameter h := by
    simp only [Site.read, Site.parameter] at h ⊢
    split at h
    · assumption
    · exact absurd rfl h
  inheritance h := by
    simp only [Site.read, Site.inheritance] at h ⊢
    split at h
    · assumption
    · exact absurd rfl h
  modifierCall h := by
    simp only [Site.read, Site.modifierCall] at h ⊢
    split at h
    · assumption
    · exact absurd rfl h
  declarations h := by
    simp only [Site.read, Site.declarations] at h ⊢
    split at h
    · rename_i hk; simp [← hk, Site.kind]
    · rename_i hk; simp [← hk, Site.kind]
    · exact absurd rfl h
  catchClause h := by
    simp only [Site.read, Site.catchClause] at h ⊢
    split at h
    · assumption
    · exact absurd rfl h

theorem flatMap_filter_of_gate {α β : Type} {l : List α} {f : α → List β} {p : α → Bool}
    (h : ∀ a ∈ l, f a ≠ [] → p a = true) : l.flatMap f = (l.filter p).flatMap f := by
  induction l with
  | nil => rfl
  | cons a l ih =>
    have hl := ih fun a ha => h a (List.mem_cons_of_mem _ ha)
    by_cases hp : p a = true
    · rw [List.filter_cons_of_pos hp, List.flatMap_cons, List.flatMap_cons, hl]
    · have hf : f a = [] := by
        by_contra hf
        exact hp (h a List.mem_cons_self hf)
      rw [List.filter_cons_of_neg hp, List.flatMap_cons, hf, hl, List.nil_append]

/-- All outlines of a reading are laid out inside its span. -/
structure Reading.Laid (d : Prop) (source : SourceText) (r : Reading) : Prop where
  span : r.span = Site.spanOf source r.label
  forward : r.span.start ≤ r.span.stop
  each : r.Each fun os => Outline.Row d [r.span] (.list os)
  gated : r.Gated

namespace Site

open Outline

/-- A site of a well-formed tree whose children are laid out. If `d` holds, then no child plays two
roles. -/
structure Ready (d : Prop) (s : Site) : Prop where
  mono : ∀ {a b : Nat}, a ≤ b → s.source.charOffset a ≤ s.source.charOffset b
  wellFormed : s.WellFormed
  single : d → s.SingleRoles
  children : ∀ c ∈ s.children, c.Laid d s.source

variable {d : Prop} {s : Site}

theorem toList_subset {o : Option Reading} (h : ∀ c, o = some c → c ∈ s.children) :
    o.toList ⊆ s.children := fun c hc => h c (by simpa using hc)

theorem named_sublist (s : Site) : s.named.Sublist s.children := List.filter_sublist

theorem filter_named_sublist (s : Site) (p : Reading → Bool) :
    (s.named.filter p).Sublist s.children := List.filter_sublist.trans s.named_sublist

theorem mem_argumentParts {c : Reading} (hc : c ∈ s.argumentParts) : c ∈ s.children :=
  (s.filter_named_sublist _).subset hc

theorem mem_parameterParts {c : Reading} (hc : c ∈ s.parameterParts) : c ∈ s.children :=
  (s.filter_named_sublist _).subset hc

theorem rolesOf_subset (s : Site) (kind : String) : ∀ cs ∈ s.rolesOf kind, cs ⊆ s.children := by
  have hfield : ∀ role, (s.field role).toList ⊆ s.children := fun role =>
    toList_subset fun _ => mem_children_of_field
  have hor : ∀ role kinds, ((s.field role).or (s.firstOf kinds)).toList ⊆ s.children :=
    fun role kinds => toList_subset fun _ =>
      mem_children_of_field_or fun _ => mem_children_of_firstOf
  have hhead : ∀ role, ((s.field role).or s.named.head?).toList ⊆ s.children := fun role =>
    toList_subset fun _ => mem_children_of_field_or fun _ => mem_children_of_head?
  have hfirst : ∀ kinds, (s.firstOf kinds).toList ⊆ s.children := fun kinds =>
    toList_subset fun _ => mem_children_of_firstOf
  have hfilter : ∀ p : Reading → Bool, s.named.filter p ⊆ s.children := fun p =>
    (s.filter_named_sublist p).subset
  unfold rolesOf
  split <;> simp [hfield, hor, hhead, hfirst, hfilter, ofKind, argumentParts, parameterParts]

namespace Ready

variable (h : s.Ready d)

include h

theorem forward : s.span.start ≤ s.span.stop := h.mono h.wellFormed.forward

theorem inside {c : Reading} (hc : c ∈ s.children) : c.span.Within s.span := by
  obtain ⟨hstart, hstop⟩ := h.wellFormed.inside c hc
  rw [(h.children c hc).span]
  exact ⟨h.mono hstart, h.mono hstop⟩

theorem before {a b : Reading} (ha : a ∈ s.children) (hb : b ∈ s.children)
    (hab : a.label.stop ≤ b.label.start) : a.span.stop ≤ b.span.start := by
  rw [(h.children a ha).span, (h.children b hb).span]
  exact h.mono hab

theorem ordered : s.children.Pairwise fun a b => a.span.stop ≤ b.span.start :=
  h.wellFormed.ordered.imp_of_mem fun ha hb => h.before ha hb

theorem apart_of_sublist {cs : List Reading} (hcs : cs.Sublist s.children) :
    cs.Pairwise fun a b => a.span.Apart b.span :=
  (h.ordered.sublist hcs).imp fun hab => .inl hab

theorem apart_of_label_ne {a b : Reading} (ha : a ∈ s.children) (hb : b ∈ s.children)
    (hab : a.label ≠ b.label) : a.span.Apart b.span := by
  have hsymm : Std.Symm fun a b : Reading => a.span.Apart b.span := ⟨fun _ _ => Span.Apart.symm⟩
  exact (h.apart_of_sublist (.refl _)).forall ha hb fun heq => hab (heq ▸ rfl)

theorem node {kind : Kind} {rows : List (List Span)} {fields : List (Field × Outline)}
    (filled : Filled d rows fields) (inside : ∀ parts ∈ rows, ∀ p ∈ parts, p.Within s.span)
    (clear : d → rows.Pairwise Span.Clear) : Row d [s.span] (s.node kind fields) :=
  filled.row h.forward inside clear

theorem leaf {kind : Kind} {fields : List (Field × Outline)} (filled : Filled d [] fields) :
    Row d [s.span] (s.node kind fields) :=
  h.node filled (by simp) (by simp)

/-- A node of the whole site, around nodes that may be as wide. -/
theorem nodeAround {kind : Kind} {fields : List (Field × Outline)}
    (filled : Filled d [[s.span]] fields) : Row d [s.span] (s.node kind fields) :=
  h.node filled (by simpa using Span.Within.refl s.span) (by simp)

/-- A node of the whole site, with nodes in one field. -/
theorem nodeOf {kind : Kind} {cs : List Reading} {fields : List (Field × Outline)}
    (hcs : ∀ c ∈ cs, c ∈ s.children) (filled : Filled d [cs.map Reading.span] fields) :
    Row d [s.span] (s.node kind fields) := by
  refine h.node filled ?_ (by simp)
  simp only [List.mem_singleton, forall_eq, List.forall_mem_map]
  exact fun c hc => h.inside (hcs c hc)

/-- A node of the whole site, with nodes in one field for each role. -/
theorem nodeOfRoles {kind : Kind} {word : String} {fields : List (Field × Outline)}
    (hk : s.kind = word)
    (filled : Filled d ((s.rolesOf word).map (·.map Reading.span)) fields) :
    Row d [s.span] (s.node kind fields) := by
  have hsub := s.rolesOf_subset word
  refine h.node filled ?_ fun hd => ?_
  · simp only [List.forall_mem_map]
    exact fun cs hcs c hc => h.inside (hsub cs hcs hc)
  · rw [List.pairwise_map]
    have hroles := (h.single hd).roles
    rw [hk] at hroles
    refine hroles.imp_of_mem fun {cs es} hcs hes hne => ?_
    simp only [Span.Clear, List.forall_mem_map]
    exact fun c hc e he => h.apart_of_label_ne (hsub cs hcs hc) (hsub es hes he) (hne c hc e he)

theorem row_of_children {cs : List Reading} {o : Outline} (hcs : ∀ c ∈ cs, c ∈ s.children)
    (ho : Row d (cs.map Reading.span) o) : Row d [s.span] o := by
  refine ho.mono ?_
  simp only [List.forall_mem_map, List.mem_singleton, exists_eq_left]
  exact fun c hc => h.inside (hcs c hc)

theorem row_of_child {c : Reading} {o : Outline} (hc : c ∈ s.children) (ho : Row d [c.span] o) :
    Row d [s.span] o :=
  ho.mono (by simpa using h.inside hc)

theorem optional {o : Option Reading} {f : Reading → Option Outline}
    (ho : ∀ c, o = some c → c ∈ s.children)
    (hf : ∀ c, c.Laid d s.source → Row d [c.span] (list (f c).toList)) :
    Row d (o.toList.map Reading.span) (orNull (o.bind f)) := by
  cases o with
  | none => exact row_null
  | some c => exact row_orNull (hf c (h.children c (ho c rfl)))

theorem expressionIn (role : String) :
    Row d ((s.field role).toList.map Reading.span) (s.expressionIn role) :=
  h.optional (fun _ => mem_children_of_field) fun _ hc => hc.each.expression

theorem statementIn (role : String) :
    Row d ((s.field role).toList.map Reading.span) (s.statementIn role) :=
  h.optional (fun _ => mem_children_of_field) fun _ hc => hc.each.statement

theorem blockIn (role : String) :
    Row d ((s.field role).toList.map Reading.span) (s.blockIn role) :=
  h.optional (fun _ => mem_children_of_field) fun _ hc => hc.each.block

theorem typeOutline {o : Option Reading} (ho : ∀ c, o = some c → c ∈ s.children) :
    Row d (o.toList.map Reading.span) (typeOutline o) := by
  have ht := h.optional (f := fun c => c.type.map TypeForm.toOutline) ho fun _ hc => hc.each.type
  rwa [Site.typeOutline, Option.map_bind]

theorem typeIn (role : String) :
    Row d ((s.field role).toList.map Reading.span) (Site.typeOutline (s.field role)) :=
  h.typeOutline fun _ => mem_children_of_field

theorem parts {cs : List Reading} {f : Reading → List Outline} (hcs : cs.Sublist s.children)
    (hf : ∀ c, c.Laid d s.source → Row d [c.span] (list (f c))) :
    Row d (cs.map Reading.span) (list (cs.flatMap f)) :=
  row_flatMap Reading.span (h.apart_of_sublist hcs) fun c hc => hf c (h.children c (hcs.subset hc))

/-- What the named children give that pass a gate. -/
theorem gatedParts {f : Reading → List Outline} {p : Reading → Bool}
    (hp : ∀ c, c.Laid d s.source → f c ≠ [] → p c = true)
    (hf : ∀ c, c.Laid d s.source → Row d [c.span] (list (f c))) :
    Row d ((s.named.filter p).map Reading.span) (list (s.named.flatMap f)) := by
  rw [flatMap_filter_of_gate fun c hc => hp c (h.children c (mem_children_of_mem_named hc))]
  exact h.parts (s.filter_named_sublist p) hf

theorem callArguments :
    Row d (s.argumentParts.map Reading.span) (list s.callArguments) :=
  h.gatedParts (fun _ hc => hc.gated.arguments) fun _ hc => hc.each.arguments

theorem parameters : Row d (s.parameterParts.map Reading.span) (list s.parameters) :=
  h.gatedParts (fun _ hc => hc.gated.parameter) fun _ hc => hc.each.parameter

theorem inNamed {f : Reading → List Outline}
    (hf : ∀ c, c.Laid d s.source → Row d [c.span] (list (f c))) :
    Row d [s.span] (list (s.named.flatMap f)) :=
  h.row_of_children (fun _ => mem_children_of_mem_named) (h.parts s.named_sublist hf)

end Ready

end Site

end SolidityServer
