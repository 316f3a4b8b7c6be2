import Mathlib.Data.List.Forall2
import SolidityServer.Proofs.Sites

/-! Recovery from syntax errors. An `ERROR` node stands in the place of the siblings it holds, at
any depth, so what is read of them is the same with it and without it. -/

namespace SolidityServer

/-- Whether this is an `ERROR` node around some siblings. -/
def Label.recovers (l : Label) : Bool := l.isError && l.named && !l.missing

namespace Concrete

variable {α : Type} {source : SourceText} {flat grouped : List Concrete} {l : Label}

/-- The named nodes among some siblings, comments left out. -/
def namedOf (cs : List Concrete) : List Concrete :=
  cs.filter fun c => c.label.named && !c.label.isComment

/-- Runs of siblings are wrapped into `ERROR` nodes, which may be wrapped again. An `ERROR` node may
hold tokens and comments beside the run. -/
inductive Regroups : List Concrete → List Concrete → Prop
  | nil : Regroups [] []
  | keep (c : Concrete) {flat grouped : List Concrete} (rest : Regroups flat grouped) :
      Regroups (c :: flat) (c :: grouped)
  | wrap {l : Label} {cs run flat grouped : List Concrete} (hl : l.recovers)
      (inner : Regroups run (namedOf cs)) (rest : Regroups flat grouped) :
      Regroups (run ++ flat) (.node l cs :: grouped)

theorem label_read (source : SourceText) (c : Concrete) : (c.read source).label = c.label := by
  cases c
  rfl

theorem named_eq_readAll (source : SourceText) (l : Label) (cs : List Concrete) :
    (Site.mk source l (readAll source cs)).named = readAll source (namedOf cs) := by
  induction cs with
  | nil => rfl
  | cons c cs ih =>
    simp only [Site.named] at ih
    by_cases hc : (c.label.named && !c.label.isComment) = true
    · simp only [Site.named, namedOf, readAll, List.filter_cons, label_read, hc, if_true] at ih ⊢
      rw [ih]
    · simp only [Site.named, namedOf, readAll, List.filter_cons, label_read, hc] at ih ⊢
      exact ih

/-- What is collected from siblings, and from an `ERROR` node what is collected inside it. -/
def SeesThrough (source : SourceText) (collect : Reading → List α) : Prop :=
  ∀ (l : Label) (cs : List Concrete), l.recovers →
    collect ((Concrete.node l cs).read source) = (readAll source (namedOf cs)).flatMap collect

theorem Regroups.collect_eq {collect : Reading → List α} (h : Regroups flat grouped)
    (hcollect : SeesThrough source collect) :
    (readAll source grouped).flatMap collect = (readAll source flat).flatMap collect := by
  induction h with
  | nil => rfl
  | keep c _ ih => rw [readAll, readAll, List.flatMap_cons, List.flatMap_cons, ih]
  | wrap hl _ _ ihinner ihrest =>
    rw [readAll, List.flatMap_cons, hcollect _ _ hl, ihinner, ihrest, readAll_append,
      List.flatMap_append]

theorem kind_of_recovers (h : l.recovers) : l.kind = "ERROR" := by
  simp only [Label.recovers, Label.isError, Bool.and_eq_true, beq_iff_eq] at h
  exact h.1.1

theorem contribution_of_recovers (h : l.recovers) (cs : List Concrete)
    (inside : Reading → List Outline) (own : Option Outline) :
    (Site.mk source l (readAll source cs)).contribution inside own =
      (readAll source (namedOf cs)).flatMap inside := by
  have hcomment : l.isComment = false := by rw [Label.isComment, kind_of_recovers h]; rfl
  have hmarks : (l.isError = true ∧ l.named = true) ∧ l.missing = false := by
    simpa [Label.recovers] using h
  rw [Site.contribution, named_eq_readAll]
  simp [hcomment, hmarks]

theorem units_seesThrough : SeesThrough source Reading.units :=
  fun _ cs hl => contribution_of_recovers hl cs _ _

theorem members_seesThrough : SeesThrough source Reading.members :=
  fun _ cs hl => contribution_of_recovers hl cs _ _

theorem statements_seesThrough : SeesThrough source Reading.statements :=
  fun _ cs hl => contribution_of_recovers hl cs _ _

theorem structMembers_seesThrough : SeesThrough source Reading.structMembers := by
  intro l cs hl
  change (Site.mk source l (readAll source cs)).structMembers = _
  rw [Site.structMembers, Site.kind, kind_of_recovers hl, named_eq_readAll]
  rfl

theorem enumValues_seesThrough : SeesThrough source Reading.enumValues := by
  intro l cs hl
  change (Site.mk source l (readAll source cs)).enumValues = _
  rw [Site.enumValues, Site.kind, kind_of_recovers hl, named_eq_readAll]
  rfl

mutual

/-- The nodes at or below this one that only `ERROR` nodes enclose, in document order. -/
def exposed : Concrete → List Concrete
  | .node l cs => if l.recovers then exposedIn cs else [.node l cs]

def exposedIn : List Concrete → List Concrete
  | [] => []
  | c :: cs => c.exposed ++ exposedIn cs

end

/-- The kinds of the nodes that are parts of a file, and the kinds of the parts they are. -/
def unitKinds : List (String × Kind) :=
  [("pragma_directive", .pragma), ("import_directive", .importStatement),
    ("contract_declaration", .contract), ("library_declaration", .library),
    ("interface_declaration", .interface), ("function_definition", .function),
    ("constructor_definition", .function), ("fallback_receive_definition", .function),
    ("modifier_definition", .modifier), ("state_variable_declaration", .stateVariable),
    ("constant_variable_declaration", .stateVariable), ("struct_declaration", .struct),
    ("enum_declaration", .enum), ("event_definition", .event), ("error_declaration", .error),
    ("user_defined_type_definition", .userType), ("using_directive", .using)]

/-- Whether the node declares a part of a file. One that is missing in the text does not. -/
def declares (c : Concrete) : Bool :=
  c.label.named && !c.label.missing && (unitKinds.map Prod.fst).contains c.label.kind

theorem unit_isSome_iff (s : Site) : s.unit.isSome ↔ s.kind ∈ unitKinds.map Prod.fst := by
  unfold Site.unit
  split
  case h_6 =>
    unfold Site.member
    split
    all_goals simp_all [unitKinds]
  all_goals simp_all [unitKinds]

/-- A part of a file has the kind that goes with its node, and spans it. -/
theorem unit_eq_node {s : Site} {o : Outline} (h : s.unit = some o) :
    ∃ kind fields, (s.kind, kind) ∈ unitKinds ∧ o = .node kind s.span fields := by
  unfold Site.unit at h
  split at h
  case h_6 =>
    unfold Site.member at h
    split at h
    case h_13 => cases h
    all_goals
      next hkind =>
        rw [hkind, ← Option.some.inj h]
        exact ⟨_, _, by decide, rfl⟩
  all_goals
    next hkind =>
      rw [hkind, ← Option.some.inj h]
      exact ⟨_, _, by decide, rfl⟩

theorem namedOf_append (cs ds : List Concrete) : namedOf (cs ++ ds) = namedOf cs ++ namedOf ds :=
  List.filter_append cs ds

namespace Regroups

protected theorem refl (cs : List Concrete) : Regroups cs cs := by
  induction cs with
  | nil => exact .nil
  | cons c cs ih => exact .keep c ih

theorem append {flat' grouped' : List Concrete} (h : Regroups flat grouped)
    (h' : Regroups flat' grouped') : Regroups (flat ++ flat') (grouped ++ grouped') := by
  induction h with
  | nil => exact h'
  | keep c _ ih => exact .keep c ih
  | wrap hl inner _ _ ih =>
    rw [List.append_assoc]
    exact .wrap hl inner ih

end Regroups

mutual

/-- Every tree groups the nodes that are exposed in it. -/
theorem regroups_exposed : ∀ c : Concrete, Regroups (namedOf c.exposed) (namedOf [c])
  | .node l cs => by
    by_cases hl : l.recovers
    · have hnamed : namedOf [.node l cs] = [.node l cs] := by
        have hl' : (l.isError = true ∧ l.named = true) ∧ l.missing = false := by
          simpa [Label.recovers] using hl
        simp [namedOf, label, Label.isComment, hl', kind_of_recovers hl]
      rw [exposed, if_pos hl, hnamed, ← List.append_nil (namedOf (exposedIn cs))]
      exact .wrap hl (regroups_exposedIn cs) .nil
    · rw [exposed, if_neg hl]
      exact .refl _

theorem regroups_exposedIn : ∀ cs : List Concrete, Regroups (namedOf (exposedIn cs)) (namedOf cs)
  | [] => .nil
  | c :: cs => by
    rw [exposedIn, namedOf_append, ← List.singleton_append, namedOf_append]
    exact (regroups_exposed c).append (regroups_exposedIn cs)

end

mutual

theorem not_recovers_of_mem_exposed : ∀ c : Concrete, ∀ d ∈ c.exposed, ¬d.label.recovers
  | .node l cs => by
    intro d hd
    by_cases hl : l.recovers
    · rw [exposed, if_pos hl] at hd
      exact not_recovers_of_mem_exposedIn cs d hd
    · rw [exposed, if_neg hl, List.mem_singleton] at hd
      rwa [hd]

theorem not_recovers_of_mem_exposedIn :
    ∀ cs : List Concrete, ∀ d ∈ exposedIn cs, ¬d.label.recovers
  | [] => by simp [exposedIn]
  | c :: cs => by
    intro d hd
    rcases List.mem_append.mp hd with hd | hd
    · exact not_recovers_of_mem_exposed c d hd
    · exact not_recovers_of_mem_exposedIn cs d hd

end

/-- An outline is what a node is as a part of a file: an outline node of the kind that goes with
it, over the characters it spans. -/
structure IsUnit (source : SourceText) (c : Concrete) (o : Outline) : Prop where
  unit : (c.site source).unit = some o
  shape : ∃ kind fields, (c.label.kind, kind) ∈ unitKinds ∧
    o = .node kind (Site.spanOf source c.label) fields

theorem units_eq (source : SourceText) (c : Concrete) : (c.read source).units =
    (c.site source).contribution Reading.units (c.site source).unit := by
  rw [read_eq_site_read]
  rfl

theorem plain_of_declares {c : Concrete} (h : c.declares) :
    c.label.named = true ∧ c.label.missing = false ∧ c.label.isComment = false ∧
      c.label.isError = false ∧ c.label.kind ∈ unitKinds.map Prod.fst := by
  obtain ⟨⟨hnamed, hmissing⟩, hkind⟩ : (c.label.named = true ∧ c.label.missing = false) ∧
      c.label.kind ∈ unitKinds.map Prod.fst := by
    simpa only [declares, Bool.and_eq_true, Bool.not_eq_true', List.contains_iff_mem] using h
  refine ⟨hnamed, hmissing, ?_, ?_, hkind⟩
  · simp only [Label.isComment, beq_eq_false_iff_ne]
    exact fun hcomment => absurd (hcomment ▸ hkind) (by decide)
  · simp only [Label.isError, beq_eq_false_iff_ne]
    exact fun herror => absurd (herror ▸ hkind) (by decide)

theorem units_of_declares (source : SourceText) {c : Concrete} (h : c.declares) :
    ∃ o, IsUnit source c o ∧ (c.read source).units = [o] := by
  obtain ⟨-, hmissing, hcomment, herror, hkind⟩ := plain_of_declares h
  obtain ⟨o, ho⟩ := Option.isSome_iff_exists.mp ((unit_isSome_iff (c.site source)).mpr hkind)
  refine ⟨o, ⟨ho, unit_eq_node ho⟩, ?_⟩
  rw [units_eq, ho]
  simp [Site.contribution, site, hcomment, herror, hmissing]

theorem units_of_not_declares (source : SourceText) {c : Concrete} (hnamed : c.label.named)
    (h : c.declares = false) (hrecovers : ¬c.label.recovers) : (c.read source).units = [] := by
  rw [units_eq, Site.contribution]
  split
  · rfl
  next hpresent =>
    have hmissing : c.label.missing = false := by
      simp only [site, Bool.or_eq_true, not_or, Bool.not_eq_true] at hpresent
      exact hpresent.2
    split
    next herror =>
      have herror' : c.label.isError = true := herror
      exact absurd (by simp [Label.recovers, hnamed, hmissing, herror']) hrecovers
    next =>
      have hkind : ¬(c.site source).unit.isSome := by
        rw [unit_isSome_iff]
        change c.label.kind ∉ unitKinds.map Prod.fst
        rw [← List.contains_iff_mem, Bool.not_eq_true]
        simpa only [declares, hnamed, hmissing, Bool.not_false, Bool.true_and] using h
      rw [Option.not_isSome_iff_eq_none.mp hkind]
      rfl

/-- Among siblings without `ERROR` nodes, the declarations give the parts of a file one by one. -/
theorem units_of_siblings (hnamed : ∀ c ∈ flat, c.label.named)
    (hplain : ∀ c ∈ flat, ¬c.label.recovers) :
    List.Forall₂ (IsUnit source) (flat.filter declares)
      ((readAll source flat).flatMap Reading.units) := by
  induction flat with
  | nil => exact .nil
  | cons c flat ih =>
    have htail := ih (fun d hd => hnamed d (List.mem_cons_of_mem c hd))
      fun d hd => hplain d (List.mem_cons_of_mem c hd)
    rw [readAll, List.flatMap_cons]
    cases hc : c.declares with
    | true =>
      obtain ⟨o, ho, hunits⟩ := units_of_declares source hc
      rw [List.filter_cons_of_pos hc, hunits]
      exact .cons ho htail
    | false =>
      have hunits := units_of_not_declares source (hnamed c List.mem_cons_self) hc
        (hplain c List.mem_cons_self)
      rw [List.filter_cons_of_neg (by simp [hc]), hunits]
      exact htail

theorem body_of_exposed (source : SourceText) (root : Concrete) :
    List.Forall₂ (IsUnit source) ((exposedIn root.children).filter declares)
      (root.body source) := by
  have hbody : root.body source =
      (readAll source (namedOf (exposedIn root.children))).flatMap Reading.units := by
    rw [body, named_eq_readAll]
    exact (regroups_exposedIn root.children).collect_eq units_seesThrough
  have hfilter : (namedOf (exposedIn root.children)).filter declares =
      (exposedIn root.children).filter declares := by
    rw [namedOf, List.filter_filter]
    refine List.filter_congr fun c _ => ?_
    cases hc : c.declares with
    | false => rfl
    | true =>
      obtain ⟨hnamed, -, hcomment, -⟩ := plain_of_declares hc
      simp [hnamed, hcomment]
  rw [hbody, ← hfilter]
  refine units_of_siblings (fun c hc => ?_) fun c hc => ?_
  · have hmem := (List.mem_filter.mp hc).2
    simp only [Bool.and_eq_true] at hmem
    exact hmem.1
  · exact not_recovers_of_mem_exposedIn _ c (List.mem_filter.mp hc).1

/-- Error recovery loses no sibling. Wrapping siblings into `ERROR` nodes changes nothing of what is
read of them as parts of a file, members, statements, struct members or enum values. So the body of
a program holds the declarations that only `ERROR` nodes enclose, all of them and in document
order. -/
theorem recovery_loses_no_sibling (source : SourceText) :
    (∀ flat grouped : List Concrete, Regroups flat grouped →
      (readAll source grouped).flatMap Reading.units =
        (readAll source flat).flatMap Reading.units ∧
      (readAll source grouped).flatMap Reading.members =
        (readAll source flat).flatMap Reading.members ∧
      (readAll source grouped).flatMap Reading.statements =
        (readAll source flat).flatMap Reading.statements ∧
      (readAll source grouped).flatMap Reading.structMembers =
        (readAll source flat).flatMap Reading.structMembers ∧
      (readAll source grouped).flatMap Reading.enumValues =
        (readAll source flat).flatMap Reading.enumValues) ∧
    ∀ root : Concrete, ∃ body, root.program source = programNode source body ∧
      List.Forall₂ (IsUnit source) ((exposedIn root.children).filter declares) body := by
  refine ⟨fun flat grouped h => ⟨?_, ?_, ?_, ?_, ?_⟩, fun root => ?_⟩
  · exact h.collect_eq units_seesThrough
  · exact h.collect_eq members_seesThrough
  · exact h.collect_eq statements_seesThrough
  · exact h.collect_eq structMembers_seesThrough
  · exact h.collect_eq enumValues_seesThrough
  · exact ⟨root.body source, rfl, body_of_exposed source root⟩

/-- An empty contract with a name of one letter. -/
def contractTree (start : Nat) : Concrete :=
  branch "contract_declaration" start (start + 14)
    [token "contract" start (start + 8),
      (branch "identifier" (start + 9) (start + 10) []).inField "name",
      (branch "contract_body" (start + 11) (start + 14)
        [token "\x7b" (start + 11) (start + 12), token "\x7d" (start + 13) (start + 14)]).inField
        "body"]

/-- Two contracts, the first in one error within another. -/
def brokenTree : Concrete :=
  branch "source_file" 0 31
    [branch "ERROR" 0 16 [branch "ERROR" 0 14 [contractTree 0], token ")" 15 16], contractTree 17]

theorem recovery_of_brokenTree :
    let source := SourceText.ofText "contract A \x7b \x7d ) contract B \x7b \x7d"
    Regroups [contractTree 0, contractTree 17] (namedOf brokenTree.children) ∧
      (readAll source (namedOf brokenTree.children)).flatMap Reading.units =
        (readAll source [contractTree 0, contractTree 17]).flatMap Reading.units ∧
      ∃ first second,
        brokenTree.program source = programNode source
          [.node .contract ⟨0, 14⟩ first, .node .contract ⟨17, 31⟩ second] ∧
        IsUnit source (contractTree 0) (.node .contract ⟨0, 14⟩ first) ∧
        IsUnit source (contractTree 17) (.node .contract ⟨17, 31⟩ second) := by
  intro source
  have hinner : Regroups ([contractTree 0] ++ []) [branch "ERROR" 0 14 [contractTree 0]] :=
    .wrap rfl (.refl _) .nil
  have hregroups : Regroups ([contractTree 0] ++ [contractTree 17]) (namedOf brokenTree.children) :=
    .wrap rfl hinner (.refl _)
  obtain ⟨hlists, hbody⟩ := recovery_loses_no_sibling source
  refine ⟨hregroups, (hlists _ _ hregroups).1, ?_⟩
  obtain ⟨body, hprogram, hunits⟩ := hbody brokenTree
  have hexposed : (exposedIn brokenTree.children).filter declares =
      [contractTree 0, contractTree 17] := rfl
  have hkind : ∀ kind, ("contract_declaration", kind) ∈ unitKinds → kind = .contract := by
    simp [unitKinds]
  have hspans : Site.spanOf source (contractTree 0).label = ⟨0, 14⟩ ∧
      Site.spanOf source (contractTree 17).label = ⟨17, 31⟩ := by decide +kernel
  rw [hexposed] at hunits
  cases hunits with
  | cons hfirst hrest =>
    cases hrest with
    | cons hsecond hnil =>
      cases hnil
      obtain ⟨kind, first, hmem, rfl⟩ := hfirst.shape
      obtain ⟨kind', second, hmem', rfl⟩ := hsecond.shape
      obtain rfl := hkind kind hmem
      obtain rfl := hkind kind' hmem'
      rw [hspans.1, hspans.2] at hprogram
      rw [hspans.1] at hfirst
      rw [hspans.2] at hsecond
      exact ⟨first, second, hprogram, hfirst, hsecond⟩

end Concrete

end SolidityServer
