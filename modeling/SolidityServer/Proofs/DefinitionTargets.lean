import SolidityServer.Proofs.Navigation
import SolidityServer.Proofs.OpenedFiles

/-! The locations that a definition query gives. Each one is a declaration, in the module set, of
the name that stands under the cursor. -/

namespace SolidityServer.Query

variable {w : World} {b : Buffer} {offset : Int}

/-- The child that the cursor is in: the first one that contains it. The only child of a using
directive is its target, and that counts from its start on. -/
def childAt? (offset : Int) (n : Node) : Option Node :=
  if n.kind = .using then n.children.find? fun target => target.start ≤ offset
  else nodeAt? n.children offset

theorem mem_of_childAt? {n child : Node} (h : childAt? offset n = some child) :
    child ∈ n.children := by
  unfold childAt? at h
  split at h
  · exact List.mem_of_find?_eq_some h
  · exact mem_of_nodeAt? h

/-- The element that the cursor descends to, at or below a node. -/
def elementAt (offset : Int) (n : Node) : Node :=
  match _h : childAt? offset n with
  | some child => elementAt offset child
  | none => n
termination_by sizeOf n
decreasing_by exact Node.sizeOf_lt_of_mem_children (mem_of_childAt? _h)

theorem elementAt_eq (offset : Int) (n : Node) :
    elementAt offset n = ((childAt? offset n).map (elementAt offset)).getD n := by
  rw [elementAt]
  split
  next child hchild =>
    rw [hchild]
    rfl
  next hnone =>
    rw [hnone]
    rfl

theorem enter?_eq_childAt? (offset : Int) (n : Node) : enter? offset n = childAt? offset n := by
  by_cases hk : n.kind = .using
  · have hslots : n.kind.slots = [.target] := by
      rw [hk]
      rfl
    have hchildren : n.children = (n.get .target).nodes := by simp [Node.children, hslots]
    rw [enter?, if_pos (by simpa using hk), childAt?, if_pos hk, hchildren]
  · rw [enter?_eq hk, childAt?, if_neg hk]

/-- The segments of a type name after the first one. -/
def typeSegments (n : Node) : List String := (n.get .members).items.filterMap Value.text?

/-- The name that an element carries. -/
inductive Carries (n : Node) : Option String → Prop
  | identifier (h : n.kind = .identifier) : Carries n n.name?
  | modifier (h : n.kind = .modifierCall) : Carries n n.name?
  | library {name : String} (h : n.kind = .using) (hname : (n.get .library).text? = some name) :
      Carries n (some name)
  | simpleType {name : String} (h : n.kind = .type) (hname : (n.get .literal).text? = some name)
      (hsegments : typeSegments n = []) : Carries n (some name)
  | scopedType {member : String} {more : List String} (h : n.kind = .type)
      (hsegments : typeSegments n = member :: more) : Carries n (some member)

/-- The name under the cursor in a contract, library or interface: that of an entry of the
inheritance list, or what the element carries that the cursor descends to. -/
inductive NameUnder (offset : Int) (container : Node) : Option String → Prop
  | ancestor {base : Node} (h : nodeAt? (container.get .bases).nodes offset = some base) :
      NameUnder offset container base.name?
  | element {statement : Node} {name : Option String}
      (hbases : nodeAt? (container.get .bases).nodes offset = none)
      (h : nodeAt? (body container) offset = some statement)
      (hname : Carries (elementAt offset statement) name) : NameUnder offset container name

theorem identifierReference_target {parent : Option Node} {n : Node} {name : Option String}
    (h : (identifierReference parent n).target? = some name) : name = n.name? := by
  unfold identifierReference at h
  dsimp only at h
  split at h
  · split at h
    · exact (Option.some.inj h).symm
    · cases h
  · split at h
    · exact (Option.some.inj h).symm
    · split at h
      · exact (Option.some.inj h).symm
      · cases h
  · exact (Option.some.inj h).symm

theorem typeReference_carries {n : Node} {name : Option String} (hkind : n.kind = .type)
    (h : (typeReference n).target? = some name) : Carries n name := by
  unfold typeReference at h
  split at h
  · cases h
  · cases h
  next literal _ hliteral =>
    have htarget : TypeRef.target ⟨some literal, typeSegments n, n.start⟩ = name :=
      Option.some.inj h
    unfold TypeRef.target at htarget
    cases hsegments : typeSegments n with
    | nil =>
      simp only [hsegments] at htarget
      exact htarget ▸ .simpleType hkind hliteral hsegments
    | cons member more =>
      simp only [hsegments] at htarget
      exact htarget ▸ .scopedType hkind hsegments

theorem ownReference_carries {parent : Option Node} {n : Node} {name : Option String}
    (h : (ownReference parent n).target? = some name) : Carries n name := by
  unfold ownReference at h
  split at h
  next hkind => exact identifierReference_target h ▸ .identifier hkind
  next hkind => exact typeReference_carries hkind h
  next hkind =>
    unfold usingReference at h
    split at h
    · cases h
    next hname => exact Option.some.inj h ▸ .library hkind hname
  next hkind => exact Option.some.inj h ▸ .modifier hkind
  next => cases h

/-- The descent to a reference ends at the element it is read from. -/
theorem referenceAt_carries {parent : Option Node} {n : Node} {name : Option String}
    (h : (referenceAt offset parent n).target? = some name) :
    Carries (elementAt offset n) name := by
  fun_induction referenceAt offset parent n with
  | case1 parent n child hchild ih =>
    rw [enter?_eq_childAt?] at hchild
    rw [elementAt_eq, hchild]
    exact ih h
  | case2 parent n hnone =>
    rw [enter?_eq_childAt?] at hnone
    rw [elementAt_eq, hnone]
    exact ownReference_carries h

theorem nameUnder_of_target {container : Node} {name : Option String}
    (h : (containerReference offset container).target? = some name) :
    NameUnder offset container name := by
  unfold containerReference at h
  split at h
  next base hbase => exact Option.some.inj h ▸ .ancestor hbase
  next hbases =>
    split at h
    next statement hstatement => exact .element hbases hstatement (referenceAt_carries h)
    next => cases h

/-- In a contract, library or interface, every location that a definition query gives is that of a
declaration in the module set of the document, with the name under the cursor. -/
theorem definition_targets {container : Node} {locations : List Location} {c : Context}
    (hat : containerAt? w b offset = some container)
    (hrun : (definition b offset).run w {} = (.ok locations, c)) :
    ∃ modules d, (moduleSetOf b).run w {} = (.ok modules, d) ∧
      ∀ l ∈ locations, ∃ m ∈ modules, ∃ source found n,
        ((buffer m).run w d).1 = .ok source ∧ ((statements m).run w d).1 = .ok (some found) ∧
        Declares found n ∧ NameUnder offset container n.name? ∧ l = .ofNode source n := by
  rcases hset : (moduleSetOf b).run w {} with ⟨e | modules, d⟩
  · have hfails := (definition_of_failure hat hset).1
    rw [hrun] at hfails
    cases hfails
  · refine ⟨modules, d, rfl, fun l hl => ?_⟩
    have hends := definition_of_moduleSet hat hset
    rw [hrun] at hends
    obtain ⟨done, -, hlocations⟩ := hends
    obtain ⟨name, htarget, m, hm, found, source, n, hfound, hsource, hn, rfl, rfl⟩ :=
      hlocations l hl
    exact ⟨m, hm, source, found, n, (buffer_yields m).result.trans hsource,
      (statements_yields m).result.trans hfound, hn, nameUnder_of_target htarget, rfl⟩

theorem definition_of_base :
    ∃ container l c, containerAt? derivedWorld derivedDocument 69 = some container ∧
      (definition derivedDocument 69).run derivedWorld {} = (.ok [l], c) ∧
      ∃ modules d, (moduleSetOf derivedDocument).run derivedWorld {} = (.ok modules, d) ∧
        ∃ m ∈ modules, ∃ source found n,
          ((buffer m).run derivedWorld d).1 = .ok source ∧
          ((statements m).run derivedWorld d).1 = .ok (some found) ∧
          Declares found n ∧ NameUnder 69 container n.name? ∧ l = .ofNode source n := by
  obtain ⟨hcontainer, hlocations⟩ :
      (containerAt? derivedWorld derivedDocument 69).isSome ∧
      ((definition derivedDocument 69).run derivedWorld {}).1.toOption.map List.length =
        some 1 := by decide +kernel
  obtain ⟨container, hat⟩ := Option.isSome_iff_exists.mp hcontainer
  obtain ⟨l, hl⟩ : ∃ l, ((definition derivedDocument 69).run derivedWorld {}).1 = .ok [l] := by
    cases hresult : ((definition derivedDocument 69).run derivedWorld {}).1 with
    | error e =>
      rw [hresult] at hlocations
      cases hlocations
    | ok locations =>
      rw [hresult] at hlocations
      obtain ⟨l, rfl⟩ := List.length_eq_one_iff.mp (Option.some.inj hlocations)
      exact ⟨l, rfl⟩
  obtain ⟨modules, d, hset, htargets⟩ := definition_targets hat (run_of_fst hl)
  exact ⟨container, l, _, hat, run_of_fst hl, modules, d, hset,
    htargets l (List.mem_singleton_self l)⟩

end SolidityServer.Query
