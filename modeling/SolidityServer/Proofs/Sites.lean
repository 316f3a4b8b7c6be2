import SolidityServer.Syntax.Reading

/-! A reading is made site by site. What one site preserves, the reading of a whole tree has. -/

namespace SolidityServer

mutual

/-- The site of every node of a tree, parents before children. -/
def Concrete.sites (source : SourceText) : Concrete → List Site
  | .node label children =>
    { source, label, children := Concrete.readAll source children }
      :: Concrete.sitesOf source children

def Concrete.sitesOf (source : SourceText) : List Concrete → List Site
  | [] => []
  | c :: cs => c.sites source ++ Concrete.sitesOf source cs

end

/-- A token by its kind and place. -/
def Concrete.token (kind : String) (start stop : Nat) : Concrete :=
  .node { kind, named := false, start, stop } []

/-- A named node by its kind and place. -/
def Concrete.branch (kind : String) (start stop : Nat) (children : List Concrete) : Concrete :=
  .node { kind, named := true, start, stop } children

/-- The site of the root of a tree. -/
def Concrete.site (source : SourceText) (root : Concrete) : Site :=
  { source, label := root.label, children := Concrete.readAll source root.children }

theorem Concrete.read_eq_site_read (source : SourceText) (c : Concrete) :
    c.read source = (c.site source).read := by
  cases c
  rfl

theorem Concrete.readAll_eq_map (source : SourceText) (cs : List Concrete) :
    Concrete.readAll source cs = cs.map (Concrete.read source) := by
  induction cs with
  | nil => rfl
  | cons c cs ih => rw [Concrete.readAll, ih, List.map_cons]

theorem Concrete.readAll_append (source : SourceText) (cs ds : List Concrete) :
    Concrete.readAll source (cs ++ ds) =
      Concrete.readAll source cs ++ Concrete.readAll source ds := by
  simp only [Concrete.readAll_eq_map, List.map_append]

theorem Concrete.site_mem_sites (source : SourceText) (root : Concrete) :
    root.site source ∈ root.sites source := by
  cases root
  simp [Concrete.sites, Concrete.site, Concrete.label, Concrete.children]

mutual

theorem Concrete.source_of_mem_sites {source : SourceText} :
    ∀ root : Concrete, ∀ s ∈ root.sites source, s.source = source
  | .node label children => by
    intro s hs
    rcases List.mem_cons.mp hs with rfl | hs
    · rfl
    · exact Concrete.source_of_mem_sitesOf children s hs

theorem Concrete.source_of_mem_sitesOf {source : SourceText} :
    ∀ cs : List Concrete, ∀ s ∈ Concrete.sitesOf source cs, s.source = source
  | [] => by simp [Concrete.sitesOf]
  | c :: cs => by
    intro s hs
    rcases List.mem_append.mp hs with hs | hs
    · exact Concrete.source_of_mem_sites c s hs
    · exact Concrete.source_of_mem_sitesOf cs s hs

end

mutual

/-- What every site gives to its reading if its children have it, the reading of a tree has. -/
theorem Concrete.read_of_sites {P : Reading → Prop} {source : SourceText} : ∀ root : Concrete,
    (∀ s ∈ root.sites source, (∀ c ∈ s.children, P c) → P s.read) → P (root.read source)
  | .node label children, step => by
    rw [Concrete.read]
    refine step _ (by simp [Concrete.sites]) (Concrete.readAll_of_sites (P := P) children ?_)
    intro s hs
    exact step s (by simp [Concrete.sites, hs])

theorem Concrete.readAll_of_sites {P : Reading → Prop} {source : SourceText} :
    ∀ cs : List Concrete, (∀ s ∈ Concrete.sitesOf source cs, (∀ c ∈ s.children, P c) → P s.read) →
      ∀ r ∈ Concrete.readAll source cs, P r
  | [], _ => by simp [Concrete.readAll]
  | c :: cs, step => by
    intro r hr
    rw [Concrete.readAll, List.mem_cons] at hr
    rcases hr with rfl | hr
    · apply Concrete.read_of_sites c
      intro s hs
      exact step s (by simp [Concrete.sitesOf, hs])
    · apply Concrete.readAll_of_sites cs _ r hr
      intro s hs
      exact step s (by simp [Concrete.sitesOf, hs])

end

theorem Concrete.site_children_of_sites {P : Reading → Prop} (source : SourceText)
    (root : Concrete) (step : ∀ s ∈ root.sites source, (∀ c ∈ s.children, P c) → P s.read) :
    ∀ c ∈ (root.site source).children, P c := by
  obtain ⟨label, children⟩ := root
  refine Concrete.readAll_of_sites (P := P) children ?_
  intro s hs
  exact step s (by simp [Concrete.sites, hs])

/-- Every list of outlines that a reading holds has a property. -/
structure Reading.Each (P : List Outline → Prop) (r : Reading) : Prop where
  expression : P r.expression.toList
  type : P (r.type.map TypeForm.toOutline).toList
  statement : P r.statement.toList
  block : P r.block.toList
  headExpression : P r.headExpression.toList
  units : P r.units
  members : P r.members
  statements : P r.statements
  body : P r.body
  parameter : P r.parameter
  parameters : P r.parameters
  arguments : P r.arguments
  namedValue : P r.namedValue
  inheritance : P r.inheritance
  modifierCall : P r.modifierCall
  structMembers : P r.structMembers
  declared : P r.declared
  declarations : P r.declarations
  catchClause : P r.catchClause

theorem Reading.Each.imp {P Q : List Outline → Prop} {r : Reading} (h : r.Each P)
    (hPQ : ∀ os, P os → Q os) : r.Each Q where
  expression := hPQ _ h.expression
  type := hPQ _ h.type
  statement := hPQ _ h.statement
  block := hPQ _ h.block
  headExpression := hPQ _ h.headExpression
  units := hPQ _ h.units
  members := hPQ _ h.members
  statements := hPQ _ h.statements
  body := hPQ _ h.body
  parameter := hPQ _ h.parameter
  parameters := hPQ _ h.parameters
  arguments := hPQ _ h.arguments
  namedValue := hPQ _ h.namedValue
  inheritance := hPQ _ h.inheritance
  modifierCall := hPQ _ h.modifierCall
  structMembers := hPQ _ h.structMembers
  declared := hPQ _ h.declared
  declarations := hPQ _ h.declarations
  catchClause := hPQ _ h.catchClause

namespace Site

variable {s : Site}

theorem mem_children_of_mem_named {c : Reading} (h : c ∈ s.named) : c ∈ s.children :=
  (List.mem_filter.mp h).1

theorem mem_children_of_field {role : String} {c : Reading} (h : s.field role = some c) :
    c ∈ s.children := List.mem_of_find?_eq_some h

theorem mem_children_of_firstOf {kinds : List String} {c : Reading} (h : s.firstOf kinds = some c) :
    c ∈ s.children := List.mem_of_find?_eq_some h

theorem mem_children_of_ofKind {kind : String} {c : Reading} (h : c ∈ s.ofKind kind) :
    c ∈ s.children := mem_children_of_mem_named (List.mem_filter.mp h).1

theorem mem_children_of_head? {c : Reading} (h : s.named.head? = some c) : c ∈ s.children :=
  mem_children_of_mem_named (List.mem_of_head? h)

theorem mem_children_of_field_or {role : String} {other : Option Reading} {c : Reading}
    (hother : ∀ c, other = some c → c ∈ s.children) (h : (s.field role).or other = some c) :
    c ∈ s.children := by
  rcases Option.or_eq_some_iff.mp h with h | ⟨_, h⟩
  · exact mem_children_of_field h
  · exact hother c h

theorem wrapped?_mem_named {c : Reading} (h : s.wrapped? = some c) : c ∈ s.named := by
  unfold wrapped? at h
  split at h
  · split at h
    · rename_i d hd
      cases h
      simp [hd]
    · cases h
  · cases h

theorem mem_children_of_wrapped? {c : Reading} (h : s.wrapped? = some c) : c ∈ s.children :=
  mem_children_of_mem_named (wrapped?_mem_named h)

/-- The target of a using directive is the type of one of its children. -/
theorem usingTarget_cases (source : SourceText) (braces : Bool) (cs : List Reading)
    (p : UsingParts) :
    (cs.foldl (UsingParts.add source braces) p).target = p.target ∨
      ∃ c ∈ cs, (cs.foldl (UsingParts.add source braces) p).target = c.type := by
  induction cs generalizing p with
  | nil => exact .inl rfl
  | cons c cs ih =>
    have hadd : (p.add source braces c).target = p.target ∨
        (p.add source braces c).target = c.type := by
      unfold UsingParts.add
      dsimp only
      repeat' split
      all_goals simp
    rw [List.foldl_cons]
    rcases ih (p.add source braces c) with h | ⟨e, he, h⟩
    · rcases hadd with ha | ha
      · exact .inl (h.trans ha)
      · exact .inr ⟨c, List.mem_cons_self, h.trans ha⟩
    · exact .inr ⟨e, List.mem_cons_of_mem _ he, h⟩

end Site

end SolidityServer
