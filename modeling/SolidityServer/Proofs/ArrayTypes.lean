import SolidityServer.Proofs.ErrorRecovery

/-! Array types. However deep they nest, their type name is the one of their innermost element type,
with one part for each level, the innermost first. -/

namespace SolidityServer

def typeNode (span : Span) (literal members : Outline) (arrayParts : List Outline)
    (storageLocation : Outline) : Outline :=
  .node .type span [(.literal, literal), (.members, members), (.arrayParts, .list arrayParts),
    (.storageLocation, storageLocation)]

namespace Concrete

variable {source : SourceText} {base inner c : Concrete} {size : Option Concrete}
  {sizes : List (Option Concrete)}

/-- What a node is as a type name. -/
def typeOf (source : SourceText) (c : Concrete) : Option Outline :=
  (c.read source).type.map TypeForm.toOutline

/-- What the size of an array is as an expression, null if there is none. -/
def arraySize (source : SourceText) (size : Option Concrete) : Outline :=
  .orNull (size.bind fun c => (c.read source).expression)

/-- The type name of arrays of an element type, with the size if it has one. -/
structure IsArray (c inner : Concrete) (size : Option Concrete) : Prop where
  kind : c.label.kind = "type_name"
  keyless : ∀ child ∈ c.children, child.label.field ≠ some "key_type"
  bracket : ∃ child ∈ c.children, child.label.kind = "["
  parts : ∃ rest, namedOf c.children = inner :: rest ∧ rest.head? = size

/-- Levels of arrays around a type name, with the sizes from the innermost to the outermost. -/
inductive NestsArrays (base : Concrete) : List (Option Concrete) → Concrete → Prop where
  | base : NestsArrays base [] base
  | level {sizes : List (Option Concrete)} {inner c : Concrete} {size : Option Concrete}
      (h : NestsArrays base sizes inner) (hc : IsArray c inner size) :
      NestsArrays base (sizes ++ [size]) c

theorem type_of_isArray (h : IsArray c inner size) :
    (c.read source).type = (inner.read source).type.map fun t =>
      { t with span := Site.spanOf source c.label
               arrayParts := t.arrayParts ++ [arraySize source size] } := by
  obtain ⟨rest, hparts, hsize⟩ := h.parts
  have hkind : (c.site source).kind = "type_name" := h.kind
  have hwrapped : (c.site source).wrapped? = none := by
    rw [Site.wrapped?, hkind]
    rfl
  -- a mapping is tried before an array
  have hkey : (c.site source).field "key_type" = none := by
    rw [Site.field, site, readAll_eq_map, List.find?_eq_none]
    intro r hr
    obtain ⟨child, hchild, rfl⟩ := List.mem_map.mp hr
    simpa [label_read] using h.keyless child hchild
  have hnamed : (c.site source).named = inner.read source :: readAll source rest := by
    rw [site, named_eq_readAll, hparts, readAll]
  have htoken : (c.site source).hasToken "[" = true := by
    obtain ⟨child, hchild, hbracket⟩ := h.bracket
    rw [Site.hasToken, site, readAll_eq_map, List.any_map, List.any_eq_true]
    exact ⟨child, hchild, by simp [label_read, hbracket]⟩
  have hlast : ((readAll source rest).head?.bind Reading.expression) =
      size.bind fun c => (c.read source).expression := by
    rw [readAll_eq_map, List.head?_map, hsize]
    cases size <;> rfl
  rw [read_eq_site_read]
  change (c.site source).type = _
  rw [Site.type, hwrapped, hkind]
  change (c.site source).typeNameForm = _
  rw [Site.typeNameForm, hkey, hnamed]
  simp only [htoken, if_true, Site.arrayForm, hlast]
  rfl

theorem NestsArrays.type_eq {t : TypeForm} (h : NestsArrays base sizes c)
    (ht : (base.read source).type = some t) :
    (c.read source).type = some
      { t with span := if sizes.isEmpty then t.span else Site.spanOf source c.label
               arrayParts := t.arrayParts ++ sizes.map (arraySize source) } := by
  -- from the inside out: a level adds its size behind those of the levels that it is around
  induction h with
  | base => simpa using ht
  | level _ hc ih =>
    rw [type_of_isArray hc, ih]
    simp

theorem typeOf_eq_some_iff {o : Outline} : typeOf source c = some o ↔
    ∃ t, (c.read source).type = some t ∧
      o = typeNode t.span t.literal (.texts t.members) t.arrayParts .null := by
  simp only [typeOf, Option.map_eq_some_iff, eq_comm (a := o)]
  rfl

/-- A type name is a node of the kind for types with a list of array parts, and arrays around it
change only its span and that list: the sizes follow, from the innermost to the outermost. -/
theorem array_types_flattened (source : SourceText) :
    (∀ c, typeOf source c = none ∨ ∃ span literal members arrayParts storageLocation,
      typeOf source c = some (typeNode span literal members arrayParts storageLocation)) ∧
    ∀ base span literal members arrayParts storageLocation sizes c,
      typeOf source base = some (typeNode span literal members arrayParts storageLocation) →
      NestsArrays base sizes c →
      typeOf source c = some (typeNode
        (if sizes.isEmpty then span else Site.spanOf source c.label) literal members
        (arrayParts ++ sizes.map (arraySize source)) storageLocation) := by
  constructor
  · intro c
    cases h : typeOf source c with
    | none => exact .inl rfl
    | some o =>
      obtain ⟨t, -, rfl⟩ := typeOf_eq_some_iff.mp h
      exact .inr ⟨_, _, _, _, _, rfl⟩
  · intro base span literal members arrayParts storageLocation sizes c hbase h
    obtain ⟨t, ht, hnode⟩ := typeOf_eq_some_iff.mp hbase
    obtain ⟨rfl, rfl, rfl, rfl, rfl⟩ : span = t.span ∧ literal = t.literal ∧
        members = .texts t.members ∧ arrayParts = t.arrayParts ∧ storageLocation = .null := by
      simpa [typeNode] using hnode
    exact typeOf_eq_some_iff.mpr ⟨_, h.type_eq ht, rfl⟩

/-- A mapping to arrays, and arrays of arrays of it. -/
def tableText : String := "mapping(uint => A.B[2])[n][]"

def tableMapping : Concrete :=
  let owner := branch "user_defined_type" 16 19
    [branch "identifier" 16 17 [], token "." 17 18, branch "identifier" 18 19 []]
  let value := branch "type_name" 16 22
    [branch "type_name" 16 19 [owner], token "[" 19 20,
      branch "number_literal" 20 21 [], token "]" 21 22]
  branch "type_name" 0 23
    [token "mapping" 0 7, token "(" 7 8,
      (branch "primitive_type" 8 12 []).inField "key_type", token "=>" 13 15,
      value.inField "value_type", token ")" 22 23]

def tableSize : Concrete := branch "expression" 24 25 [branch "identifier" 24 25 []]

def tableRow : Concrete :=
  branch "type_name" 0 26 [tableMapping, token "[" 23 24, tableSize, token "]" 25 26]

def tableTree : Concrete :=
  branch "type_name" 0 28 [tableRow, token "[" 26 27, token "]" 27 28]

/-- The literal of the mapping, whose value type is an array itself. -/
def tableLiteral : Outline :=
  let size : Outline := .node .literal ⟨20, 21⟩ [(.value, .chars ['2']), (.subdenomination, .null)]
  .node .mapping ⟨0, 23⟩
    [(.source, typeNode ⟨8, 12⟩ (.chars "uint".toList) (.texts []) [] .null),
      (.to, typeNode ⟨16, 22⟩ (.chars ['A']) (.texts [['B']]) [size] .null)]

theorem array_types_of_table :
    let source := SourceText.ofText tableText
    typeOf source tableMapping = some (typeNode ⟨0, 23⟩ tableLiteral (.texts []) [] .null) ∧
      NestsArrays tableMapping [some tableSize, none] tableTree ∧
      typeOf source tableTree = some (typeNode ⟨0, 28⟩ tableLiteral (.texts [])
        [identifierNode ⟨24, 25⟩ ['n'], .null] .null) := by
  intro source
  have hmapping : typeOf source tableMapping =
      some (typeNode ⟨0, 23⟩ tableLiteral (.texts []) [] .null) := rfl
  have hrow : IsArray tableRow tableMapping (some tableSize) :=
    ⟨rfl, by decide, by decide, _, rfl, rfl⟩
  have htree : IsArray tableTree tableRow none := ⟨rfl, by decide, by decide, _, rfl, rfl⟩
  have hnests : NestsArrays tableMapping [some tableSize, none] tableTree :=
    (NestsArrays.base.level hrow).level htree
  exact ⟨hmapping, hnests, (array_types_flattened source).2 _ _ _ _ _ _ _ _ hmapping hnests⟩

end Concrete

end SolidityServer
