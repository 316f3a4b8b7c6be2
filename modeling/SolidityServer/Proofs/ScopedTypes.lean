import SolidityServer.Proofs.Resolution

/-! Scoped type names. The owner of a member is found by its name, and its body is then looked for
again by the offset at which the owner starts. Both ends of a statement count, so a statement before
the owner that ends where the owner starts is taken for it. -/

namespace SolidityServer.Query

variable {w : World} {c d : Context} {m : ModuleId} {name : Option String} {kind : Kind}
  {x : DirectImport} {n : Node}

/-- A declaration that was looked up: a statement of its module with the kind, in a file that can be
opened. -/
structure Located (w : World) (d : Context) (kind : Kind) (x : DirectImport) (n : Node) : Prop where
  mem : n ∈ x.statements
  isKind : n.kind.isA kind
  source : ∃ b, (d.viewOf w x.owner).source = .ok b

theorem Located.of_scene {e : Context} (h : Located w d kind x n) (hs : e.scene w = d.scene w) :
    Located w e kind x n where
  mem := h.mem
  isKind := h.isKind
  source := by
    rw [Context.viewOf_congr hs]
    exact h.source

theorem declaration_located {statements : List Node}
    (hn : findStatement statements name kind = some n)
    (h : (declaration m statements n).run w c = (.ok x, d)) :
    x.node = some n ∧ Located w d kind x n := by
  have hyields := declaration_yields (w := w) (c := c) m statements n
  have hresult := hyields.result
  have hscene := hyields.scene
  rw [h] at hresult hscene
  have hkind := List.find?_some hn
  simp only [Bool.and_eq_true] at hkind
  cases hb : (c.viewOf w m).source with
  | error e =>
    rw [hb] at hresult
    cases hresult
  | ok b =>
    rw [hb] at hresult
    cases hresult
    exact ⟨rfl, (mem_of_findStatement hn).1, hkind.1, b, (Context.viewOf_congr hscene m ▸ hb)⟩

theorem searchImports_located {importer : String} {visited specifiers : List String}
    (h : (searchImports importer name kind visited specifiers).run w c = (.ok (some x), d)) :
    ∃ n, x.node = some n ∧ Located w d kind x n := by
  induction specifiers generalizing visited c with
  | nil => cases h
  | cons specifier specifiers ih =>
    rw [searchImports] at h
    obtain ⟨loaded, c₁, -, h⟩ := run_bind_eq_ok h
    cases loaded with
    | none => exact ih h
    | some k =>
      obtain ⟨self, c₂, -, h⟩ := run_bind_eq_ok h
      dsimp only at h
      split at h
      · exact ih h
      · obtain ⟨found, c₃, -, h⟩ := run_bind_eq_ok h
        cases found with
        | none => exact ih h
        | some found =>
          dsimp only at h
          cases hn : findStatement found name kind with
          | none =>
            rw [hn] at h
            exact ih h
          | some n =>
            rw [hn] at h
            obtain ⟨y, c₄, hdeclared, h⟩ := run_bind_eq_ok h
            cases h
            exact ⟨n, declaration_located hn hdeclared⟩

/-- Whatever a lookup finds is located. -/
theorem directImport_located (h : (directImport m name kind).run w c = (.ok x, d))
    (hn : x.node = some n) : Located w d kind x n := by
  have hunique : ∀ {n' : Node}, x.node = some n' ∧ Located w d kind x n' → Located w d kind x n :=
    fun h => Option.some.inj (hn.symm.trans h.1) ▸ h.2
  rw [directImport] at h
  obtain ⟨own, c₁, -, h⟩ := run_bind_eq_ok h
  dsimp only at h
  cases hown : findStatement (own.getD []) name kind with
  | some n' =>
    rw [hown] at h
    exact hunique (declaration_located hown h)
  | none =>
    rw [hown] at h
    obtain ⟨self, c₂, -, h⟩ := run_bind_eq_ok h
    obtain ⟨c', c₃, -, h⟩ := run_bind_eq_ok h
    split at h
    · obtain ⟨-, c₄, -, h⟩ := run_bind_eq_ok h
      cases h
      cases hn
    · obtain ⟨found, c₄, hduring, h⟩ := run_bind_eq_ok h
      cases h
      cases found with
      | none => cases hn
      | some y =>
        rw [run_during] at hduring
        obtain ⟨hresult, rfl⟩ := Prod.mk.inj hduring
        obtain ⟨specifiers, c₅, -, hsearch⟩ := run_bind_eq_ok (run_of_fst hresult)
        obtain ⟨n', hn', hlocated⟩ := searchImports_located hsearch
        exact hunique ⟨hn', hlocated.of_scene rfl⟩

/-- The contract, or else the library, that owns the members of a scoped type name. -/
def typeOwner (m : ModuleId) (name : Option String) : Query DirectImport := do
  let asContract ← directImport m name .contract
  if asContract.node.isSome then pure asContract else directImport m name .library

theorem typeOwner_located (h : (typeOwner m name).run w c = (.ok x, d)) (hn : x.node = some n) :
    n ∈ x.statements ∧ n.kind ∈ containerKinds ∧ ∃ b, (d.viewOf w x.owner).source = .ok b := by
  have hkind : ∀ kind ∈ memberScopes, Located w d kind x n → n.kind ∈ containerKinds := by
    intro kind hscope hlocated
    have hexact : n.kind = kind := by
      rcases List.mem_cons.mp hscope with rfl | hscope
      · simpa [Kind.isA] using hlocated.isKind
      · rcases List.mem_singleton.mp hscope with rfl
        simpa [Kind.isA] using hlocated.isKind
    rw [hexact]
    exact memberScopes_subset hscope
  obtain ⟨kind, hscope, hlocated⟩ : ∃ kind ∈ memberScopes, Located w d kind x n := by
    obtain ⟨asContract, c', hcontract, h⟩ := run_bind_eq_ok h
    split at h
    · cases h
      exact ⟨.contract, by decide, directImport_located hcontract hn⟩
    · exact ⟨.library, by decide, directImport_located h hn⟩
  exact ⟨hlocated.mem, hkind kind hscope hlocated, hlocated.source⟩

/-- The first struct with a name in a scope, or else the first enum. -/
def typeIn (scope : List Node) (member : String) : Option Node :=
  (findStatement scope (some member) .struct).or (findStatement scope (some member) .enum)

variable {statements before after : List Node} {modules : List ModuleId} {member : String}
  {more : List String} {start : Int} {fileLevel : Bool} {s t : Node} {b : Buffer}

/-- Only the first statement that contains the offset is a scope. -/
theorem findType_typeScopes (h : nodeAt? statements start = some s) :
    findType (typeScopes statements start false) (some member) =
      if s.kind ∈ containerKinds then typeIn (body s) member else none := by
  have hscope : typeScopes statements start false =
      if s.kind ∈ containerKinds then [body s] else [] := by
    simp [typeScopes, h]
  rw [hscope]
  split
  · simp only [findType, typeIn, typeKinds, List.findSome?_cons, List.findSome?_nil]
    cases findStatement (body s) (some member) .struct with
    | some t => rfl
    | none =>
      cases findStatement (body s) (some member) .enum with
      | some t => rfl
      | none => rfl
  · rfl

theorem run_resolveType_scoped (h : (typeOwner m name).run w c = (.ok x, d)) :
    (resolveType m statements ⟨name, member :: more, start⟩ modules fileLevel).run w c =
      (ownedType modules member x).run w d := by
  have hsteps : resolveType m statements ⟨name, member :: more, start⟩ modules fileLevel =
      typeOwner m name >>= ownedType modules member := by
    rw [typeOwner, bind_assoc]
    refine congrArg (directImport m name .contract >>= ·) (funext fun asContract => ?_)
    split <;> rfl
  rw [hsteps, run_bind_ok h]

/-- What becomes of a scoped name, by the first statement that contains the start of its owner. -/
theorem run_ownedType (hn : x.node = some n) (hs : nodeAt? x.statements n.start = some s)
    (hb : (d.viewOf w x.owner).source = .ok b) :
    ((ownedType modules member x).run w d).1 =
      (if s.kind ∈ containerKinds then typeIn (body s) member else none).elim
        ((members modules (membersNamed typeKinds (some member))).run w d).1
        fun t => .ok [.ofNode b t] := by
  rw [ownedType, hn]
  dsimp only
  rw [resolveSimpleType, findType_typeScopes hs]
  cases if s.kind ∈ containerKinds then typeIn (body s) member else none with
  | none => rfl
  | some t =>
    have hyields := (buffer_yields (w := w) (c := d) x.owner).map fun b => [Location.ofNode b t]
    rw [hb] at hyields
    exact hyields.result

theorem nodeAt?_of_before (h : nodeAt? before start = some s) (after : List Node) :
    nodeAt? (before ++ after) start = some s := by
  rw [nodeAt?, List.find?_append, show before.find? (·.contains start) = some s from h,
    Option.some_or]

theorem nodeAt?_of_clear (h : ∀ s ∈ before, ¬s.contains n.start) (hn : n.start ≤ n.stop)
    (after : List Node) : nodeAt? (before ++ n :: after) n.start = some n := by
  have hbefore : before.find? (·.contains n.start) = none := List.find?_eq_none.mpr h
  have hself : n.contains n.start = true := by simp [Node.contains, hn]
  rw [nodeAt?, List.find?_append, hbefore, Option.none_or, List.find?_cons, hself]

/-- A scoped type name leads to the first struct with the name of the member in the body of its
owner, or else to the first enum, if no statement before the owner contains the offset at which the
owner starts. Otherwise the first such statement is searched in place of the owner, and all modules
are if it has no such type. -/
theorem scopedType_answer (statements : List Node) (more : List String) (start : Int)
    (modules : List ModuleId) (fileLevel : Bool)
    (howner : (typeOwner m name).run w c = (.ok x, d)) (hn : x.node = some n)
    (ht : typeIn (body n) member = some t) :
    n ∈ x.statements ∧ ∃ b, ((buffer x.owner).run w d).1 = .ok b ∧
      ∀ before after, x.statements = before ++ n :: after →
        ((∀ s ∈ before, ¬s.contains n.start) → n.start ≤ n.stop →
          ((resolveType m statements ⟨name, member :: more, start⟩ modules fileLevel).run w c).1 =
            .ok [.ofNode b t]) ∧
        ∀ s, nodeAt? before n.start = some s →
          ((resolveType m statements ⟨name, member :: more, start⟩ modules fileLevel).run w c).1 =
            (if s.kind ∈ containerKinds then typeIn (body s) member else none).elim
              ((members modules (membersNamed typeKinds (some member))).run w d).1
              fun t => .ok [.ofNode b t] := by
  obtain ⟨hmem, hkind, b, hb⟩ := typeOwner_located howner hn
  refine ⟨hmem, b, (buffer_yields x.owner).result.trans hb, fun before after hplace => ?_⟩
  rw [run_resolveType_scoped howner]
  constructor
  · intro hclear hforward
    have hat : nodeAt? x.statements n.start = some n := hplace ▸ nodeAt?_of_clear hclear hforward _
    rw [run_ownedType hn hat hb, if_pos hkind, ht, Option.elim_some]
  · intro s hs
    have hat : nodeAt? x.statements n.start = some s := hplace ▸ nodeAt?_of_before hs _
    exact run_ownedType hn hat hb

/-- A member of an imported library, which has an enum and a struct of one name after a contract
with a struct of that name. -/
def scopedDocument : Buffer where
  uri := "file:///src/a.sol"
  path := some "/src/a.sol"
  text := "import './l.sol'; contract C \x7b L.T t; \x7d"
  encoding := .utf8

def scopedWorld : World :=
  .ofFiles "/" [("/src/l.sol", "contract A \x7b struct T \x7b uint x; \x7d \x7d\n"
    ++ "library L \x7b enum T \x7b X \x7d struct T \x7b uint y; \x7d \x7d")]

theorem scopedType_of_library :
    ∃ x d n t, (typeOwner 0 (some "L")).run scopedWorld (.start scopedDocument) = (.ok x, d) ∧
      x.node = some n ∧ typeIn (body n) "T" = some t ∧ t.kind = .struct ∧
      ∃ b, ((buffer x.owner).run scopedWorld d).1 = .ok b ∧
        ((resolveType 0 [] ⟨some "L", ["T"], 31⟩ [0, 1] true).run scopedWorld
          (.start scopedDocument)).1 = .ok [.ofNode b t] := by
  have hfound : (((typeOwner 0 (some "L")).run scopedWorld
      (.start scopedDocument)).1.toOption.bind fun x => x.node.bind fun n =>
        (typeIn (body n) "T").map fun t =>
          (x.statements.countP (·.contains n.start), n.contains n.start, t.kind)) =
      some (1, true, .struct) := by decide +kernel
  obtain ⟨x, hx, hfound⟩ := Option.bind_eq_some_iff.mp hfound
  obtain ⟨n, hn, hfound⟩ := Option.bind_eq_some_iff.mp hfound
  obtain ⟨t, ht, hfound⟩ := Option.map_eq_some_iff.mp hfound
  simp only [Prod.mk.injEq] at hfound
  obtain ⟨hcount, hself, hkind⟩ := hfound
  have howner : ((typeOwner 0 (some "L")).run scopedWorld (.start scopedDocument)).1 = .ok x := by
    cases hr : ((typeOwner 0 (some "L")).run scopedWorld (.start scopedDocument)).1 with
    | error e =>
      rw [hr] at hx
      cases hx
    | ok y =>
      rw [hr] at hx
      exact congrArg _ (Option.some.inj hx)
  obtain ⟨hmem, b, hb, hanswer⟩ :=
    scopedType_answer [] [] 31 [0, 1] true (run_of_fst howner) hn ht
  obtain ⟨before, after, hplace⟩ := List.append_of_mem hmem
  have hclear : ∀ s ∈ before, ¬s.contains n.start := by
    rw [hplace, List.countP_append, List.countP_cons, if_pos hself] at hcount
    exact List.countP_eq_zero.mp (by omega)
  have hforward : n.start ≤ n.stop := by simpa [Node.contains] using hself
  exact ⟨x, _, n, t, run_of_fst howner, hn, ht, hkind, b, hb,
    (hanswer before after hplace).1 hclear hforward⟩

/-- Two contracts without a blank between them. -/
def adjacentDocument : Buffer where
  uri := "file:///work/a.sol"
  path := some "/work/a.sol"
  text := "contract B \x7b struct T \x7b uint x; \x7d \x7d"
    ++ "contract A \x7b struct T \x7b uint y; \x7d \x7d\ncontract C \x7b A.T t; \x7d\n"
  encoding := .utf16

def adjacentWorld : World := .ofFiles "/work" []

/-- The first contract ends where the second one starts, and is searched in its place. -/
theorem scopedType_of_adjacent :
    let c := Context.start adjacentDocument
    (((typeOwner 0 (some "A")).run adjacentWorld c).1.toOption.bind fun x => x.node.bind fun n =>
        (typeIn (body n) "T").map fun t => Location.ofNode adjacentDocument t) =
      some (.ofSpan adjacentDocument 48 68) ∧
    ((resolveType 0 (statementsIn adjacentWorld c 0) ⟨some "A", ["T"], 84⟩ [0] true).run
        adjacentWorld c).1.toOption = some [.ofSpan adjacentDocument 13 33] ∧
    Location.ofSpan adjacentDocument 48 68 ≠ .ofSpan adjacentDocument 13 33 := by
  decide +kernel

end SolidityServer.Query
