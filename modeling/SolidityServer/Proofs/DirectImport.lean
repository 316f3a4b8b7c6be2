import SolidityServer.Proofs.ModuleSet

/-! Looking a declaration up among the direct imports. The walk loads one import at a time and stops
at the first declaration; it finds what a search through the module set finds. -/

namespace SolidityServer.Query

variable {w : World} {c c' d e : Context} {m : ModuleId} {name : Option String} {kind : Kind}

theorem declaration_yields (m : ModuleId) (statements : List Node) (n : Node) :
    Yields w c (declaration m statements n) ((c.viewOf w m).source.map fun b =>
      { owner := m, statements, node := some n, location := some (.ofNode b n) }) :=
  (buffer_yields m).map _

/-- The declaration in the first of some modules that has one. -/
def searchViews (view : ModuleId → Module.View) (name : Option String) (kind : Kind) :
    List ModuleId → Except Failure (Option DirectImport)
  | [] => .ok none
  | m :: modules =>
    (view m).statements.bind fun found =>
      match findStatement (found.getD []) name kind with
      | none => searchViews view name kind modules
      | some n => (view m).source.map fun b => some
          { owner := m, statements := found.getD [], node := some n,
            location := some (.ofNode b n) }

/-- The walk along the specifiers goes through the modules that they were found to mean. -/
theorem searchImports_run {importer : String} {specifiers : List String}
    {found : List (Option ModuleId)} (name : Option String) (kind : Kind) (visited : List String)
    (hv : c.Valid)
    (h : (loadAll importer specifiers).run w c = (.ok found, d)) :
    ∃ c', (searchImports importer name kind visited specifiers).run w c =
        (searchViews (d.viewOf w) name kind (distinct d visited (found.filterMap id)), c') ∧
      c.Grows w c' ∧ c'.Grows w d ∧ c'.active = c.active := by
  induction specifiers generalizing c d found visited with
  | nil =>
    cases h
    exact ⟨c, rfl, .of_scene rfl, .of_scene rfl, rfl⟩
  | cons specifier specifiers ih =>
    obtain ⟨first, c₁, rest, hfirst, hrest, rfl⟩ := loadAll_cons_ok h
    have hloads := loads_of_run hfirst
    have hv₁ := hloads.valid hv
    rw [searchImports, run_bind_ok hfirst]
    cases first with
    | none =>
      obtain ⟨c', hrun, hg, hg', ha⟩ := ih visited hv₁ hrest
      exact ⟨c', hrun, hloads.grows.trans hg, hg', ha.trans hloads.active⟩
    | some k =>
      have hgrows := loadAll_grows hrest
      have hview : d.viewOf w k = c₁.viewOf w k := hgrows.viewOf (hloads.lt_size hv)
      have hpath : (d.moduleOf k).path = (c₁.moduleOf k).path := congrArg Module.View.path hview
      simp only [run_bind_ok run_moduleOf, List.filterMap_cons, id, distinct, hpath]
      by_cases hvisited : visited.contains (c₁.moduleOf k).path
      · obtain ⟨c', hrun, hg, hg', ha⟩ := ih visited hv₁ hrest
        simp only [hvisited, if_true]
        exact ⟨c', hrun, hloads.grows.trans hg, hg', ha.trans hloads.active⟩
      · simp only [hvisited, Bool.false_eq_true, if_false, searchViews, hview]
        obtain ⟨c₂, hstatements, hs₂, ha₂⟩ := (statements_yields (w := w) (c := c₁) k).run_eq
        have hstart : c.Grows w c₂ := hloads.grows.trans (.of_scene hs₂)
        have hend : c₂.Grows w d := (Context.Grows.of_scene hs₂.symm).trans hgrows
        have hactive : c₂.active = c.active := ha₂.trans hloads.active
        -- the rest of the walk goes on from what reading the module has left
        have hrestRun : ∀ visited, ∃ c',
            (searchImports importer name kind visited specifiers).run w c₂ =
              (searchViews (d.viewOf w) name kind (distinct d visited (rest.filterMap id)), c') ∧
            c.Grows w c' ∧ c'.Grows w d ∧ c'.active = c.active := by
          intro visited
          obtain ⟨d₂, hload₂, hd₂⟩ := (loadAll_byScene _ _).run_eq hs₂ hrest
          obtain ⟨c', hrun, hg, hg', ha⟩ := ih visited (hv₁.of_scene hs₂) hload₂
          have hviews : d₂.viewOf w = d.viewOf w := funext fun m => Context.viewOf_congr hd₂ m
          rw [hviews, distinct_congr hd₂] at hrun
          exact ⟨c', hrun, hstart.trans hg, hg'.trans (.of_scene hd₂.symm), ha.trans hactive⟩
        cases hfound : (c₁.viewOf w k).statements with
        | error e =>
          rw [hfound] at hstatements
          exact ⟨c₂, run_bind_error hstatements, hstart, hend, hactive⟩
        | ok statements =>
          rw [hfound] at hstatements
          rw [run_bind_ok hstatements]
          cases statements with
          | none => exact hrestRun _
          | some statements =>
            simp only [Except.bind, Option.getD_some]
            cases findStatement statements name kind with
            | none => exact hrestRun _
            | some n =>
              obtain ⟨c₃, hdeclared, hs₃, ha₃⟩ :=
                ((declaration_yields (w := w) (c := c₂) k statements n).map some).run_eq
              rw [Context.viewOf_congr hs₂] at hdeclared
              refine ⟨c₃, ?_, hstart.trans (.of_scene hs₃),
                (Context.Grows.of_scene hs₃.symm).trans hend, ha₃.trans hactive⟩
              rw [hdeclared]
              cases (c₁.viewOf w k).source with
              | error e => rfl
              | ok b => rfl

theorem active_during {active : List Search} {s : Search} (h : s ∉ active) :
    (active ++ [s]).filter (· != s) = active := by
  have hself : ∀ t ∈ active, (t != s) = true := by
    intro t ht
    have hne : t ≠ s := fun heq => h (heq ▸ ht)
    simpa using hne
  simp [List.filter_append, List.filter_eq_self.mpr hself]

/-- The imports of `m` mean in `c` what they mean at the end of its module set, in `d`. -/
structure Ready (w : World) (m : ModuleId) (modules : List ModuleId) (c d : Context) : Prop where
  valid : c.Valid
  view : c.viewOf w m = d.viewOf w m
  loads : ∃ own found d', (d.viewOf w m).statements = .ok own ∧
    (loadAll (d.moduleOf m).path (importsOf (own.getD []))).run w c = (.ok found, d') ∧
    d'.scene w = d.scene w ∧
    modules = m :: distinct d [(d.moduleOf m).path] (found.filterMap id)

namespace Ready

variable {modules : List ModuleId}

theorem congr (h : Ready w m modules c d) (hs : e.scene w = c.scene w) : Ready w m modules e d where
  valid := h.valid.of_scene hs
  view := (Context.viewOf_congr hs m).trans h.view
  loads := by
    obtain ⟨own, found, d', hown, hload, hd, hmodules⟩ := h.loads
    obtain ⟨e', hload', he⟩ := (loadAll_byScene _ _).run_eq hs hload
    exact ⟨own, found, e', hown, hload', he.trans hd, hmodules⟩

theorem of_moduleSet (hv : c.Valid) (hm : m < c.modules.size)
    (h : (moduleSet m).run w c = (.ok modules, d)) : Ready w m modules c d := by
  obtain ⟨own, found, c', hown, hs, _, hload, hmodules⟩ := moduleSet_eq_ok h
  have hview : d.viewOf w m = c.viewOf w m := by
    have hm' : m < c'.modules.size := by rwa [← Context.size_eq w c', hs, Context.size_eq]
    rw [(loadAll_grows hload).viewOf hm', Context.viewOf_congr hs]
  have hpath : (d.moduleOf m).path = (c.moduleOf m).path := congrArg Module.View.path hview
  have hready : Ready w m modules c' d := by
    refine ⟨hv.of_scene hs, (Context.viewOf_congr hs m).trans hview.symm, ?_⟩
    rw [hview, hpath]
    exact ⟨own, found, d, hown, hload, rfl, hmodules⟩
  exact hready.congr hs.symm

theorem settled (h : Ready w m modules c d) :
    d.Valid ∧ ∃ own found, (d.viewOf w m).statements = .ok own ∧
      List.Forall₂ (Settled w d (d.moduleOf m).path) (importsOf (own.getD [])) found ∧
      modules = m :: distinct d [(d.moduleOf m).path] (found.filterMap id) := by
  obtain ⟨own, found, d', hown, hload, hd, hmodules⟩ := h.loads
  have hvalid : d'.Valid := loadAll_keeps Loads.valid hload h.valid
  have hsettled := (loadAll_settled hload).imp fun _ _ hr => hr.grows (.of_scene hd.symm)
  exact ⟨hvalid.of_scene hd.symm, own, found, hown, hsettled, hmodules⟩

/-- Once the module set is built it stays as it is. -/
theorem settle (h : Ready w m modules c d) : Ready w m modules d d := by
  obtain ⟨hvalid, own, found, hown, hsettled, hmodules⟩ := h.settled
  obtain ⟨e, hload, he⟩ := loadAll_of_settled hsettled
  exact ⟨hvalid, rfl, own, found, e, hown, hload, he, hmodules⟩

end Ready

/-- The guarded walk along the imports, the module itself left out. -/
theorem importWalk_run {modules : List ModuleId} {s : Search} (h : Ready w m modules c d)
    (name : Option String) (kind : Kind) (hactive : s ∉ c.active) :
    ∃ c', (during s (do
        searchImports (d.moduleOf m).path name kind [(d.moduleOf m).path] (← imports m))).run w c =
        (searchViews (d.viewOf w) name kind modules.tail, c') ∧
      c.Grows w c' ∧ c'.Grows w d ∧ c'.active = c.active := by
  obtain ⟨own, found, d', hown, hload, hd, rfl⟩ := h.loads
  have hs : Context.scene w { c with active := c.active ++ [s] } = c.scene w := rfl
  obtain ⟨c₁, himports, hs₁, ha₁⟩ :=
    (imports_yields (w := w) (c := { c with active := c.active ++ [s] }) m).run_eq
  rw [Context.viewOf_congr hs, h.view, hown] at himports
  obtain ⟨d₁, hload₁, hd₁⟩ := (loadAll_byScene _ _).run_eq (hs₁.trans hs) hload
  obtain ⟨c₂, hrun, hgrows, hgrows', ha₂⟩ := searchImports_run name kind
    [(d.moduleOf m).path] (h.valid.of_scene (hs₁.trans hs)) hload₁
  have hviews : d₁.viewOf w = d.viewOf w := funext fun k => Context.viewOf_congr (hd₁.trans hd) k
  rw [hviews, distinct_congr (hd₁.trans hd)] at hrun
  have hinner := (run_bind_ok himports).trans hrun
  refine ⟨{ c₂ with active := c₂.active.filter (· != s) }, ?_, ?_, ?_, ?_⟩
  · rw [run_during, hinner]
    rfl
  · exact (Context.Grows.of_scene (hs₁.trans hs)).trans (hgrows.trans (.of_scene rfl))
  · refine Context.Grows.trans (d := c₂) (.of_scene rfl) ?_
    exact hgrows'.trans (.of_scene (hd₁.trans hd).symm)
  · rw [ha₂, ha₁]
    exact active_during hactive

/-- Unless the same search is going on already, looking a name up is a search through the module
set. -/
theorem directImport_run {modules : List ModuleId} (h : Ready w m modules c d)
    (hactive : ({ path := (d.moduleOf m).path, name, kind := kind.name } : Search) ∉ c.active) :
    ∃ own c', (d.viewOf w m).statements = .ok own ∧
      (directImport m name kind).run w c =
        ((searchViews (d.viewOf w) name kind modules).map
          (·.getD { owner := m, statements := own.getD [] }), c') ∧
      c.Grows w c' ∧ c'.Grows w d ∧ c'.active = c.active := by
  obtain ⟨own, found, d', hown, hload, hd, hmodules⟩ := h.loads
  obtain ⟨c₁, hstatements, hs₁, ha₁⟩ := (statements_yields (w := w) (c := c) m).run_eq
  have hstart : c.Grows w c₁ := .of_scene hs₁
  have hready : Ready w m modules c₁ d := h.congr hs₁
  have hend : c₁.Grows w d := by
    obtain ⟨_, _, _, _, hload₁, hd₁, _⟩ := hready.loads
    exact (loadAll_grows hload₁).trans (.of_scene hd₁.symm)
  rw [h.view, hown] at hstatements
  rw [directImport, run_bind_ok hstatements]
  cases hfound : findStatement (own.getD []) name kind with
  | some n =>
    obtain ⟨c₂, hdeclared, hs₂, ha₂⟩ :=
      (declaration_yields (w := w) (c := c₁) m (own.getD []) n).run_eq
    rw [hready.view] at hdeclared
    refine ⟨own, c₂, hown, ?_, hstart.trans (.of_scene hs₂),
      (Context.Grows.of_scene hs₂.symm).trans hend, ha₂.trans ha₁⟩
    simp only [hdeclared, hmodules, searchViews, hown, hfound, Except.bind]
    cases (d.viewOf w m).source with
    | error e => rfl
    | ok b => rfl
  | none =>
    have hpath : (c₁.moduleOf m).path = (d.moduleOf m).path :=
      congrArg Module.View.path hready.view
    rw [← ha₁] at hactive
    obtain ⟨c₂, hwalk, hgrows, hgrows', ha₂⟩ :=
      importWalk_run hready name kind hactive
    refine ⟨own, c₂, hown, ?_, hstart.trans hgrows, hgrows', ha₂.trans ha₁⟩
    simp only [hfound, run_bind_ok run_moduleOf, run_bind_ok run_get, hpath]
    rw [if_neg (by simpa using hactive), run_bind, hwalk]
    simp only [hmodules, List.tail_cons, searchViews, hown, hfound, Except.bind]
    cases searchViews (d.viewOf w) name kind
      (distinct d [(d.moduleOf m).path] (found.filterMap id)) with
    | error e => rfl
    | ok r => rfl

/-- The top-level statements of a module, none if it has no usable tree. -/
def statementsIn (w : World) (c : Context) (m : ModuleId) : List Node :=
  match ((statements m).run w c).1 with
  | .ok (some found) => found
  | _ => []

theorem statementsIn_eq {found : Option (List Node)} (h : (c.viewOf w m).statements = .ok found) :
    statementsIn w c m = found.getD [] := by
  rw [statementsIn, (statements_yields m).result, h]
  cases found with
  | none => rfl
  | some found => rfl

/-- Where all modules can be opened, the search ends at the first one that declares the name. -/
theorem searchViews_of_open (name : Option String) (kind : Kind) {modules : List ModuleId}
    (hopen : ∀ k ∈ modules, ∃ b, (c.viewOf w k).source = .ok b) :
    (∃ before k after n b, modules = before ++ k :: after ∧
      (∀ j ∈ before, findStatement (statementsIn w c j) name kind = none) ∧
      findStatement (statementsIn w c k) name kind = some n ∧ (c.viewOf w k).source = .ok b ∧
      searchViews (c.viewOf w) name kind modules = .ok (some
        { owner := k, statements := statementsIn w c k, node := some n,
          location := some (.ofNode b n) })) ∨
    (∀ k ∈ modules, findStatement (statementsIn w c k) name kind = none) ∧
      searchViews (c.viewOf w) name kind modules = .ok none := by
  induction modules with
  | nil => exact .inr ⟨by simp, rfl⟩
  | cons k modules ih =>
    obtain ⟨b, hb⟩ := hopen k (by simp)
    obtain ⟨found, hfound⟩ := Module.View.statements_ok_of_source hb
    have hstatements : statementsIn w c k = found.getD [] := statementsIn_eq hfound
    have hfound' : (c.viewOf w k).statements = .ok found := hfound
    have hb' : (c.viewOf w k).source = .ok b := hb
    cases hn : findStatement (found.getD []) name kind with
    | some n =>
      refine .inl ⟨[], k, modules, n, b, rfl, by simp, by rw [hstatements, hn], hb', ?_⟩
      simp only [searchViews, hfound', Except.bind, hn, hb', Except.map, hstatements]
    | none =>
      have hskip : searchViews (c.viewOf w) name kind (k :: modules) =
          searchViews (c.viewOf w) name kind modules := by
        simp only [searchViews, hfound', Except.bind, hn]
      have hnone : findStatement (statementsIn w c k) name kind = none := by rw [hstatements, hn]
      rw [hskip]
      rcases ih fun j hj => hopen j (List.mem_cons_of_mem k hj) with
        ⟨before, j, after, n, b', rfl, hbefore, hj⟩ | ⟨hall, hsearch⟩
      · exact .inl ⟨k :: before, j, after, n, b', rfl,
          List.forall_mem_cons.mpr ⟨hnone, hbefore⟩, hj⟩
      · exact .inr ⟨List.forall_mem_cons.mpr ⟨hnone, hall⟩, hsearch⟩

/-- Looking a name up, before or after the module set is built, ends at the first module of the set
that declares the name with the kind, and else at the module itself. -/
theorem directImport_first_of_moduleSet {modules : List ModuleId} (hv : c.Valid)
    (hm : m < c.modules.size) (hset : (moduleSet m).run w c = (.ok modules, d))
    (hopen : ∀ k ∈ modules, ∃ b, ((buffer k).run w d).1 = .ok b)
    (hactive : ({ path := (c.moduleOf m).path, name, kind := kind.name } : Search) ∉ c.active) :
    ∃ found, ((directImport m name kind).run w c).1 = .ok found ∧
      ((directImport m name kind).run w d).1 = .ok found ∧
      ((∃ before k after n b, modules = before ++ k :: after ∧
        (∀ j ∈ before, findStatement (statementsIn w d j) name kind = none) ∧
        findStatement (statementsIn w d k) name kind = some n ∧ ((buffer k).run w d).1 = .ok b ∧
        found = { owner := k, statements := statementsIn w d k, node := some n,
                  location := some (.ofNode b n) }) ∨
      (∀ k ∈ modules, findStatement (statementsIn w d k) name kind = none) ∧
        found = { owner := m, statements := statementsIn w d m }) := by
  have hready := Ready.of_moduleSet hv hm hset
  have hpath : (d.moduleOf m).path = (c.moduleOf m).path :=
    (congrArg Module.View.path hready.view).symm
  have hactived : d.active = c.active := by
    obtain ⟨own, found, c', _, _, ha, hload, _⟩ := moduleSet_eq_ok hset
    exact (loadAll_active hload).trans ha
  rw [← hpath] at hactive
  obtain ⟨own, c', hown, hrun, _⟩ := directImport_run hready hactive
  obtain ⟨own', d', hown', hrun', _⟩ := directImport_run hready.settle (hactived ▸ hactive)
  rw [hown, Except.ok.injEq] at hown'
  subst hown'
  rw [← statementsIn_eq hown] at hrun hrun'
  have hopen' : ∀ k ∈ modules, ∃ b, (d.viewOf w k).source = .ok b := by
    intro k hk
    obtain ⟨b, hb⟩ := hopen k hk
    exact ⟨b, (buffer_yields k).result.symm.trans hb⟩
  rcases searchViews_of_open name kind hopen' with
    ⟨before, k, after, n, b, hmodules, hbefore, hn, hb, hsearch⟩ | ⟨hnone, hsearch⟩
  · rw [hsearch] at hrun hrun'
    refine ⟨_, congrArg Prod.fst hrun, congrArg Prod.fst hrun', .inl ?_⟩
    exact ⟨before, k, after, n, b, hmodules, hbefore, hn, (buffer_yields k).result.trans hb, rfl⟩
  · rw [hsearch] at hrun hrun'
    exact ⟨_, congrArg Prod.fst hrun, congrArg Prod.fst hrun', .inr ⟨hnone, rfl⟩⟩

/-- A contract that derives from a contract of its second import. -/
def derivedDocument : Buffer where
  uri := "file:///src/a.sol"
  path := some "/src/a.sol"
  text := "import './b.sol'; import './c.sol'; import './d.sol'; contract A is C \x7b \x7d"
  encoding := .utf8

def derivedWorld : World :=
  .ofFiles "/" [("/src/b.sol", "contract B \x7b \x7d"), ("/src/c.sol", "contract C \x7b \x7d"),
    ("/src/d.sol", "")]

theorem directImport_of_base :
    let c := Context.start derivedDocument
    let d := ((moduleSet 0).run derivedWorld c).2
    c.Valid ∧ (moduleSet 0).run derivedWorld c = (.ok [0, 1, 2, 3], d) ∧
      ∃ found n b, ((directImport 0 (some "C") .contract).run derivedWorld c).1 = .ok found ∧
        findStatement (statementsIn derivedWorld d 2) (some "C") .contract = some n ∧
        ((buffer 2).run derivedWorld d).1 = .ok b ∧
        found = { owner := 2, statements := statementsIn derivedWorld d 2, node := some n,
                  location := some (.ofNode b n) } := by
  obtain ⟨hmodules, hopens, howner⟩ :
      ((moduleSet 0).run derivedWorld (.start derivedDocument)).1 = .ok [0, 1, 2, 3] ∧
      (∀ k ∈ [0, 1, 2, 3], ((buffer k).run derivedWorld
        ((moduleSet 0).run derivedWorld (.start derivedDocument)).2).1.toOption.isSome) ∧
      ((directImport 0 (some "C") .contract).run derivedWorld
        (.start derivedDocument)).1.toOption.map DirectImport.owner = some 2 := by decide +kernel
  intro c d
  have hset : (moduleSet 0).run derivedWorld c = (.ok [0, 1, 2, 3], d) := run_of_fst hmodules
  have hopen : ∀ k ∈ [0, 1, 2, 3], ∃ b, ((buffer k).run derivedWorld d).1 = .ok b := by
    intro k hk
    have hsome := hopens k hk
    cases hb : ((buffer k).run derivedWorld d).1 with
    | error e =>
      rw [hb] at hsome
      cases hsome
    | ok b => exact ⟨b, rfl⟩
  have hactive : ({ path := (c.moduleOf 0).path, name := some "C", kind := Kind.contract.name } :
      Search) ∉ c.active := List.not_mem_nil
  obtain ⟨found, hfound, -, ⟨before, k, after, n, b, -, -, hn, hb, rfl⟩ | ⟨-, rfl⟩⟩ :=
    directImport_first_of_moduleSet (Context.valid_start derivedDocument) Nat.zero_lt_one hset hopen
      hactive
  · rw [hfound] at howner
    obtain rfl : k = 2 := Option.some.inj howner
    exact ⟨Context.valid_start _, hset, _, n, b, hfound, hn, hb, rfl⟩
  · rw [hfound] at howner
    cases howner

end SolidityServer.Query
