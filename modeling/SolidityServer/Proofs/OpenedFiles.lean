import SolidityServer.Proofs.Resolution

/-! The files that a definition query opens. A query of its own starts with the queried document
open; it asks for files only once the module set is there, and then in the order of the set. -/

namespace SolidityServer

namespace Context

variable {w : World} {c d : Context}

/-- Every module is known under its own path only. -/
def Filed (c : Context) : Prop := ∀ path m, c.known? path = some m → (c.moduleOf m).path = path

theorem Filed.of_scene (hc : c.Filed) (h : d.scene w = c.scene w) : d.Filed := by
  intro path m hm
  have hpath : (d.moduleOf m).path = (c.moduleOf m).path :=
    congrArg Module.View.path (viewOf_congr h m)
  rw [known?_congr h] at hm
  rw [hpath, hc path m hm]

variable {b : Buffer}

theorem filed_start (b : Buffer) : (start b).Filed := by
  intro path m hm
  obtain ⟨rfl, rfl⟩ := known?_start hm
  rfl

theorem isOpen_start (b : Buffer) (m : ModuleId) : (start b).isOpen m = decide (m = 0) := by
  cases m with
  | zero => rfl
  | succ m => rfl

theorem sound_start (b : Buffer) : (start b).Sound := by
  intro m hm
  cases m with
  | zero => rfl
  | succ m => cases hm

theorem statements_start (w : World) (b : Buffer) : ((start b).viewOf w 0).statements =
    .ok ((parseProgram w.trees b.text).map fun n => (n.get .body).nodes) := rfl

end Context

namespace Query

variable {α β : Type} {w : World} {c d : Context} {m k : ModuleId} {b : Buffer} {offset : Int}
  {modules rest : List ModuleId}

theorem Loads.filed {path : String} {r : Except Failure (Option ModuleId)}
    (h : Loads w c path r d) (hv : c.Valid) (hc : c.Filed) : d.Filed := by
  have hgrows := h.grows
  cases h with
  | known | failed | missing => exact hc
  | added h hf =>
    intro p k hk
    rw [Context.known?_add h] at hk
    by_cases hp : p = path
    · rw [if_pos hp, Option.some.injEq] at hk
      subst hk hp
      simp [Context.moduleOf, Context.add]
    · rw [if_neg hp] at hk
      have hview := hgrows.viewOf (hv p k hk)
      exact (congrArg Module.View.path hview).trans (hc p k hk)

/-- Queries that ask for no file, one after the other. -/
theorem untouched_bind {q : Query α} {f : α → Query β} (hq : c.Untouched (q.run w c).2)
    (hf : ∀ a d, q.run w c = (.ok a, d) → d.Untouched ((f a).run w d).2) :
    c.Untouched ((q >>= f).run w c).2 := by
  rcases hrun : q.run w c with ⟨e | a, d⟩
  · rw [hrun] at hq
    rw [run_bind_error hrun]
    exact hq
  · rw [hrun] at hq
    rw [run_bind_ok hrun]
    exact hq.trans (hf a d hrun)

theorem untouched_mapM {f : α → Query β}
    (h : ∀ a (c : Context), c.Untouched ((f a).run w c).2) (as : List α) (c : Context) :
    c.Untouched ((as.mapM f).run w c).2 := by
  induction as generalizing c with
  | nil => exact .rfl
  | cons a as ih =>
    rw [List.mapM_cons]
    exact untouched_bind (h a c) fun _ d _ => untouched_bind (ih d) fun _ _ _ => .rfl

theorem load_untouched (specifier importer : String) (c : Context) :
    c.Untouched ((attempt (load specifier importer)).run w c).2 := by
  rw [run_attempt]
  exact (loads_of_run (Prod.ext rfl rfl)).untouched

theorem statements_untouched (h : c.isOpen m) : c.Untouched ((statements m).run w c).2 := by
  rw [run_statements]
  exact program_of_open h

/-- Building the module set of an open module opens nothing. -/
theorem moduleSet_untouched (h : c.isOpen m) : c.Untouched ((moduleSet m).run w c).2 := by
  rw [moduleSet, run_bind_ok run_moduleOf]
  refine untouched_bind (untouched_bind (statements_untouched h) fun _ _ _ => .rfl) fun _ d _ => ?_
  refine untouched_bind (untouched_mapM (fun specifier => load_untouched specifier _) _ d)
    fun outcomes d _ => ?_
  refine untouched_bind (untouched_mapM (fun r c => ?_) outcomes d) fun _ _ _ => .rfl
  rw [run_lift]
  exact .rfl

theorem resolveImport_untouched (b : Buffer) (n : Node) :
    c.Untouched ((resolveImport b n).run w c).2 := by
  rw [resolveImport, run_bind_ok run_read]
  refine untouched_bind ?_ fun isFile d _ => ?_
  · rw [run_isFile]
    exact .rfl
  · cases isFile with
    | false => exact ⟨rfl, fun _ => rfl, id⟩
    | true =>
      simp only [if_true]
      split
      · exact .rfl
      · exact .rfl

/-- The module set of a document. -/
def moduleSetOf (b : Buffer) : Query (List ModuleId) := do moduleSet (← ofBuffer b)

/-- The contract, library or interface that an offset of a document is in. -/
def containerAt? (w : World) (b : Buffer) (offset : Int) : Option Node :=
  ((parseProgram w.trees b.text).bind fun program =>
    nodeAt? (program.get .body).nodes offset).filter (containerKinds.contains ·.kind)

theorem run_moduleSetOf : (moduleSetOf b).run w {} = (moduleSet 0).run w (.start b) :=
  run_bind_ok (run_ofBuffer w b)

theorem ready_of_moduleSetOf (h : (moduleSetOf b).run w {} = (.ok modules, d)) :
    ∃ rest, modules = 0 :: rest ∧ Ready w 0 (0 :: rest) d d ∧ d.Filed ∧
      d.viewOf w 0 = (Context.start b).viewOf w 0 := by
  rw [run_moduleSetOf] at h
  have hready := Ready.of_moduleSet (Context.valid_start b) Nat.zero_lt_one h
  obtain ⟨own, found, c', _, hs, _, hload, rfl⟩ := moduleSet_eq_ok h
  have hfiled : d.Valid ∧ d.Filed := loadAll_keeps (P := fun c => c.Valid ∧ c.Filed)
    (fun hl hc => ⟨hl.valid hc.1, hl.filed hc.1 hc.2⟩) hload
    ⟨(Context.valid_start b).of_scene hs, (Context.filed_start b).of_scene hs⟩
  exact ⟨_, rfl, hready.settle, hfiled.2, hready.view.symm⟩

theorem Ready.path_ne (h : Ready w m (m :: rest) d d) (hk : k ∈ rest) :
    (d.moduleOf k).path ≠ (d.moduleOf m).path := by
  obtain ⟨-, own, found, -, -, hmodules⟩ := h.settled
  obtain ⟨-, rfl⟩ := List.cons.inj hmodules
  intro heq
  exact (distinct_paths d _ _).2 k hk (by simp [heq])

/-- Where a query stands when the module set is built: nothing but the document is open. -/
theorem stage_of_untouched (h : Ready w 0 (0 :: rest) d d) (hs : c.scene w = d.scene w)
    (hu : (Context.start b).Untouched c) : Stage w d 0 rest [] c where
  scene := hs
  sound := hu.sound (Context.sound_start b)
  first := hu.isOpen 0
  front := List.nil_prefix
  isOpen k hk := by
    -- an import of the document itself is no member of `rest`
    have hne : k ≠ 0 := fun h0 => h.path_ne hk (h0 ▸ rfl)
    simp [hu.isOpen, Context.isOpen_start, hne]
  opened := hu.opened

/-- Once the statements are read, a query on a container is the resolution of a reference in the
module set. -/
theorem run_definition {container : Node} (hat : containerAt? w b offset = some container) :
    ∃ statements c, ((Context.start b).viewOf w 0).statements = .ok (some statements) ∧
      c.scene w = (Context.start b).scene w ∧ (Context.start b).Untouched c ∧
      (definition b offset).run w {} = (do
        resolve 0 statements (← moduleSet 0) (containerReference offset container)).run w c := by
  obtain ⟨hnode, hkind⟩ := Option.filter_eq_some_iff.mp hat
  obtain ⟨program, hprogram, hn⟩ := Option.bind_eq_some_iff.mp hnode
  obtain ⟨c, hrun, hscene, -⟩ := (statements_yields (w := w) (c := .start b) 0).run_eq
  have huntouched := statements_untouched (w := w) (m := 0) (Context.isOpen_start b 0)
  rw [Context.statements_start, hprogram] at hrun
  rw [hrun] at huntouched
  refine ⟨(program.get .body).nodes, c, ?_, hscene, huntouched, ?_⟩
  · rw [Context.statements_start, hprogram]
    rfl
  · have himport : ¬(container.kind == .importStatement) := by
      intro himport
      rw [eq_of_beq himport] at hkind
      exact absurd hkind (by decide)
    rw [definition, run_bind_ok (run_ofBuffer w b), run_bind_ok hrun]
    simp only [Option.map_some, hn, himport, hkind, if_true]
    rfl

/-- Outside of a container no file is opened. -/
theorem definition_outside (hat : containerAt? w b offset = none) :
    ((definition b offset).run w {}).2.opened = [] := by
  suffices h : (Context.start b).Untouched ((definition b offset).run w {}).2 from h.opened
  rw [definition, run_bind_ok (run_ofBuffer w b)]
  obtain ⟨c, hrun, -⟩ := (statements_yields (w := w) (c := .start b) 0).run_eq
  refine untouched_bind (statements_untouched (Context.isOpen_start b 0)) fun found d hfound => ?_
  rw [hrun, Context.statements_start] at hfound
  obtain ⟨rfl, rfl⟩ : _ = found ∧ c = d := by simpa using hfound
  cases hprogram : parseProgram w.trees b.text with
  | none => exact ⟨rfl, fun _ => rfl, id⟩
  | some program =>
    simp only [Option.map_some]
    cases hn : nodeAt? (program.get .body).nodes offset with
    | none => exact .rfl
    | some n =>
      have hkind : containerKinds.contains n.kind = false := by
        simpa [containerAt?, hprogram, hn] using hat
      simp only [hkind]
      split
      · exact resolveImport_untouched b n
      · exact .rfl

/-- A query on a container ends as the resolution of its reference does. -/
theorem definition_ends {container : Node} {post : List Location → List ModuleId → Prop}
    (hat : containerAt? w b offset = some container)
    (hset : (moduleSetOf b).run w {} = (.ok modules, d))
    (hresolve : ∀ statements, (d.viewOf w 0).statements = .ok (some statements) →
      Walks w d 0 modules.tail (fun _ => True)
        (resolve 0 statements modules (containerReference offset container)) post) :
    Ends w d 0 modules.tail post ((definition b offset).run w {}) := by
  obtain ⟨statements, c, hstatements, hscene, huntouched, hrun⟩ := run_definition hat
  obtain ⟨rest, rfl, hready, -, hview⟩ := ready_of_moduleSetOf hset
  rw [run_moduleSetOf] at hset
  obtain ⟨c', hset', hscene'⟩ := (moduleSet_byScene 0).run_eq hscene hset
  have huntouched' : c.Untouched c' := by
    have h := moduleSet_untouched (w := w) (m := 0) (huntouched.isOpen 0)
    rwa [hset'] at h
  rw [hrun, run_bind_ok hset']
  exact hresolve statements (hview ▸ hstatements) c' []
    (stage_of_untouched hready hscene' (huntouched.trans huntouched')) trivial

theorem definition_of_moduleSet {container : Node} (hat : containerAt? w b offset = some container)
    (hset : (moduleSetOf b).run w {} = (.ok modules, d)) :
    Ends w d 0 modules.tail (fun ls _ => ∀ l ∈ ls, ∃ name,
        (containerReference offset container).target? = some name ∧ DeclaredIn w d modules name l)
      ((definition b offset).run w {}) := by
  refine definition_ends hat hset fun statements hstatements => ?_
  obtain ⟨rest, rfl, hready, -⟩ := ready_of_moduleSetOf hset
  exact resolve_walks hready hstatements _

theorem definition_of_failure {container : Node} {e : Failure}
    (hat : containerAt? w b offset = some container)
    (hset : (moduleSetOf b).run w {} = (.error e, d)) :
    ((definition b offset).run w {}).1 = .error e ∧
      ((definition b offset).run w {}).2.opened = [] := by
  obtain ⟨statements, c, hstatements, hscene, huntouched, hrun⟩ := run_definition hat
  rw [run_moduleSetOf] at hset
  obtain ⟨c', hset', -⟩ := (moduleSet_byScene 0).run_eq hscene hset
  have huntouched' := moduleSet_untouched (w := w) (m := 0) (huntouched.isOpen 0)
  rw [hset'] at huntouched'
  rw [hrun, run_bind_error hset']
  exact ⟨rfl, (huntouched.trans huntouched').opened⟩

/-- Paths in the order of the module set are distinct direct imports of the document. -/
theorem paths_of_moduleSetOf (h : (moduleSetOf b).run w {} = (.ok modules, d)) :
    let paths := (modules.map fun m => (d.moduleOf m).path).tail
    paths.Nodup ∧ Path.normalize (b.path.getD "") ∉ paths ∧
      ∀ path ∈ paths, ∃ program, parseProgram w.trees b.text = some program ∧
        ∃ specifier ∈ importsOf (program.get .body).nodes,
          path = w.project.importTarget specifier (Path.normalize (b.path.getD "")) := by
  obtain ⟨rest, rfl, hready, hfiled, hview⟩ := ready_of_moduleSetOf h
  have hpath : (d.moduleOf 0).path = Path.normalize (b.path.getD "") :=
    congrArg Module.View.path hview
  simp only [List.map_cons, List.tail_cons]
  refine ⟨?_, ?_, ?_⟩
  · obtain ⟨-, own, found, -, -, hmodules⟩ := hready.settled
    obtain ⟨-, rfl⟩ := List.cons.inj hmodules
    exact (distinct_paths d _ _).1
  · rw [← hpath]
    intro hmem
    obtain ⟨k, hk, heq⟩ := List.mem_map.mp hmem
    exact hready.path_ne hk heq
  · intro path hmem
    obtain ⟨k, hk, rfl⟩ := List.mem_map.mp hmem
    obtain ⟨own, hown, specifier, hspecifier, hknown⟩ := hready.imported hk
    rw [hview, Context.statements_start, Except.ok.injEq] at hown
    subst hown
    cases hprogram : parseProgram w.trees b.text with
    | none => simp [hprogram, importsOf] at hspecifier
    | some program =>
      rw [hprogram] at hspecifier
      exact ⟨program, rfl, specifier, hspecifier, hpath ▸ hfiled _ _ hknown⟩

/-- A definition query opens the first files of the module set, in its order, and none if the module
set cannot be built or the cursor is outside of every contract, library and interface. So it opens
no file twice, never the queried one, and direct imports only. -/
theorem opened_prefix_of_definition (w : World) (b : Buffer) (offset : Int) :
    let opened := ((definition b offset).run w {}).2.opened
    let own := Path.normalize (b.path.getD "")
    (match (moduleSetOf b).run w {} with
      | (.ok modules, d) => opened <+: (modules.map fun m => (d.moduleOf m).path).tail
      | (.error _, _) => opened = []) ∧
    (containerAt? w b offset = none → opened = []) ∧
    opened.Nodup ∧ own ∉ opened ∧
    ∀ path ∈ opened, ∃ program, parseProgram w.trees b.text = some program ∧
      ∃ specifier ∈ importsOf (program.get .body).nodes,
        path = w.project.importTarget specifier own := by
  intro opened own
  have hfront : match (moduleSetOf b).run w {} with
      | (.ok modules, d) => opened <+: (modules.map fun m => (d.moduleOf m).path).tail
      | (.error _, _) => opened = [] := by
    cases hat : containerAt? w b offset with
    | none =>
      have hnone : opened = [] := definition_outside hat
      rw [hnone]
      split
      · exact List.nil_prefix
      · rfl
    | some container =>
      split
      next modules d hset =>
        rw [← List.map_tail]
        exact (definition_of_moduleSet hat hset).opened_front
      next hset => exact (definition_of_failure hat hset).2
  refine ⟨hfront, definition_outside, ?_⟩
  split at hfront
  next modules d hset =>
    obtain ⟨hnodup, hown, himported⟩ := paths_of_moduleSetOf hset
    exact ⟨hfront.sublist.nodup hnodup, fun hmem => hown (hfront.subset hmem),
      fun path hmem => himported path (hfront.subset hmem)⟩
  next => simp [hfront]

theorem opened_of_base :
    let opened (offset : Int) := ((definition derivedDocument offset).run derivedWorld {}).2.opened
    opened 69 = ["/src/b.sol", "/src/c.sol"] ∧
      ["/src/b.sol", "/src/c.sol"] <+: ["/src/b.sol", "/src/c.sol", "/src/d.sol"] ∧
      (∃ program, parseProgram derivedWorld.trees derivedDocument.text = some program ∧
        ∃ specifier ∈ importsOf (program.get .body).nodes,
          "/src/c.sol" = derivedWorld.project.importTarget specifier "/src/a.sol") ∧
      containerAt? derivedWorld derivedDocument 10 = none ∧ opened 10 = [] := by
  obtain ⟨hopened, hmodules, hpaths, hown, hnone⟩ :
      ((definition derivedDocument 69).run derivedWorld {}).2.opened =
        ["/src/b.sol", "/src/c.sol"] ∧
      ((moduleSetOf derivedDocument).run derivedWorld {}).1 = .ok [0, 1, 2, 3] ∧
      ([0, 1, 2, 3].map fun m =>
        (((moduleSetOf derivedDocument).run derivedWorld {}).2.moduleOf m).path) =
        ["/src/a.sol", "/src/b.sol", "/src/c.sol", "/src/d.sol"] ∧
      Path.normalize (derivedDocument.path.getD "") = "/src/a.sol" ∧
      (containerAt? derivedWorld derivedDocument 10).isNone := by decide +kernel
  have hbase := opened_prefix_of_definition derivedWorld derivedDocument 69
  rw [run_of_fst hmodules] at hbase
  obtain ⟨hfront, -, -, -, himported⟩ := hbase
  have hfront' : ((definition derivedDocument 69).run derivedWorld {}).2.opened <+:
      ([0, 1, 2, 3].map fun m =>
        (((moduleSetOf derivedDocument).run derivedWorld {}).2.moduleOf m).path).tail := hfront
  rw [hopened, hpaths] at hfront'
  have hc := himported "/src/c.sol" (hopened ▸ by simp)
  rw [hown] at hc
  have hnone' := Option.isNone_iff_eq_none.mp hnone
  have houtside := (opened_prefix_of_definition derivedWorld derivedDocument 10).2.1 hnone'
  exact ⟨hopened, hfront', hc, hnone', houtside⟩

end Query

end SolidityServer
