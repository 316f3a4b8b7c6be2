import SolidityServer.Proofs.OpenedFiles
import SolidityServer.Proofs.QueryParts
import SolidityServer.Server.Session

/-! What keeps a definition request from its answer. If the document itself is missing or is not
text, the request fails; whatever goes wrong later lies with the disk or with an import, and is
logged. -/

namespace SolidityServer

/-- Why there is no text at a path. -/
inductive Disk.Unreadable (d : Disk) (path : String) : Failure → Prop
  | missing (h : d.file? path = none) : Unreadable d path (.missing path)
  | notText {bytes : ByteArray} {error : Text.Utf8Error} (hfile : d.file? path = some bytes)
      (herror : Text.decodeUtf8 (bytes.toList.map UInt8.toNat) = .error error) :
      Unreadable d path (.notText error)

theorem Disk.read_eq_error_iff {d : Disk} {path : String} {e : Failure} :
    d.read path = .error e ↔ d.Unreadable path e := by
  constructor
  · intro h
    cases hfile : d.file? path with
    | none =>
      simp only [read, hfile, Except.error.injEq] at h
      exact h ▸ .missing hfile
    | some bytes =>
      cases htext : Text.decodeUtf8 (bytes.toList.map UInt8.toNat) with
      | error error =>
        simp only [read, hfile, htext, Except.error.injEq] at h
        exact h ▸ .notText hfile htext
      | ok cs => simp [read, hfile, htext] at h
  · intro h
    cases h with
    | missing hfile => simp [read, hfile]
    | notText hfile herror => simp [read, hfile, herror]

theorem Workspace.buffer_eq_error_iff {w : Workspace} {uri : String} {e : Failure} :
    w.buffer uri = .error e ↔
      w.document? uri = none ∧ w.disk.Unreadable (Uri.documentPath uri) e := by
  rw [← Disk.read_eq_error_iff]
  cases hdocument : w.document? uri with
  | some d => simp [buffer, read, hdocument, Except.map]
  | none =>
    cases hread : w.disk.read (Uri.documentPath uri) with
    | error e' => simp [buffer, read, hdocument, hread, Except.map]
    | ok text => simp [buffer, read, hdocument, hread, Except.map]

namespace Query

variable {α β : Type} {w : World} {b : Buffer} {offset : Int} {c d : Context} {e : Failure}

/-- A query that fails does so because the disk does not answer or a file that it opened cannot be
had. -/
def Blames (q : Query α) : Prop :=
  ∀ (w : World) (c : Context) (e : Failure) (d : Context), q.run w c = (.error e, d) →
    e = .diskGone ∨ ∃ path ∈ d.opened, w.workspace.bufferAt path = .error e

namespace Blames

variable {q : Query α} {f : α → Query β}

theorem of_ok (h : ∀ w c, ∃ a d, q.run w c = (.ok a, d)) : Blames q := by
  intro w c e d hrun
  obtain ⟨a, d', hok⟩ := h w c
  rw [hok] at hrun
  cases hrun

protected theorem pure (a : α) : Blames (pure a) := .of_ok fun _ c => ⟨a, c, rfl⟩

theorem bind (hq : Blames q) (hf : ∀ a, Blames (f a)) : Blames (q >>= f) := by
  intro w c e d hrun
  rcases hfirst : q.run w c with ⟨e' | a, c'⟩
  · rw [run_bind_error hfirst] at hrun
    cases hrun
    exact hq w c e d hfirst
  · rw [run_bind_ok hfirst] at hrun
    exact hf a w c' e d hrun

theorem during {s : Search} (h : Blames q) : Blames (during s q) := by
  intro w c e d hrun
  rw [run_during] at hrun
  obtain ⟨hresult, rfl⟩ := Prod.mk.inj hrun
  have hblamed := h w _ e _ (run_of_fst hresult)
  exact hblamed

end Blames

theorem get_blames : Blames get := .of_ok fun _ c => ⟨c, c, rfl⟩

theorem moduleOf_blames (m : ModuleId) : Blames (moduleOf m) := .of_ok fun _ c => ⟨_, c, rfl⟩

theorem note_blames (message : String) : Blames (note message) := .of_ok fun _ _ => ⟨_, _, rfl⟩

theorem isFile_eq_error {disk : Disk} {path : String} (h : disk.isFile path = .error e) :
    e = .diskGone := by
  unfold Disk.isFile at h
  split at h
  · exact (Except.error.inj h).symm
  · cases h

theorem buffer_blames (m : ModuleId) : Blames (buffer m) := by
  intro w c e d hrun
  cases hbuffer : (c.moduleOf m).buffer with
  | some b =>
    rw [run_buffer_of_some hbuffer] at hrun
    cases hrun
  | none =>
    obtain ⟨log, hopen⟩ := run_buffer_of_none (w := w) hbuffer
    rw [hopen] at hrun
    cases hread : w.workspace.bufferAt (c.moduleOf m).path with
    | ok b =>
      rw [hread] at hrun
      cases hrun
    | error e' =>
      rw [hread] at hrun
      cases hrun
      exact .inr ⟨_, List.mem_append_right _ (List.mem_singleton_self _), hread⟩

theorem program_blames (m : ModuleId) : Blames (program m) := by
  intro w c e d hrun
  cases hprogram : (c.moduleOf m).program with
  | some program =>
    rw [run_program_of_some hprogram] at hrun
    cases hrun
  | none =>
    rcases hbuffer : (buffer m).run w c with ⟨e' | b, c'⟩
    · rw [run_program_of_error hprogram hbuffer] at hrun
      cases hrun
      exact buffer_blames m w c e d hbuffer
    · obtain ⟨log, hparsed⟩ := run_program_of_buffer hprogram hbuffer
      rw [hparsed] at hrun
      cases hrun

theorem statements_blames (m : ModuleId) : Blames (statements m) :=
  (program_blames m).bind fun _ => .pure _

/-- A load never opens its file, so that it fails with the disk only. -/
theorem load_eq_error {specifier importer : String}
    (h : (load specifier importer).run w c = (.error e, d)) : e = .diskGone := by
  cases loads_of_run h with
  | failed _ hfile => exact isFile_eq_error hfile

theorem load_blames (specifier importer : String) : Blames (load specifier importer) :=
  fun _ _ _ _ hrun => .inl (load_eq_error hrun)

theorem blames_hereditary : Hereditary fun _ => Blames where
  pure := .pure
  bind := .bind
  moduleOf := moduleOf_blames
  buffer := buffer_blames
  statements := statements_blames
  load := load_blames

/-- The failures that come out of loads side by side were caught there, and are of the disk too. -/
theorem attempts_fail {importer : String} {specifiers : List String}
    {outcomes : List (Except Failure (Option ModuleId))}
    (h : (specifiers.mapM fun specifier => attempt (load specifier importer)).run w c =
      (.ok outcomes, d)) (he : .error e ∈ outcomes) : e = .diskGone := by
  induction specifiers generalizing c outcomes with
  | nil =>
    cases h
    cases he
  | cons specifier specifiers ih =>
    rw [List.mapM_cons] at h
    obtain ⟨outcome, c', hfirst, h⟩ := run_bind_eq_ok h
    obtain ⟨outcomes', d', hrest, h⟩ := run_bind_eq_ok h
    cases h
    rcases List.mem_cons.mp he with rfl | he
    · rw [run_attempt] at hfirst
      exact load_eq_error (run_of_fst (Except.ok.inj (congrArg Prod.fst hfirst)))
    · exact ih hrest he

theorem mem_of_lift_error {outcomes : List (Except Failure α)}
    (h : (outcomes.mapM lift).run w c = (.error e, d)) : .error e ∈ outcomes := by
  induction outcomes generalizing c with
  | nil => cases h
  | cons outcome outcomes ih =>
    rw [List.mapM_cons] at h
    cases outcome with
    | error e' =>
      rw [run_bind_error (run_lift _)] at h
      cases h
      exact List.mem_cons_self
    | ok a =>
      rw [run_bind_ok (run_lift _)] at h
      rcases hrest : (outcomes.mapM lift).run w c with ⟨e' | rest, c'⟩
      · rw [run_bind_error hrest] at h
        cases h
        exact List.mem_cons_of_mem _ (ih hrest)
      · rw [run_bind_ok hrest] at h
        cases h

theorem moduleSet_blames (m : ModuleId) : Blames (moduleSet m) := by
  refine (moduleOf_blames m).bind fun self =>
    Blames.bind (blames_hereditary.imports m) fun specifiers => ?_
  intro w c e d hrun
  rcases hloads : (specifiers.mapM fun specifier => attempt (load specifier self.path)).run w c with
    ⟨e' | outcomes, c'⟩
  · -- an attempt always ends well, so that this case does not come up
    have hok : Blames (specifiers.mapM fun specifier => attempt (load specifier self.path)) :=
      blames_hereditary.mapM (fun specifier => .of_ok fun _ _ => ⟨_, _, run_attempt _⟩) specifiers
    rw [run_bind_error hloads] at hrun
    cases hrun
    exact hok w c e d hloads
  · rw [run_bind_ok hloads] at hrun
    rcases hlift : (outcomes.mapM lift).run w c' with ⟨e' | found, c''⟩
    · rw [run_bind_error hlift] at hrun
      cases hrun
      exact .inl (attempts_fail hloads (mem_of_lift_error hlift))
    · rw [run_bind_ok hlift] at hrun
      cases hrun

theorem directImport_blames (m : ModuleId) (name : Option String) (kind : Kind) :
    Blames (directImport m name kind) := by
  refine (statements_blames m).bind fun own => ?_
  dsimp only
  split
  · exact blames_hereditary.declaration m _ _
  · refine (moduleOf_blames m).bind fun self => get_blames.bind fun c => ?_
    split
    · exact (note_blames _).bind fun _ => .pure _
    · have hsearch := blames_hereditary.bind (blames_hereditary.imports m) fun specifiers =>
        blames_hereditary.searchImports self.path name kind [self.path] specifiers
      exact (Blames.during hsearch).bind fun _ => .pure _

/-- A file that a document imports cannot be had. The path of the document is in normal form when
the import is searched, and as the editor gives it when the import itself is the question. -/
def UnreadableImport (w : World) (b : Buffer) (e : Failure) : Prop :=
  ∃ program, parseProgram w.trees b.text = some program ∧
    ∃ specifier ∈ importsOf (body program),
      ∃ importer ∈ [b.path.getD "", Path.normalize (b.path.getD "")],
        w.workspace.bufferAt (w.project.importTarget specifier importer) = .error e

theorem resolveImport_eq_error {n : Node} (h : (resolveImport b n).run w c = (.error e, d)) :
    e = .diskGone ∨ w.workspace.bufferAt
      (w.project.importTarget ((n.get .source).text?.getD "") (b.path.getD "")) = .error e := by
  rw [resolveImport, run_bind_ok run_read] at h
  generalize w.project.importTarget ((n.get .source).text?.getD "") (b.path.getD "") = path at h ⊢
  rw [run_bind, run_isFile] at h
  cases hfile : w.workspace.disk.isFile path with
  | error e' =>
    rw [hfile] at h
    cases h
    exact .inl (isFile_eq_error hfile)
  | ok isFile =>
    rw [hfile] at h
    cases isFile with
    | false => cases h
    | true =>
      simp only [if_true] at h
      cases hpath : Uri.ofPath? path with
      | none =>
        rw [hpath] at h
        cases h
        exact .inr (by simp [Workspace.bufferAt, hpath])
      | some uri =>
        rw [hpath] at h
        cases h

/-- On a contract, a library or an interface the files that a query opens are direct imports. -/
theorem definition_inside_eq_error {container : Node}
    (hat : containerAt? w b offset = some container)
    (hrun : (definition b offset).run w {} = (.error e, c)) :
    e = .diskGone ∨ UnreadableImport w b e := by
  have hblamed : e = .diskGone ∨ ∃ path ∈ c.opened, w.workspace.bufferAt path = .error e := by
    obtain ⟨statements, c', -, -, -, hresolve⟩ := run_definition hat
    rw [hresolve] at hrun
    exact ((moduleSet_blames 0).bind fun modules =>
      blames_hereditary.resolve directImport_blames 0 statements modules _) w c' e c hrun
  refine hblamed.imp_right fun ⟨path, hopened, hread⟩ => ?_
  rcases hset : (moduleSetOf b).run w {} with ⟨e' | modules, d⟩
  · -- the module set is built before any file is opened
    have hnone := (definition_of_failure hat hset).2
    rw [hrun] at hnone
    exact absurd (hnone ▸ hopened) List.not_mem_nil
  · have hfront := (definition_of_moduleSet hat hset).opened_front
    rw [hrun] at hfront
    have hmem : path ∈ (modules.map fun m => (d.moduleOf m).path).tail :=
      List.map_tail ▸ hfront.subset hopened
    obtain ⟨program, hprogram, specifier, hspecifier, rfl⟩ := (paths_of_moduleSetOf hset).2.2 _ hmem
    exact ⟨program, hprogram, specifier, hspecifier, _, by simp, hread⟩

/-- Elsewhere only an import statement leads to a file. -/
theorem definition_outside_eq_error (hat : containerAt? w b offset = none)
    (hrun : (definition b offset).run w {} = (.error e, c)) :
    e = .diskGone ∨ UnreadableImport w b e := by
  obtain ⟨c', hstatements, -⟩ := (statements_yields (w := w) (c := .start b) 0).run_eq
  rw [Context.statements_start] at hstatements
  rw [definition, run_bind_ok (run_ofBuffer w b), run_bind_ok hstatements] at hrun
  cases hprogram : parseProgram w.trees b.text with
  | none =>
    rw [hprogram] at hrun
    cases hrun
  | some program =>
    rw [hprogram] at hrun
    simp only [Option.map_some] at hrun
    cases hn : nodeAt? (program.get .body).nodes offset with
    | none =>
      rw [hn] at hrun
      cases hrun
    | some n =>
      have hkind : containerKinds.contains n.kind = false := by
        simpa [containerAt?, hprogram, hn] using hat
      simp only [hn, hkind] at hrun
      split at hrun
      next himport =>
        have hmem : (n.get .source).text?.getD "" ∈ importsOf (body program) :=
          List.mem_map.mpr ⟨n, List.mem_filter.mpr ⟨mem_of_nodeAt? hn, himport⟩, rfl⟩
        exact (resolveImport_eq_error hrun).imp_right fun hread =>
          ⟨program, hprogram, _, hmem, _, by simp, hread⟩
      next => cases hrun

theorem definition_eq_error (hrun : (definition b offset).run w {} = (.error e, c)) :
    e = .diskGone ∨ UnreadableImport w b e := by
  cases hat : containerAt? w b offset with
  | some container => exact definition_inside_eq_error hat hrun
  | none => exact definition_outside_eq_error hat hrun

end Query

namespace Session

/-- What a query on a document can look at. -/
def worldFor (s : Session) (b : Buffer) : World :=
  { project := s.projectFor (b.path.getD ""), workspace := s.workspace, trees := s.trees }

/-- A definition request fails only if the document is not open and has no text on disk, and then
the log says nothing about it. A document that is there gets an answer, never an empty list: what
goes wrong on the way to it, at the disk or with an import, is logged. -/
theorem definition_fails_iff_unreadable (s : Session) (uri : String) (p : Position) :
    (∀ e, (s.definition uri p).1 = .error e ↔
      s.workspace.document? uri = none ∧ s.workspace.disk.Unreadable (Uri.documentPath uri) e) ∧
    (∀ e, (s.definition uri p).1 = .error e →
      (s.definition uri p).2 = s.debug ("Definition requested: " ++ uri)) ∧
    (∀ answer, (s.definition uri p).1 = .ok answer → answer ≠ some []) ∧
    ∀ b, s.workspace.buffer uri = .ok b →
      match (Query.definition b (b.offsetAt p)).run (s.worldFor b) {} with
      | (.ok locations, c) => s.definition uri p =
          (.ok (if locations.isEmpty then none else some locations),
            s.debug ("Definition requested: " ++ uri) ++ s.logged c.log)
      | (.error e, c) => (e = .diskGone ∨ Query.UnreadableImport (s.worldFor b) b e) ∧
          s.definition uri p = (.ok none,
            s.debug ("Definition requested: " ++ uri) ++ s.logged c.log ++
              s.complain ("Definition failed for " ++ b.uri ++ ": " ++ e.message)) := by
  simp only [← Workspace.buffer_eq_error_iff]
  cases hbuffer : s.workspace.buffer uri with
  | error e => simp [definition, hbuffer]
  | ok b =>
    simp only [reduceCtorEq, iff_false, Except.ok.injEq, forall_eq']
    rcases hrun : (Query.definition b (b.offsetAt p)).run (s.worldFor b) {} with ⟨e | locations, c⟩
    · have hanswer : s.definition uri p = (.ok none,
          s.debug ("Definition requested: " ++ uri) ++ s.logged c.log ++
            s.complain ("Definition failed for " ++ b.uri ++ ": " ++ e.message)) := by
        rw [worldFor] at hrun
        simp [definition, hbuffer, hrun]
      simp [hanswer, Query.definition_eq_error hrun]
    · have hanswer : s.definition uri p =
          (.ok (if locations.isEmpty then none else some locations),
            s.debug ("Definition requested: " ++ uri) ++ s.logged c.log) := by
        rw [worldFor] at hrun
        cases locations <;> simp [definition, hbuffer, hrun]
      cases locations <;> simp [hanswer]

/-- Nobody has opened the document and there is no file, and the log stays empty. -/
theorem definition_of_missing_document :
    let s := (start [] (some "file:///work") ⟨⟨[], []⟩, [], .utf16⟩ Trees.grammar
      fun _ => .finished "" "" 0).1
    s.definition "file:///work/Gone.sol" ⟨0, 0⟩ = (.error (.missing "/work/Gone.sol"), []) := by
  intro s
  have hpath : Uri.documentPath "file:///work/Gone.sol" = "/work/Gone.sol" := by decide +kernel
  have hbuffer : s.workspace.buffer "file:///work/Gone.sol" = .error (.missing "/work/Gone.sol") :=
    Workspace.buffer_eq_error_iff.mpr ⟨rfl, hpath ▸ .missing (by decide +kernel)⟩
  have hquiet : ∀ message, s.debug message = [] := fun message => rfl
  simp only [definition, hbuffer, hquiet]

end Session

end SolidityServer
