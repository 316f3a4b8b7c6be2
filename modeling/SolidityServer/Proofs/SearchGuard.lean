import SolidityServer.Proofs.QueryParts

/-! The searches that are going on. A search among the imports of a file is active while it lasts,
and no longer, however it ends. So a definition query, which starts without active searches, never
gives a search up for being active already. -/

namespace SolidityServer

/-- The note on a search that is active already. -/
def Search.cycleNote (s : Search) : Record where
  level := .debug
  message := "Import cycle while looking up " ++ s.kind ++ " " ++ s.name.getD "None"

/-- What a query leaves behind: the active searches from before, and notes that tell of a search
given up only if `p`. -/
structure Context.Follows (p : Prop) (c d : Context) : Prop where
  active : d.active = c.active
  log : ∃ news, d.log = c.log ++ news ∧ ∀ s : Search, s.cycleNote ∈ news → p

namespace Context.Follows

variable {p : Prop} {c d e : Context}

theorem of_same (ha : d.active = c.active) (hl : d.log = c.log) : c.Follows p d :=
  ⟨ha, [], by simp [hl], by simp⟩

theorem trans (h : c.Follows p d) (h' : d.Follows p e) : c.Follows p e := by
  obtain ⟨news, hlog, hnews⟩ := h.log
  obtain ⟨news', hlog', hnews'⟩ := h'.log
  refine ⟨h'.active.trans h.active, news ++ news', by rw [hlog', hlog, List.append_assoc], ?_⟩
  intro s hs
  rcases List.mem_append.mp hs with hs | hs
  · exact hnews s hs
  · exact hnews' s hs

theorem mono {p' : Prop} (h : c.Follows p d) (hp : p → p') : c.Follows p' d := by
  obtain ⟨news, hlog, hnews⟩ := h.log
  exact ⟨h.active, news, hlog, fun s hs => hp (hnews s hs)⟩

end Context.Follows

namespace Query

variable {α β : Type} {w : World} {c d : Context} {m : ModuleId} {name : Option String}
  {kind : Kind} {blocked : List Search → Prop}

/-- The query gave a search up because it was active already, as its notes tell. -/
def GivesUp (w : World) (c : Context) (q : Query α) : Prop :=
  ∃ s : Search, s.cycleNote ∈ (q.run w c).2.log.drop c.log.length

theorem not_givesUp {q : Query α} (h : c.Follows False (q.run w c).2) : ¬GivesUp w c q := by
  rintro ⟨s, hs⟩
  obtain ⟨news, hlog, hnews⟩ := h.log
  rw [hlog, List.drop_left] at hs
  exact hnews s hs

theorem follows_map {p : Prop} {q : Query α} (f : α → β) (h : c.Follows p (q.run w c).2) :
    c.Follows p ((do return f (← q) : Query β).run w c).2 := by
  rw [run_bind]
  rcases hrun : q.run w c with ⟨e | a, d⟩
  · rwa [hrun] at h
  · rwa [hrun] at h

/-- However the query ends, the searches that were active are active again; it gives one up only if
these are `blocked`. -/
def Restores (blocked : List Search → Prop) (q : Query α) : Prop :=
  ∀ (w : World) (c : Context), c.Follows (blocked c.active) (q.run w c).2

namespace Restores

variable {q : Query α} {f : α → Query β}

theorem of_run (h : ∀ w c, ∃ r d, q.run w c = (r, d) ∧ d.active = c.active ∧ d.log = c.log) :
    Restores blocked q := by
  intro w c
  obtain ⟨r, d, hrun, ha, hl⟩ := h w c
  rw [hrun]
  exact .of_same ha hl

protected theorem pure (a : α) : Restores blocked (pure a) :=
  .of_run fun _ c => ⟨.ok a, c, rfl, rfl, rfl⟩

theorem bind (hq : Restores blocked q) (hf : ∀ a, Restores blocked (f a)) :
    Restores blocked (q >>= f) := by
  intro w c
  have hfirst := hq w c
  rcases hrun : q.run w c with ⟨e | a, d⟩
  · rw [run_bind_error hrun]
    rwa [hrun] at hfirst
  · rw [run_bind_ok hrun]
    rw [hrun] at hfirst
    have hsecond := hf a w d
    rw [hfirst.active] at hsecond
    exact hfirst.trans hsecond

theorem attempt (h : Restores blocked q) : Restores blocked (attempt q) := by
  intro w c
  rw [run_attempt]
  exact h w c

protected theorem read : Restores blocked (read : Query World) :=
  .of_run fun w c => ⟨.ok w, c, rfl, rfl, rfl⟩

protected theorem get : Restores blocked (get : Query Context) :=
  .of_run fun _ c => ⟨.ok c, c, rfl, rfl, rfl⟩

theorem modify {f : Context → Context} (ha : ∀ c, (f c).active = c.active)
    (hl : ∀ c, (f c).log = c.log) : Restores blocked (modify f : Query Unit) :=
  .of_run fun _ c => ⟨.ok (), f c, rfl, ha c, hl c⟩

theorem lift (r : Except Failure α) : Restores blocked (lift r) :=
  .of_run fun _ c => ⟨r, c, run_lift r, rfl, rfl⟩

end Restores

/-- A message about something else than a search that is given up. -/
def Ordinary (message : String) : Prop := ∀ s : Search, message ≠ s.cycleNote.message

theorem ordinary_of_char {message : String} (i : Nat) (hi : i < 30)
    (h : message.toList[i]? ≠ "Import cycle while looking up ".toList[i]?) : Ordinary message := by
  intro s heq
  apply h
  have hlength : i < "Import cycle while looking up ".toList.length := hi
  rw [heq, Search.cycleNote, String.append_assoc, String.append_assoc, String.toList_append,
    List.getElem?_append_left hlength]

theorem note_restores {message : String} (h : Ordinary message) :
    Restores blocked (note message) := by
  intro w c
  rw [run_note]
  refine ⟨rfl, [_], rfl, fun s hs => ?_⟩
  exact absurd (congrArg Record.message (List.mem_singleton.mp hs)).symm (h s)

theorem notes_restore {messages : List String} (h : ∀ message ∈ messages, Ordinary message) :
    Restores blocked (messages.forM note) := by
  induction messages with
  | nil => exact .pure ()
  | cons message messages ih =>
    exact (note_restores (h message List.mem_cons_self)).bind fun _ =>
      ih fun message hmessage => h message (List.mem_cons_of_mem _ hmessage)

theorem ordinary_of_mem_notes {o : Outcome α} {message : String} (h : message ∈ o.notes) :
    Ordinary message := by
  refine ordinary_of_char 0 (by decide) ?_
  have hfirst : ∀ f : Fault, message ∈ (if f.complaint == .nestsTooDeeply then []
      else ["Parsed with syntax errors, first: " ++ f.complaint.message ++ " at "
        ++ toString f.offset]) → message.toList[0]? = some 'P' := by
    intro f hf
    split at hf
    · cases hf
    · simp [List.mem_singleton.mp hf]
  cases o with
  | clean tree => cases h
  | recovered f tree =>
    rcases List.mem_append.mp h with h | h
    · simp [hfirst f h]
    · simp [List.mem_singleton.mp h]
  | failed f =>
    rcases List.mem_append.mp h with h | h
    · simp [hfirst f h]
    · simp [List.mem_singleton.mp h]

theorem moduleOf_restores (m : ModuleId) : Restores blocked (moduleOf m) :=
  .of_run fun _ c => ⟨.ok (c.moduleOf m), c, rfl, rfl, rfl⟩

theorem isFile_restores (path : String) : Restores blocked (isFile path) :=
  .of_run fun _ c => ⟨_, c, run_isFile path, rfl, rfl⟩

theorem openFile_restores (path : String) : Restores blocked (openFile path) := by
  have hasked : Restores blocked
      (modify fun c : Context => { c with opened := c.opened ++ [path] }) :=
    .modify (fun _ => rfl) fun _ => rfl
  refine hasked.bind fun _ => Restores.read.bind fun w => (Restores.lift _).bind fun b =>
    (note_restores ?_).bind fun _ => .pure b
  exact ordinary_of_char 0 (by decide) (by simp)

theorem update_restores (m : ModuleId) (f : Module → Module) :
    Restores blocked (modify fun c => c.update m f) :=
  .modify (fun _ => rfl) fun _ => rfl

theorem buffer_restores (m : ModuleId) : Restores blocked (buffer m) := by
  refine (moduleOf_restores m).bind fun self => ?_
  cases self.buffer with
  | some b => exact .pure b
  | none =>
    exact (openFile_restores self.path).bind fun b => (update_restores m _).bind fun _ => .pure b

theorem parse_restores (text : String) : Restores blocked (parse text) :=
  Restores.read.bind fun _ => (notes_restore fun _ => ordinary_of_mem_notes).bind fun _ => .pure _

theorem program_restores (m : ModuleId) : Restores blocked (program m) := by
  refine (moduleOf_restores m).bind fun self => ?_
  cases self.program with
  | some program => exact .pure program
  | none =>
    refine (buffer_restores m).bind fun b => (parse_restores b.text).bind fun program =>
      (update_restores m _).bind fun _ => ?_
    dsimp only
    split
    · refine (moduleOf_restores m).bind fun self => (note_restores ?_).bind fun _ => .pure program
      exact ordinary_of_char 0 (by decide) (by simp)
    · exact .pure program

theorem statements_restores (m : ModuleId) : Restores blocked (statements m) :=
  (program_restores m).bind fun _ => .pure _

/-- This one begins like the note on a cycle; the quote after it tells them apart. -/
theorem ordinary_missing (specifier importer path : String) : Ordinary
    ("Import " ++ Text.quoted specifier ++ " from " ++ importer ++ " is not a file: " ++ path) := by
  refine ordinary_of_char 7 (by decide) ?_
  have hquote : Text.quoteFor specifier.toList ≠ 'c' := by
    unfold Text.quoteFor
    split <;> decide
  simpa [Text.quoted] using hquote

theorem load_restores (specifier importer : String) :
    Restores blocked (load specifier importer) := by
  intro w c
  generalize hpath : w.project.importTarget specifier importer = path
  rw [load, run_bind_ok run_read, hpath, run_bind_ok run_get]
  cases hk : c.known? path with
  | some k => exact .of_same rfl rfl
  | none =>
    simp only [run_bind, run_isFile]
    cases w.workspace.disk.isFile path with
    | error e => exact .of_same rfl rfl
    | ok isFile =>
      cases isFile with
      | false => exact note_restores (ordinary_missing specifier importer path) w c
      | true =>
        simp only [if_true, run_bind, run_get, Context.register, hk]
        exact .of_same rfl rfl

theorem ofBuffer_restores (b : Buffer) : Restores blocked (ofBuffer b) :=
  .of_run fun _ _ => ⟨_, _, rfl, rfl, rfl⟩

theorem restores_hereditary (blocked : List Search → Prop) :
    Hereditary fun _ => Restores blocked where
  pure := .pure
  bind := .bind
  moduleOf := moduleOf_restores
  buffer := buffer_restores
  statements := statements_restores
  load := load_restores

theorem moduleSet_restores (m : ModuleId) : Restores blocked (moduleSet m) := by
  have hparts := restores_hereditary blocked
  refine (moduleOf_restores m).bind fun self => hparts.bind (hparts.imports m) fun specifiers => ?_
  have hloads : Restores blocked
      (specifiers.mapM fun specifier => attempt (load specifier self.path)) :=
    hparts.mapM (fun specifier => (load_restores specifier self.path).attempt) specifiers
  exact hloads.bind fun loads => hparts.bind (hparts.mapM Restores.lift loads) fun _ =>
    Restores.get.bind fun _ => .pure _

theorem during_follows {s : Search} {p : Prop} {q : Query α} (hq : Restores (fun _ => p) q)
    (hs : s ∉ c.active) : c.Follows p ((during s q).run w c).2 := by
  -- the walk is over when the search is taken off the list, whether it failed or not
  have hinner := hq w { c with active := c.active ++ [s] }
  rw [run_during]
  refine ⟨?_, hinner.log⟩
  rw [hinner.active]
  exact active_during hs

/-- The search for a declaration among the imports of a module. -/
def searchFrom (c : Context) (m : ModuleId) (name : Option String) (kind : Kind) : Search :=
  { path := (c.moduleOf m).path, name, kind := kind.name }

/-- A module that can be read does not declare the name, and the search for it among the imports is
active. -/
def Blocked (w : World) (c : Context) (m : ModuleId) (name : Option String) (kind : Kind) : Prop :=
  ∃ own, ((statements m).run w c).1 = .ok own ∧ findStatement (own.getD []) name kind = none ∧
    searchFrom c m name kind ∈ c.active

/-- What the module itself says is read first, and leaves path and active searches as they are. -/
theorem searchFrom_of_statements {r : Except Failure (Option (List Node))} (name : Option String)
    (kind : Kind) (h : (statements m).run w c = (r, d)) :
    searchFrom d m name kind = searchFrom c m name kind ∧ c.Follows False d := by
  have hquiet : Restores (fun _ => False) (statements m) := statements_restores m
  have hfollows := hquiet w c
  have hscene := (statements_yields (w := w) (c := c) m).scene
  rw [h] at hfollows hscene
  have hpath : (d.moduleOf m).path = (c.moduleOf m).path :=
    congrArg Module.View.path (Context.viewOf_congr hscene m)
  exact ⟨by rw [searchFrom, searchFrom, hpath], hfollows⟩

theorem run_directImport_of_none {own : Option (List Node)}
    (h : (statements m).run w c = (.ok own, d))
    (hnone : findStatement (own.getD []) name kind = none) :
    (directImport m name kind).run w c =
      if d.active.contains (searchFrom d m name kind) then
        (.ok { owner := m, statements := own.getD [] },
          { d with log := d.log ++ [(searchFrom d m name kind).cycleNote] })
      else
        (do
          let found ← during (searchFrom d m name kind) do
            searchImports (d.moduleOf m).path name kind [(d.moduleOf m).path] (← imports m)
          return found.getD { owner := m, statements := own.getD [] }).run w d := by
  rw [directImport, run_bind_ok h]
  simp only [hnone, run_bind_ok run_moduleOf, run_bind_ok run_get]
  exact apply_ite (Query.run · w d) _ _ _

theorem directImport_of_blocked (h : Blocked w c m name kind) :
    ∃ d, c.Follows False d ∧ ((directImport m name kind).run w c).2 =
      { d with log := d.log ++ [(searchFrom c m name kind).cycleNote] } := by
  obtain ⟨own, hown, hnone, hs⟩ := h
  rcases hrun : (statements m).run w c with ⟨r, d⟩
  rw [hrun] at hown
  subst hown
  obtain ⟨hsearch, hfollows⟩ := searchFrom_of_statements name kind hrun
  refine ⟨d, hfollows, ?_⟩
  rw [run_directImport_of_none hrun hnone, hsearch, if_pos]
  simpa [hfollows.active] using hs

theorem directImport_of_not_blocked (h : ¬Blocked w c m name kind) :
    c.Follows False ((directImport m name kind).run w c).2 := by
  rcases hrun : (statements m).run w c with ⟨e | own, d⟩
  · rw [directImport, run_bind_error hrun]
    exact (searchFrom_of_statements name kind hrun).2
  obtain ⟨hsearch, hfollows⟩ := searchFrom_of_statements name kind hrun
  refine hfollows.trans ?_
  cases hfound : findStatement (own.getD []) name kind with
  | some n =>
    have hquiet : Restores (fun _ => False) (declaration m (own.getD []) n) :=
      (restores_hereditary _).declaration m (own.getD []) n
    rw [directImport, run_bind_ok hrun]
    simp only [hfound]
    exact hquiet w d
  | none =>
    have hs : searchFrom d m name kind ∉ d.active := by
      rw [hsearch, hfollows.active]
      exact fun hs => h ⟨own, by rw [hrun], hfound, hs⟩
    rw [run_directImport_of_none hrun hfound, if_neg (by simpa using hs)]
    have hparts := restores_hereditary fun _ => False
    exact follows_map _ (during_follows (hparts.bind (hparts.imports m) fun _ =>
      hparts.searchImports _ name kind _ _) hs)

theorem directImport_restores (m : ModuleId) (name : Option String) (kind : Kind) :
    Restores (· ≠ []) (directImport m name kind) := by
  intro w c
  by_cases h : Blocked w c m name kind
  · obtain ⟨d, hfollows, hrun⟩ := directImport_of_blocked h
    obtain ⟨-, -, -, hs⟩ := h
    obtain ⟨news, hlog, -⟩ := hfollows.log
    rw [hrun]
    exact ⟨hfollows.active, news ++ [_], by rw [← List.append_assoc, ← hlog],
      fun _ _ => List.ne_nil_of_mem hs⟩
  · exact (directImport_of_not_blocked h).mono False.elim

/-- The note is written where the search is given up, and nowhere else. -/
theorem directImport_givesUp_iff :
    GivesUp w c (directImport m name kind) ↔ Blocked w c m name kind := by
  constructor
  · intro hgives
    by_contra h
    exact not_givesUp (directImport_of_not_blocked h) hgives
  · intro h
    obtain ⟨d, hfollows, hrun⟩ := directImport_of_blocked h
    obtain ⟨news, hlog, -⟩ := hfollows.log
    refine ⟨searchFrom c m name kind, ?_⟩
    rw [hrun, hlog, List.append_assoc, List.drop_left]
    exact List.mem_append_right _ List.mem_cons_self

theorem resolveImport_restores (b : Buffer) (n : Node) : Restores blocked (resolveImport b n) := by
  refine Restores.read.bind fun w => (isFile_restores _).bind fun found => ?_
  split
  · split
    · exact Restores.lift (.error _)
    · exact .pure _
  · refine (note_restores ?_).bind fun _ => .pure []
    exact ordinary_of_char 7 (by decide) (by simp)

theorem definition_restores (b : Buffer) (offset : Int) :
    Restores (· ≠ []) (definition b offset) := by
  refine (ofBuffer_restores b).bind fun m => (statements_restores m).bind fun found => ?_
  cases found with
  | none =>
    refine (note_restores ?_).bind fun _ => .pure []
    exact ordinary_of_char 0 (by decide) (by simp)
  | some statements =>
    dsimp only
    split
    · exact .pure []
    · split
      · exact resolveImport_restores b _
      · split
        · exact (moduleSet_restores m).bind fun modules =>
            (restores_hereditary _).resolve directImport_restores m statements modules _
        · exact .pure []

/-- Whatever searches are active, looking a name up, resolving a type and answering a definition
query leave them as they were, in success and in failure. A lookup gives up only if its own search
is active, and a definition query that starts without active searches gives none up. -/
theorem active_searches_restored (w : World) (c : Context) :
    (∀ m name kind, ((directImport m name kind).run w c).2.active = c.active) ∧
    (∀ m statements ref modules fileLevel,
      ((resolveType m statements ref modules fileLevel).run w c).2.active = c.active) ∧
    (∀ b offset, ((definition b offset).run w c).2.active = c.active) ∧
    (∀ m name kind, GivesUp w c (directImport m name kind) ↔ Blocked w c m name kind) ∧
    ∀ b offset, ¬GivesUp w { c with active := [] } (definition b offset) := by
  refine ⟨fun m name kind => (directImport_restores m name kind w c).active,
    fun m statements ref modules fileLevel =>
      ((restores_hereditary _).resolveType directImport_restores m statements ref modules fileLevel
        w c).active,
    fun b offset => (definition_restores b offset w c).active,
    fun m name kind => directImport_givesUp_iff, fun b offset => not_givesUp ?_⟩
  have hfollows := definition_restores b offset w { c with active := [] }
  exact hfollows.mono fun hsome => hsome rfl

end Query

end SolidityServer
