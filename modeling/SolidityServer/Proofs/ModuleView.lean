import Mathlib.Data.List.Basic
import SolidityServer.Query.Definition

/-! Modules are opened and parsed on first use. What is found then is settled from the beginning:
reading a module changes what the query remembers, and never what it can learn. -/

namespace SolidityServer

/-- A project at `root` with these files and no open documents. -/
def World.ofFiles (root : String) (files : List (String × String)) : World where
  project := { root, dependencyDirectory := "lib" }
  workspace :=
    { disk := { files := files.map fun (path, text) => (path, text.toUTF8), broken := [] }
      documents := []
      encoding := .utf8 }
  trees := Trees.grammar

namespace Module

/-- What there is to learn about a module, remembered or not. -/
structure View where
  path : String
  source : Except Failure Buffer
  tree : Except Failure (Option Node)

def source (w : World) (self : Module) : Except Failure Buffer :=
  match self.buffer with
  | some b => .ok b
  | none => w.workspace.bufferAt self.path

def tree (w : World) (self : Module) : Except Failure (Option Node) :=
  match self.program with
  | some program => .ok program
  | none => (self.source w).map fun b => parseProgram w.trees b.text

def view (w : World) (self : Module) : View :=
  { path := self.path, source := self.source w, tree := self.tree w }

theorem view_with_buffer {w : World} {self : Module} {b : Buffer} (h : self.source w = .ok b) :
    ({ self with buffer := some b } : Module).view w = self.view w := by
  have hsource : ({ self with buffer := some b } : Module).source w = self.source w := h.symm
  simp only [view, tree, hsource]

theorem view_with_program {w : World} {self : Module} {program : Option Node}
    (h : self.tree w = .ok program) :
    ({ self with program := some program } : Module).view w = self.view w := by
  have htree : ({ self with program := some program } : Module).tree w = self.tree w := h.symm
  simp only [view, htree]
  rfl

/-- The top-level statements, none if there is no usable tree. -/
def View.statements (v : View) : Except Failure (Option (List Node)) :=
  v.tree.map (Option.map fun n => (n.get .body).nodes)

theorem View.statements_ok_of_source {w : World} {self : Module} {b : Buffer}
    (h : (self.view w).source = .ok b) : ∃ found, (self.view w).statements = .ok found := by
  have htree : ∃ program, self.tree w = .ok program := by
    cases hp : self.program with
    | some program => exact ⟨program, by simp [Module.tree, hp]⟩
    | none =>
      refine ⟨parseProgram w.trees b.text, ?_⟩
      have hsource : self.source w = .ok b := h
      simp [Module.tree, hp, hsource, Except.map]
  obtain ⟨program, hp⟩ := htree
  exact ⟨_, congrArg (Except.map _) hp⟩

end Module

namespace Context

variable {w : World} {c d : Context} {m : ModuleId}

def viewOf (w : World) (c : Context) (m : ModuleId) : Module.View := (c.moduleOf m).view w

/-- Everything about a context that decides what a query finds. -/
def scene (w : World) (c : Context) : List Module.View × List (String × ModuleId) :=
  (c.modules.toList.map (Module.view w), c.known)

theorem viewOf_eq_getD (w : World) (c : Context) (m : ModuleId) :
    c.viewOf w m = ((c.scene w).1[m]?).getD (Module.view w default) := by
  simp only [viewOf, moduleOf, scene, List.getElem?_map, Array.getElem?_toList,
    Array.getD_eq_getD_getElem?]
  cases c.modules[m]? with
  | none => rfl
  | some self => rfl

theorem viewOf_congr (h : d.scene w = c.scene w) (m : ModuleId) : d.viewOf w m = c.viewOf w m := by
  rw [viewOf_eq_getD, viewOf_eq_getD, h]

theorem known_congr (h : d.scene w = c.scene w) : d.known = c.known := congrArg Prod.snd h

theorem size_eq (w : World) (c : Context) : (c.scene w).1.length = c.modules.size := by
  simp [scene]

/-- Remembering what is settled changes nothing. -/
theorem scene_update {f : Module → Module} (h : (f (c.moduleOf m)).view w = c.viewOf w m) :
    (c.update m f).scene w = c.scene w := by
  refine Prod.ext (List.ext_getElem? fun k => ?_) rfl
  simp only [scene, update, List.getElem?_map, Array.getElem?_toList, Array.getElem?_modify]
  by_cases hk : m = k
  · subst hk
    cases hm : c.modules[m]? with
    | none => simp
    | some self =>
      have hself : c.moduleOf m = self := by
        rw [moduleOf, Array.getD_eq_getD_getElem?, hm, Option.getD_some]
      simpa [viewOf, hself] using h
  · simp [hk]

end Context

namespace Query

variable {α β : Type} {w : World} {c d : Context} {m : ModuleId}

section Runs

variable {q : Query α} {f : α → Query β}

@[simp] theorem run_pure (a : α) : (pure a : Query α).run w c = (.ok a, c) := rfl

theorem run_bind (q : Query α) (f : α → Query β) :
    (q >>= f).run w c = match q.run w c with
      | (.ok a, d) => (f a).run w d
      | (.error e, d) => (.error e, d) := by
  change (ExceptT.bindCont (fun a => f a w) (q w c).1) (q w c).2 = _
  unfold run ExceptT.run
  rcases q w c with ⟨r | a, d⟩ <;> rfl

theorem run_of_fst {r : Except Failure α} (h : (q.run w c).1 = r) :
    q.run w c = (r, (q.run w c).2) := Prod.ext h rfl

theorem run_of_map_toOption {g : α → β} {b : β} (h : (q.run w c).1.toOption.map g = some b) :
    ∃ a d, q.run w c = (.ok a, d) ∧ g a = b := by
  rcases hrun : q.run w c with ⟨e | a, d⟩
  · rw [hrun] at h
    cases h
  · rw [hrun] at h
    exact ⟨a, d, rfl, Option.some.inj h⟩

theorem run_bind_ok {a : α} (h : q.run w c = (.ok a, d)) : (q >>= f).run w c = (f a).run w d := by
  rw [run_bind, h]

theorem run_bind_error {e : Failure} (h : q.run w c = (.error e, d)) :
    (q >>= f).run w c = (.error e, d) := by
  rw [run_bind, h]

theorem run_bind_eq_ok {b : β} (h : (q >>= f).run w c = (.ok b, d)) :
    ∃ a c', q.run w c = (.ok a, c') ∧ (f a).run w c' = (.ok b, d) := by
  rw [run_bind] at h
  rcases hq : q.run w c with ⟨r, c'⟩
  rw [hq] at h
  cases r with
  | error e => cases h
  | ok a => exact ⟨a, c', rfl, h⟩

@[simp] theorem run_get : (get : Query Context).run w c = (.ok c, c) := rfl

@[simp] theorem run_read : (read : Query World).run w c = (.ok w, c) := rfl

@[simp] theorem run_set (d : Context) : (set d : Query Unit).run w c = (.ok (), d) := rfl

@[simp] theorem run_modify (f : Context → Context) :
    (modify f : Query Unit).run w c = (.ok (), f c) := rfl

@[simp] theorem run_moduleOf : (moduleOf m).run w c = (.ok (c.moduleOf m), c) := rfl

@[simp] theorem run_note (message : String) :
    (note message).run w c =
      (.ok (), { c with log := c.log ++ [{ level := Level.debug, message }] }) := rfl

@[simp] theorem run_lift (r : Except Failure α) : (lift r).run w c = (r, c) := by
  cases r <;> rfl

@[simp] theorem run_isFile (path : String) :
    (isFile path).run w c = (w.workspace.disk.isFile path, c) := by
  rw [isFile, run_bind_ok run_read, run_lift]

theorem run_tryCatch (q : Query α) (handle : Failure → Query α) :
    (tryCatch q handle).run w c = match q.run w c with
      | (.ok a, d) => (.ok a, d)
      | (.error e, d) => (handle e).run w d := by
  unfold run ExceptT.run
  rcases hq : q w c with ⟨e | a, d⟩ <;>
    simp only [tryCatch, tryCatchThe, MonadExceptOf.tryCatch, ExceptT.tryCatch, ExceptT.mk, bind,
      StateT.bind, hq]
  rfl

theorem run_attempt (q : Query α) : (attempt q).run w c = (.ok (q.run w c).1, (q.run w c).2) := by
  rw [attempt, run_tryCatch, run_bind]
  rcases q.run w c with ⟨e | a, d⟩ <;> rfl

theorem run_during (s : Search) (q : Query α) :
    (during s q).run w c =
      ((q.run w { c with active := c.active ++ [s] }).1,
        { (q.run w { c with active := c.active ++ [s] }).2 with
          active := (q.run w { c with active := c.active ++ [s] }).2.active.filter (· != s) }) :=
  rfl

end Runs

/-- A query that learns `r` and leaves what can be learnt as it is. -/
structure Yields (w : World) (c : Context) (q : Query α) (r : Except Failure α) : Prop where
  result : (q.run w c).1 = r
  scene : (q.run w c).2.scene w = c.scene w
  active : (q.run w c).2.active = c.active

namespace Yields

variable {q : Query α} {f : α → Query β} {r : Except Failure α} {g : α → Except Failure β}

theorem of_run (h : q.run w c = (r, d)) (hs : d.scene w = c.scene w) (ha : d.active = c.active) :
    Yields w c q r := by
  constructor
  · rw [h]
  · rw [h]
    exact hs
  · rw [h]
    exact ha

theorem run_eq (h : Yields w c q r) :
    ∃ d, q.run w c = (r, d) ∧ d.scene w = c.scene w ∧ d.active = c.active :=
  ⟨_, Prod.ext h.result rfl, h.scene, h.active⟩

protected theorem pure (a : α) : Yields w c (pure a) (.ok a) := ⟨rfl, rfl, rfl⟩

theorem bind (hq : Yields w c q r)
    (hf : ∀ a d, r = .ok a → d.scene w = c.scene w → Yields w d (f a) (g a)) :
    Yields w c (q >>= f) (r.bind g) := by
  obtain ⟨d, hrun, hs, ha⟩ := hq.run_eq
  cases r with
  | error e => exact .of_run (run_bind_error hrun) hs ha
  | ok a =>
    obtain ⟨d', hrun', hs', ha'⟩ := (hf a d rfl hs).run_eq
    refine .of_run ?_ (hs'.trans hs) (ha'.trans ha)
    rw [run_bind_ok hrun, hrun']
    rfl

theorem map (f : α → β) (hq : Yields w c q r) : Yields w c (do return f (← q)) (r.map f) := by
  have h := hq.bind (f := fun a => pure (f a)) (g := fun a => .ok (f a)) fun a _ _ _ => .pure _
  cases r <;> exact h

end Yields

/-- Only the log tells whether there was something to note. -/
theorem run_notes (messages : List String) :
    ∃ log, (messages.forM note).run w c = (.ok (), { c with log }) := by
  induction messages generalizing c with
  | nil => exact ⟨c.log, rfl⟩
  | cons message messages ih =>
    obtain ⟨log, h⟩ := ih (c := { c with log := c.log ++ [{ level := Level.debug, message }] })
    exact ⟨log, (run_bind_ok (run_note message)).trans h⟩

theorem run_openFile (path : String) : ∃ log, (openFile path).run w c =
    (w.workspace.bufferAt path, { c with opened := c.opened ++ [path], log }) := by
  rw [openFile, run_bind_ok (run_modify _), run_bind_ok run_read, run_bind, run_lift]
  cases w.workspace.bufferAt path with
  | error e => exact ⟨c.log, rfl⟩
  | ok b => exact ⟨_, rfl⟩

theorem run_buffer_of_some {b : Buffer} (h : (c.moduleOf m).buffer = some b) :
    (buffer m).run w c = (.ok b, c) := by
  rw [buffer, run_bind_ok run_moduleOf, h]
  rfl

theorem run_buffer_of_none (h : (c.moduleOf m).buffer = none) :
    ∃ log, (buffer m).run w c = match w.workspace.bufferAt (c.moduleOf m).path with
      | .ok b => (.ok b, Context.update
          { c with opened := c.opened ++ [(c.moduleOf m).path], log } m
          fun self => { self with buffer := some b })
      | .error e => (.error e, { c with opened := c.opened ++ [(c.moduleOf m).path], log }) := by
  obtain ⟨log, hopen⟩ := run_openFile (w := w) (c := c) (c.moduleOf m).path
  refine ⟨log, ?_⟩
  rw [buffer, run_bind_ok run_moduleOf, h]
  simp only [run_bind, hopen]
  cases w.workspace.bufferAt (c.moduleOf m).path with
  | error e => rfl
  | ok b => rfl

theorem run_parse (text : String) :
    ∃ log, (parse text).run w c = (.ok (parseProgram w.trees text), { c with log }) := by
  obtain ⟨log, h⟩ := run_notes (w := w) (c := c) (parseOutline w.trees text).notes
  refine ⟨log, ?_⟩
  rw [parse, run_bind_ok run_read, run_bind_ok h]
  rfl

theorem run_program_of_some {program : Option Node} (h : (c.moduleOf m).program = some program) :
    (Query.program m).run w c = (.ok program, c) := by
  rw [Query.program, run_bind_ok run_moduleOf, h]
  rfl

theorem run_program_of_error {e : Failure} (h : (c.moduleOf m).program = none)
    (hb : (buffer m).run w c = (.error e, d)) : (program m).run w c = (.error e, d) := by
  rw [program, run_bind_ok run_moduleOf, h]
  simp only [run_bind_error hb]

theorem run_program_of_buffer {b : Buffer} (h : (c.moduleOf m).program = none)
    (hb : (buffer m).run w c = (.ok b, d)) :
    ∃ log, (program m).run w c = (.ok (parseProgram w.trees b.text),
      { d.update m fun self => { self with program := some (parseProgram w.trees b.text) } with
        log }) := by
  obtain ⟨log, hparse⟩ := run_parse (w := w) (c := d) b.text
  rw [program, run_bind_ok run_moduleOf, h]
  simp only [run_bind_ok hb, run_bind_ok hparse, run_bind_ok (run_modify _)]
  cases (parseProgram w.trees b.text).isNone with
  | true => exact ⟨_, rfl⟩
  | false => exact ⟨_, rfl⟩

theorem buffer_yields (m : ModuleId) : Yields w c (buffer m) (c.viewOf w m).source := by
  cases hb : (c.moduleOf m).buffer with
  | some b =>
    have hsource : (c.viewOf w m).source = .ok b := by
      simp [Context.viewOf, Module.view, Module.source, hb]
    rw [hsource]
    exact .of_run (run_buffer_of_some hb) rfl rfl
  | none =>
    have hsource : (c.viewOf w m).source = w.workspace.bufferAt (c.moduleOf m).path := by
      simp [Context.viewOf, Module.view, Module.source, hb]
    obtain ⟨log, hrun⟩ := run_buffer_of_none (w := w) hb
    rw [hsource]
    cases hopen : w.workspace.bufferAt (c.moduleOf m).path with
    | error e =>
      rw [hopen] at hrun
      exact .of_run hrun rfl rfl
    | ok b =>
      rw [hopen] at hrun
      exact .of_run hrun (Context.scene_update (Module.view_with_buffer (hsource.trans hopen))) rfl

theorem program_yields (m : ModuleId) : Yields w c (program m) (c.viewOf w m).tree := by
  cases hp : (c.moduleOf m).program with
  | some program =>
    have htree : (c.viewOf w m).tree = .ok program := by
      simp [Context.viewOf, Module.view, Module.tree, hp]
    rw [htree]
    exact .of_run (run_program_of_some hp) rfl rfl
  | none =>
    have htree : (c.viewOf w m).tree =
        (c.viewOf w m).source.map fun b => parseProgram w.trees b.text := by
      simp [Context.viewOf, Module.view, Module.tree, hp]
    obtain ⟨d, hbuffer, hscene, hactive⟩ := (buffer_yields (w := w) (c := c) m).run_eq
    rw [htree]
    cases hsource : (c.viewOf w m).source with
    | error e =>
      rw [hsource] at hbuffer
      exact .of_run (run_program_of_error hp hbuffer) hscene hactive
    | ok b =>
      rw [hsource] at hbuffer
      obtain ⟨log, hrun⟩ := run_program_of_buffer hp hbuffer
      have hparsed : (d.viewOf w m).tree = .ok (parseProgram w.trees b.text) := by
        rw [Context.viewOf_congr hscene, htree, hsource]
        rfl
      exact .of_run hrun ((Context.scene_update (Module.view_with_program hparsed)).trans hscene)
        hactive

theorem statements_yields (m : ModuleId) :
    Yields w c (statements m) (c.viewOf w m).statements :=
  (program_yields m).map _

theorem imports_yields (m : ModuleId) : Yields w c (imports m)
    ((c.viewOf w m).statements.map fun found => importsOf (found.getD [])) :=
  (statements_yields m).map _

end Query

end SolidityServer
