import SolidityServer.Proofs.NormalPaths
import SolidityServer.Proofs.OpenedFiles

/-! Runs of a query in two worlds. A query learns of the world by the project, the parser, whether
files exist, and the buffers at the paths of its modules. The path of a module is the queried one or
the target of one of its imports, so it is in normal form, and two worlds that agree so far cannot
be told apart. -/

namespace SolidityServer

namespace Path

/-- A path from the root in normal form. -/
def IsCanonical (p : String) : Prop := isAbsolute p ∧ IsNormal p

end Path

/-- Two worlds that differ in the buffers at other paths only. -/
structure World.Twins (w w' : World) : Prop where
  project : w'.project = w.project
  trees : w'.trees = w.trees
  isFile : ∀ path, w'.workspace.disk.isFile path = w.workspace.disk.isFile path
  bufferAt : ∀ path, Path.IsCanonical path →
    w'.workspace.bufferAt path = w.workspace.bufferAt path
  nowhere : w'.workspace.bufferAt "" = w.workspace.bufferAt ""

/-- A query on the buffer `b`, which is its first module. -/
structure Context.Tidy (trees : Trees) (b : Buffer) (c : Context) : Prop where
  paths : ∀ m, (c.moduleOf m).path = "" ∨ Path.IsCanonical (c.moduleOf m).path
  size : 0 < c.modules.size
  importer : Path.isAbsolute (c.moduleOf 0).path
  buffer : (c.moduleOf 0).buffer = some b
  program : ∀ program, (c.moduleOf 0).program = some program → program = parseProgram trees b.text

theorem Context.tidy_start {b : Buffer} {path : String} (hpath : b.path = some path)
    (hcanonical : Path.IsCanonical path) (trees : Trees) : (Context.start b).Tidy trees b := by
  have hmodule : (Context.start b).moduleOf 0 = { path, buffer := some b } := by
    change ({ path := Path.normalize (b.path.getD ""), buffer := some b } : Module) = _
    rw [hpath, Option.getD_some, hcanonical.2]
  constructor
  · intro m
    cases m with
    | zero =>
      rw [hmodule]
      exact .inr hcanonical
    | succ m => exact .inl rfl
  · exact Nat.zero_lt_one
  · rw [hmodule]
    exact hcanonical.1
  · rw [hmodule]
  · rw [hmodule]
    exact nofun

namespace Context.Tidy

variable {trees : Trees} {b : Buffer} {c d : Context} {m : ModuleId}

theorem of_modules (h : c.Tidy trees b) (hmodules : d.modules = c.modules) : d.Tidy trees b := by
  have hmodule : ∀ m, d.moduleOf m = c.moduleOf m := fun m => by rw [moduleOf, moduleOf, hmodules]
  constructor
  · intro m
    rw [hmodule]
    exact h.paths m
  · rw [hmodules]
    exact h.size
  · rw [hmodule]
    exact h.importer
  · rw [hmodule]
    exact h.buffer
  · rw [hmodule]
    exact h.program

theorem update (h : c.Tidy trees b) {f : Module → Module}
    (hpath : ∀ self, (f self).path = self.path)
    (hbuffer : m = 0 → ∀ self, self.buffer = some b → (f self).buffer = some b)
    (hprogram : m = 0 → ∀ self : Module, ∀ program,
      (∀ program, self.program = some program → program = parseProgram trees b.text) →
      (f self).program = some program → program = parseProgram trees b.text) :
    (c.update m f).Tidy trees b := by
  have hpaths : ∀ k, ((c.update m f).moduleOf k).path = (c.moduleOf k).path := by
    intro k
    rw [moduleOf_update]
    split
    · exact hpath _
    · rfl
  constructor
  · intro k
    rw [hpaths]
    exact h.paths k
  · rw [Context.update, Array.size_modify]
    exact h.size
  · rw [hpaths]
    exact h.importer
  · rw [moduleOf_update]
    split
    next hm => exact hbuffer hm.1 _ h.buffer
    next => exact h.buffer
  · intro program
    rw [moduleOf_update]
    split
    next hm => exact hprogram hm.1 _ program h.program
    next => exact h.program program

theorem add (h : c.Tidy trees b) {path : String} (hpath : Path.IsCanonical path) :
    (c.add { path }).2.Tidy trees b := by
  have hold : ∀ k < c.modules.size, (c.add { path }).2.moduleOf k = c.moduleOf k := by
    intro k hk
    simp only [moduleOf, Context.add, Array.getD_eq_getD_getElem?, Array.getElem?_push]
    rw [if_neg (Nat.ne_of_lt hk)]
  have hpaths : ∀ k, ((c.add { path }).2.moduleOf k).path = "" ∨
      Path.IsCanonical ((c.add { path }).2.moduleOf k).path := by
    intro k
    by_cases hk : k < c.modules.size
    · rw [hold k hk]
      exact h.paths k
    · simp only [moduleOf, Context.add, Array.getD_eq_getD_getElem?, Array.getElem?_push]
      by_cases heq : k = c.modules.size
      · rw [if_pos heq]
        exact .inr hpath
      · rw [if_neg heq, Array.getElem?_eq_none (Nat.le_of_not_lt hk)]
        exact .inl rfl
  refine ⟨hpaths, ?_, ?_, ?_, ?_⟩
  · simp [Context.add]
  · rw [hold 0 h.size]
    exact h.importer
  · rw [hold 0 h.size]
    exact h.buffer
  · rw [hold 0 h.size]
    exact h.program

end Context.Tidy

namespace Query

/-- A query that runs alike in both worlds. -/
def Unison {α : Type} (w w' : World) (b : Buffer) (q : Query α) (post : α → Prop) : Prop :=
  ∀ c, c.Tidy w.trees b → q.run w' c = q.run w c ∧ (q.run w c).2.Tidy w.trees b ∧
    ∀ a, (q.run w c).1 = .ok a → post a

namespace Unison

variable {α β : Type} {w w' : World} {b : Buffer} {q : Query α} {f : α → Query β}
  {post : α → Prop} {post' : β → Prop}

theorem run_eq {c : Context} (hq : Unison w w' b q fun _ => True) (hc : c.Tidy w.trees b) :
    q.run w' c = q.run w c := (hq c hc).1

protected theorem pure {a : α} (h : post a) : Unison w w' b (pure a) post := by
  intro c hc
  refine ⟨rfl, hc, fun a' ha' => ?_⟩
  cases ha'
  exact h

theorem bind (hq : Unison w w' b q post) (hf : ∀ a, post a → Unison w w' b (f a) post') :
    Unison w w' b (q >>= f) post' := by
  intro c hc
  obtain ⟨hrun, htidy, hpost⟩ := hq c hc
  rw [run_bind, run_bind, hrun]
  rcases hfirst : q.run w c with ⟨r, d⟩
  rw [hfirst] at htidy hpost
  cases r with
  | error e => exact ⟨rfl, htidy, nofun⟩
  | ok a => exact hf a (hpost a rfl) d htidy

theorem mono (hq : Unison w w' b q post) {weaker : α → Prop} (h : ∀ a, post a → weaker a) :
    Unison w w' b q weaker := by
  intro c hc
  obtain ⟨hrun, htidy, hpost⟩ := hq c hc
  exact ⟨hrun, htidy, fun a ha => h a (hpost a ha)⟩

theorem any (hq : Unison w w' b q post) : Unison w w' b q fun _ => True :=
  hq.mono fun _ _ => trivial

theorem of_run (hrun : ∀ c, q.run w' c = q.run w c)
    (hmodules : ∀ c, (q.run w c).2.modules = c.modules) : Unison w w' b q fun _ => True :=
  fun c hc => ⟨hrun c, hc.of_modules (hmodules c), fun _ _ => trivial⟩

/-- A query that looks at what the worlds have in common. -/
theorem read {g : World → Query β} (hg : g w' = g w) (h : Unison w w' b (g w) post') :
    Unison w w' b (MonadReader.read >>= g) post' := by
  intro c hc
  rw [run_bind_ok run_read, run_bind_ok run_read, hg]
  exact h c hc

theorem modify {g : Context → Context}
    (h : ∀ c : Context, c.Tidy w.trees b → (g c).Tidy w.trees b) :
    Unison w w' b (modify g) fun _ => True :=
  fun c hc => ⟨rfl, h c hc, fun _ _ => trivial⟩

theorem attempt (hq : Unison w w' b q post) : Unison w w' b (attempt q) fun _ => True := by
  intro c hc
  obtain ⟨hrun, htidy, -⟩ := hq c hc
  rw [run_attempt, run_attempt, hrun]
  exact ⟨rfl, htidy, fun _ _ => trivial⟩

theorem during (hq : Unison w w' b q post) (s : Search) : Unison w w' b (during s q) post := by
  intro c hc
  obtain ⟨hrun, htidy, hpost⟩ := hq { c with active := c.active ++ [s] } (hc.of_modules rfl)
  rw [run_during, run_during, hrun]
  exact ⟨rfl, htidy.of_modules rfl, hpost⟩

theorem mapM {g : β → Query α} {l : List β} (h : ∀ x ∈ l, Unison w w' b (g x) fun _ => True) :
    Unison w w' b (l.mapM g) fun _ => True := by
  induction l with
  | nil => exact .pure trivial
  | cons x l ih =>
    rw [List.mapM_cons]
    refine (h x List.mem_cons_self).bind fun first _ => ?_
    refine (ih fun y hy => h y (List.mem_cons_of_mem x hy)).bind fun rest _ => ?_
    exact .pure trivial

theorem note (message : String) : Unison w w' b (note message) fun _ => True :=
  of_run (fun _ => rfl) fun _ => rfl

theorem notes (messages : List String) :
    Unison w w' b (messages.forM Query.note) fun _ => True := by
  induction messages with
  | nil => exact .pure trivial
  | cons message messages ih => exact (note message).bind fun _ _ => ih

theorem get : Unison w w' b MonadState.get fun _ => True := of_run (fun _ => rfl) fun _ => rfl

theorem lift (r : Except Failure α) : Unison w w' b (lift r) fun _ => True := by
  refine of_run (fun c => ?_) fun c => ?_
  · rw [run_lift, run_lift]
  · rw [run_lift]

theorem moduleOf (m : ModuleId) : Unison w w' b (moduleOf m) fun self =>
    (self.path = "" ∨ Path.IsCanonical self.path) ∧ (m = 0 → Path.isAbsolute self.path) := by
  intro c hc
  refine ⟨rfl, hc, fun self hself => ?_⟩
  cases hself
  refine ⟨hc.paths m, ?_⟩
  rintro rfl
  exact hc.importer

end Unison

section Twins

variable {w w' : World} {b : Buffer} {m : ModuleId} {importer specifier : String} {path : String}
  (h : w.Twins w')
include h

theorem isFile_unison (path : String) : Unison w w' b (isFile path) fun _ => True := by
  refine .of_run (fun c => ?_) fun c => ?_
  · rw [run_isFile, run_isFile, h.isFile]
  · rw [run_isFile]

theorem openFile_unison (hpath : path = "" ∨ Path.IsCanonical path) :
    Unison w w' b (openFile path) fun _ => True := by
  have hbuffer : w'.workspace.bufferAt path = w.workspace.bufferAt path := by
    rcases hpath with rfl | hpath
    · exact h.nowhere
    · exact h.bufferAt path hpath
  unfold openFile
  refine Unison.bind (Unison.modify fun c hc => hc.of_modules rfl) fun _ _ => ?_
  refine .read (by rw [hbuffer]) ?_
  exact (Unison.lift _).bind fun opened _ => (Unison.note _).bind fun _ _ => .pure trivial

theorem buffer_unison (m : ModuleId) :
    Unison w w' b (buffer m) fun found => m = 0 → found = b := by
  intro c hc
  cases hb : (c.moduleOf m).buffer with
  | some found =>
    rw [run_buffer_of_some hb, run_buffer_of_some hb]
    refine ⟨rfl, hc, fun opened hopened => ?_⟩
    cases hopened
    rintro rfl
    exact Option.some.inj (hb.symm.trans hc.buffer)
  | none =>
    -- the queried buffer is there from the beginning
    have hm : m ≠ 0 := by
      rintro rfl
      cases hb.symm.trans hc.buffer
    rw [buffer, run_bind_ok run_moduleOf, run_bind_ok run_moduleOf, hb]
    refine (Unison.bind (openFile_unison h (hc.paths m)) fun opened _ => ?_) c hc
    refine (Unison.modify fun d hd => ?_).bind fun _ _ => .pure fun heq => absurd heq hm
    refine hd.update (fun _ => rfl) (fun heq => absurd heq hm) fun heq => absurd heq hm

theorem parse_unison (text : String) :
    Unison w w' b (parse text) fun program => program = parseProgram w.trees text := by
  refine .read (by rw [h.trees]) ?_
  exact (Unison.notes _).bind fun _ _ => .pure rfl

theorem program_unison (m : ModuleId) : Unison w w' b (program m) fun program =>
    m = 0 → program = parseProgram w.trees b.text := by
  intro c hc
  cases hp : (c.moduleOf m).program with
  | some found =>
    rw [run_program_of_some hp, run_program_of_some hp]
    refine ⟨rfl, hc, fun program hprogram => ?_⟩
    cases hprogram
    rintro rfl
    exact hc.program _ hp
  | none =>
    rw [program, run_bind_ok run_moduleOf, run_bind_ok run_moduleOf, hp]
    refine (Unison.bind (buffer_unison h m) fun found hfound => ?_) c hc
    refine (parse_unison h found.text).bind fun program hprogram => ?_
    have hown : m = 0 → program = parseProgram w.trees b.text := by
      intro hm
      rw [hprogram, hfound hm]
    refine (Unison.modify fun d hd => ?_).bind fun _ _ => ?_
    · refine hd.update (fun _ => rfl) (fun _ _ => id) fun hm _ program' _ hprogram' => ?_
      cases hprogram'
      exact hown hm
    · dsimp only
      split
      · exact (Unison.moduleOf m).bind fun _ _ => (Unison.note _).bind fun _ _ => .pure hown
      · exact .pure hown

theorem statements_unison (m : ModuleId) : Unison w w' b (statements m) fun found =>
    m = 0 → found = (parseProgram w.trees b.text).map fun n => (n.get .body).nodes := by
  refine (program_unison h m).bind fun program hprogram => .pure fun hm => ?_
  rw [hprogram hm]

theorem imports_unison : Unison w w' b (imports 0) fun specifiers => specifiers =
    importsOf (((parseProgram w.trees b.text).map fun n => (n.get .body).nodes).getD []) :=
  (statements_unison h 0).bind fun found hfound => .pure (by rw [hfound rfl])

theorem load_unison (hroot : Path.isAbsolute w.project.root) (himporter : Path.isAbsolute importer)
    (hspecifier : Path.isAbsolute specifier → Path.IsNormal specifier) :
    Unison w w' b (load specifier importer) fun _ => True := by
  have htarget : Path.IsCanonical (w.project.importTarget specifier importer) :=
    ⟨Project.isAbsolute_importTarget hroot himporter, Project.isNormal_importTarget hspecifier⟩
  intro c hc
  have hrun : (load specifier importer).run w' c = (load specifier importer).run w c := by
    rw [load, run_bind_ok run_read, run_bind_ok run_read, h.project, run_bind_ok run_get,
      run_bind_ok run_get]
    cases c.known? (w.project.importTarget specifier importer) with
    | some m => rfl
    | none =>
      simp only [run_bind, run_isFile, h.isFile]
      rcases w.workspace.disk.isFile _ with e | isFile
      · rfl
      · cases isFile <;> rfl
  obtain ⟨r, d, hload, hloads⟩ := load_run (w := w) (c := c) specifier importer
  rw [hrun, hload]
  refine ⟨rfl, ?_, fun _ _ => trivial⟩
  cases hloads with
  | known => exact hc
  | failed => exact hc
  | missing => exact hc.of_modules rfl
  | added => exact hc.add htarget

theorem declaration_unison (m : ModuleId) (statements : List Node) (n : Node) :
    Unison w w' b (declaration m statements n) fun _ => True :=
  (buffer_unison h m).bind fun _ _ => .pure trivial

theorem members_unison (modules : List ModuleId) (extract : Node → List Node) :
    Unison w w' b (members modules extract) fun _ => True := by
  refine Unison.bind (.mapM fun m _ => ?_) fun _ _ => .pure trivial
  refine (statements_unison h m).bind fun found _ => ?_
  dsimp only
  split
  · exact .pure trivial
  · exact (buffer_unison h m).bind fun _ _ => .pure trivial

theorem resolveSimpleType_unison (m : ModuleId) (statements : List Node) (name : Option String)
    (start : Int) (modules : List ModuleId) (fileLevel : Bool) :
    Unison w w' b (resolveSimpleType m statements name start modules fileLevel) fun _ => True := by
  unfold resolveSimpleType
  split
  · exact (buffer_unison h m).bind fun _ _ => .pure trivial
  · exact members_unison h _ _

theorem resolveImport_unison (n : Node) : Unison w w' b (resolveImport b n) fun _ => True := by
  refine .read (by rw [h.project]) ?_
  refine (isFile_unison h _).bind fun isFile _ => ?_
  cases isFile with
  | false => exact (Unison.note _).bind fun _ _ => .pure trivial
  | true =>
    simp only [if_true]
    split
    · exact .of_run (fun _ => rfl) fun _ => rfl
    · exact .pure trivial

end Twins

section Imports

variable {w w' : World} {b : Buffer} (h : w.Twins w') (hroot : Path.isAbsolute w.project.root)
  (hspecifiers : ∀ program, parseProgram w.trees b.text = some program →
    ∀ specifier ∈ importsOf (program.get .body).nodes,
      Path.isAbsolute specifier → Path.IsNormal specifier)
include h hroot

theorem searchImports_unison {importer : String} (himporter : Path.isAbsolute importer)
    (name : Option String) (kind : Kind) (visited : List String) {specifiers : List String}
    (hspecifiers : ∀ specifier ∈ specifiers, Path.isAbsolute specifier → Path.IsNormal specifier) :
    Unison w w' b (searchImports importer name kind visited specifiers) fun _ => True := by
  induction specifiers generalizing visited with
  | nil => exact .pure trivial
  | cons specifier specifiers ih =>
    have hrest := fun visited => ih visited fun other hother =>
      hspecifiers other (List.mem_cons_of_mem specifier hother)
    have hload := load_unison (b := b) h hroot himporter (hspecifiers specifier List.mem_cons_self)
    rw [searchImports]
    refine hload.bind fun found _ => ?_
    cases found with
    | none => exact hrest visited
    | some m =>
      refine (Unison.moduleOf m).bind fun self _ => ?_
      dsimp only
      split
      · exact hrest visited
      · refine (statements_unison h m).bind fun found _ => ?_
        cases found with
        | none => exact hrest _
        | some found =>
          dsimp only
          split
          · exact hrest _
          · exact (declaration_unison h m _ _).bind fun _ _ => .pure trivial

omit h hroot in
include hspecifiers in
theorem specifier_normal {specifiers : List String} (hown : specifiers =
    importsOf (((parseProgram w.trees b.text).map fun n => (n.get .body).nodes).getD [])) :
    ∀ specifier ∈ specifiers, Path.isAbsolute specifier → Path.IsNormal specifier := by
  cases hprogram : parseProgram w.trees b.text with
  | none =>
    rw [hprogram] at hown
    subst hown
    exact nofun
  | some program =>
    rw [hprogram] at hown
    subst hown
    exact hspecifiers program hprogram

include hspecifiers

theorem directImport_unison (name : Option String) (kind : Kind) :
    Unison w w' b (directImport 0 name kind) fun _ => True := by
  refine (statements_unison h 0).bind fun found _ => ?_
  dsimp only
  split
  · exact declaration_unison h 0 _ _
  · refine (Unison.moduleOf 0).bind fun self hself => ?_
    refine Unison.get.bind fun c _ => ?_
    split
    · exact (Unison.note _).bind fun _ _ => .pure trivial
    · have hsearch := (imports_unison h).bind fun specifiers hown =>
        searchImports_unison h hroot (hself.2 rfl) name kind [self.path]
          (specifier_normal hspecifiers hown)
      exact (hsearch.during _).bind fun _ _ => .pure trivial

theorem moduleSet_unison : Unison w w' b (moduleSet 0) fun _ => True := by
  refine (Unison.moduleOf 0).bind fun self hself => ?_
  refine (imports_unison h).bind fun specifiers hown => ?_
  refine Unison.bind (.mapM fun specifier hmem => ?_) fun loads _ => ?_
  · exact (load_unison h hroot (hself.2 rfl)
      (specifier_normal hspecifiers hown specifier hmem)).attempt
  · refine Unison.bind (.mapM fun r _ => .lift r) fun found _ => ?_
    exact Unison.get.bind fun c _ => .pure trivial

theorem resolveTop_unison (name : Option String) (kinds : List Kind) :
    Unison w w' b (resolveTop 0 name kinds) fun _ => True := by
  induction kinds with
  | nil => exact .pure trivial
  | cons kind kinds ih =>
    refine (directImport_unison h hroot hspecifiers name kind).bind fun found _ => ?_
    split
    · exact .pure trivial
    · exact ih

theorem resolveType_unison (statements : List Node) (ref : TypeRef) (modules : List ModuleId) :
    Unison w w' b (resolveType 0 statements ref modules true) fun _ => True := by
  have howned : ∀ (member : String) (found : DirectImport),
      Unison w w' b (ownedType modules member found) fun _ => True := by
    intro member found
    unfold ownedType
    split
    · exact .pure trivial
    · exact resolveSimpleType_unison h _ _ _ _ _ _
  unfold resolveType
  split
  · exact resolveSimpleType_unison h _ _ _ _ _ _
  next member _ _ =>
    refine (directImport_unison h hroot hspecifiers ref.name .contract).bind fun asContract _ => ?_
    by_cases hnode : asContract.node.isSome
    · simp only [hnode, if_true]
      exact howned member asContract
    · simp only [hnode]
      exact (directImport_unison h hroot hspecifiers ref.name .library).bind fun found _ =>
        howned member found

theorem resolve_unison (statements : List Node) (modules : List ModuleId) (ref : Reference) :
    Unison w w' b (resolve 0 statements modules ref) fun _ => True := by
  cases ref with
  | nothing => exact .pure trivial
  | ancestor name | library name => exact resolveTop_unison h hroot hspecifiers name _
  | type ref => exact resolveType_unison h hroot hspecifiers statements ref modules
  | callee name => exact members_unison h _ _
  | «variable» name => exact members_unison h _ _
  | member name =>
    refine (members_unison h modules _).bind fun found _ => ?_
    exact (members_unison h modules _).bind fun _ _ => .pure trivial

theorem run_definition_twin {path : String} (hpath : b.path = some path)
    (hcanonical : Path.IsCanonical path) (offset : Int) :
    (definition b offset).run w' {} = (definition b offset).run w {} := by
  have htidy : (Context.start b).Tidy w.trees b := Context.tidy_start hpath hcanonical w.trees
  rw [definition, run_bind_ok (run_ofBuffer w' b), run_bind_ok (run_ofBuffer w b)]
  refine Unison.run_eq (Unison.bind (statements_unison h 0) fun found _ => ?_) htidy
  cases found with
  | none => exact (Unison.note _).bind fun _ _ => .pure trivial
  | some statements =>
    dsimp only
    split
    · exact .pure trivial
    · split
      · exact resolveImport_unison h _
      · split
        · exact (moduleSet_unison h hroot hspecifiers).bind fun modules _ =>
            resolve_unison h hroot hspecifiers statements modules _
        · exact .pure trivial

end Imports

end Query

end SolidityServer
