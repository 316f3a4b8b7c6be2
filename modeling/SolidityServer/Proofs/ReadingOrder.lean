import Mathlib.Data.List.Infix
import SolidityServer.Proofs.DirectImport

/-! The order in which a query opens files. Every search of a query goes through the module set from
its beginning, so the modules that are open are always the first ones of the set. -/

namespace SolidityServer

namespace Context

variable {w : World} {c d e : Context} {m : ModuleId}

def isOpen (c : Context) (m : ModuleId) : Bool := (c.moduleOf m).buffer.isSome

/-- Only open modules are parsed. -/
def Sound (c : Context) : Prop := ∀ m, (c.moduleOf m).program.isSome → c.isOpen m

theorem moduleOf_update (c : Context) (m : ModuleId) (f : Module → Module) (k : ModuleId) :
    (c.update m f).moduleOf k =
      if m = k ∧ k < c.modules.size then f (c.moduleOf k) else c.moduleOf k := by
  simp only [moduleOf, update, Array.getD_eq_getD_getElem?, Array.getElem?_modify]
  by_cases hk : k < c.modules.size
  · by_cases hm : m = k
    · simp [hm, hk]
    · simp [hm]
  · have hnone : c.modules[k]? = none := Array.getElem?_eq_none (Nat.le_of_not_lt hk)
    by_cases hm : m = k
    · simp [hm, hk]
    · simp [hm]

theorem moduleOf_add (c : Context) (path : String) (k : ModuleId) :
    ((c.add { path }).2.moduleOf k).buffer = (c.moduleOf k).buffer ∧
      ((c.add { path }).2.moduleOf k).program = (c.moduleOf k).program := by
  simp only [moduleOf, add, Array.getD_eq_getD_getElem?, Array.getElem?_push]
  by_cases hk : k = c.modules.size
  · have hnone : c.modules[k]? = none := Array.getElem?_eq_none (Nat.le_of_eq hk.symm)
    simp [hk]
    exact ⟨rfl, rfl⟩
  · simp [hk]

theorem isOpen_update_buffer {b : Buffer} (hm : m < c.modules.size) (k : ModuleId) :
    (c.update m fun self => { self with buffer := some b }).isOpen k =
      (c.isOpen k || decide (k = m)) := by
  rw [isOpen, moduleOf_update]
  by_cases hk : k = m
  · subst hk
    simp [hm]
  · have hmk : ¬(m = k ∧ k < c.modules.size) := fun h => hk h.1.symm
    simp [hmk, hk, isOpen]

theorem Sound.update_buffer {b : Buffer} (hs : c.Sound) (hm : m < c.modules.size) :
    (c.update m fun self => { self with buffer := some b }).Sound := by
  intro k hk
  rw [isOpen_update_buffer hm]
  rw [moduleOf_update] at hk
  by_cases hmk : m = k ∧ k < c.modules.size
  · simp [hmk.1]
  · rw [if_neg hmk] at hk
    simp [hs k hk]

/-- No file was asked for. -/
structure Untouched (c d : Context) : Prop where
  opened : d.opened = c.opened
  isOpen : ∀ k, d.isOpen k = c.isOpen k
  sound : c.Sound → d.Sound

namespace Untouched

protected theorem rfl : c.Untouched c := ⟨rfl, fun _ => rfl, id⟩

theorem trans (h : c.Untouched d) (h' : d.Untouched e) : c.Untouched e where
  opened := h'.opened.trans h.opened
  isOpen k := (h'.isOpen k).trans (h.isOpen k)
  sound hs := h'.sound (h.sound hs)

end Untouched

theorem untouched_parsed (h : c.isOpen m) (program : Option Node) (log : List Record) :
    c.Untouched { c.update m (fun self => { self with program := some program }) with log } where
  opened := rfl
  isOpen k := by
    change ((c.update m _).moduleOf k).buffer.isSome = _
    rw [moduleOf_update]
    split
    · rfl
    · rfl
  sound hs k hk := by
    change ((c.update m _).moduleOf k).program.isSome at hk
    change ((c.update m _).moduleOf k).buffer.isSome
    rw [moduleOf_update] at hk ⊢
    by_cases hmk : m = k ∧ k < c.modules.size
    · rw [if_pos hmk]
      exact hmk.1 ▸ h
    · rw [if_neg hmk] at hk ⊢
      exact hs k hk

end Context

namespace Query

variable {α β : Type} {w : World} {c d : Context} {m k : ModuleId} {path : String}

theorem Loads.untouched {r : Except Failure (Option ModuleId)} (h : Loads w c path r d) :
    c.Untouched d := by
  cases h with
  | known | failed => exact .rfl
  | missing => exact ⟨rfl, fun _ => rfl, id⟩
  | added =>
    have hmodule := c.moduleOf_add path
    have hopen : ∀ k, (c.add { path }).2.isOpen k = c.isOpen k := fun k =>
      congrArg Option.isSome (hmodule k).1
    refine ⟨rfl, hopen, fun hs k hk => ?_⟩
    rw [(hmodule k).2] at hk
    rw [hopen]
    exact hs k hk

theorem program_of_open (h : c.isOpen m) : c.Untouched ((program m).run w c).2 := by
  obtain ⟨b, hb⟩ := Option.isSome_iff_exists.mp h
  cases hp : (c.moduleOf m).program with
  | some program =>
    rw [run_program_of_some hp]
    exact .rfl
  | none =>
    obtain ⟨log, hrun⟩ := run_program_of_buffer hp (run_buffer_of_some (w := w) hb)
    rw [hrun]
    exact Context.untouched_parsed h _ log

/-- The first reading of a module asks for its file. -/
theorem program_of_closed (hs : c.Sound) (hm : m < c.modules.size) (h : c.isOpen m = false) :
    ((program m).run w c).2.opened = c.opened ++ [(c.moduleOf m).path] ∧
      ∀ program, ((Query.program m).run w c).1 = .ok program →
        ((Query.program m).run w c).2.Sound ∧
        ∀ k, ((Query.program m).run w c).2.isOpen k = (c.isOpen k || decide (k = m)) := by
  have hb : (c.moduleOf m).buffer = none := by simpa [Context.isOpen] using h
  have hp : (c.moduleOf m).program = none := by
    cases hp : (c.moduleOf m).program with
    | none => rfl
    | some program =>
      have hopen := hs m (by simp [hp])
      simp [h] at hopen
  obtain ⟨log, hbuffer⟩ := run_buffer_of_none (w := w) hb
  cases hread : w.workspace.bufferAt (c.moduleOf m).path with
  | error e =>
    rw [hread] at hbuffer
    rw [run_program_of_error hp hbuffer]
    exact ⟨rfl, fun program hprogram => by cases hprogram⟩
  | ok b =>
    rw [hread] at hbuffer
    obtain ⟨log', hrun⟩ := run_program_of_buffer hp hbuffer
    let asked : Context := { c with opened := c.opened ++ [(c.moduleOf m).path], log }
    have hasked : ∀ k, (asked.update m fun self => { self with buffer := some b }).isOpen k =
        (c.isOpen k || decide (k = m)) := Context.isOpen_update_buffer (c := asked) hm
    have hsound := Context.Sound.update_buffer (c := asked) (b := b) hs hm
    have hopen : (asked.update m fun self => { self with buffer := some b }).isOpen m := by
      simp [hasked]
    have hparsed := Context.untouched_parsed hopen (parseProgram w.trees b.text) log'
    rw [hrun]
    exact ⟨rfl, fun _ _ => ⟨hparsed.sound hsound, fun k => (hparsed.isOpen k).trans (hasked k)⟩⟩

theorem run_statements (m : ModuleId) : (statements m).run w c =
    (((program m).run w c).1.map (Option.map fun n => (n.get .body).nodes),
      ((program m).run w c).2) := by
  rw [statements, run_bind]
  rcases (program m).run w c with ⟨e | program, c'⟩ <;> rfl

/-- How far a query has come: of the imports in `rest`, those in `done` are open, and only their
files were asked for. -/
structure Stage (w : World) (d : Context) (m : ModuleId) (rest done : List ModuleId) (c : Context) :
    Prop where
  scene : c.scene w = d.scene w
  sound : c.Sound
  first : c.isOpen m
  front : done <+: rest
  isOpen : ∀ k ∈ rest, c.isOpen k ↔ k ∈ done
  opened : c.opened = done.map fun k => (d.moduleOf k).path

variable {rest done : List ModuleId}

namespace Stage

theorem untouched {c' : Context} (h : Stage w d m rest done c) (hs : c'.scene w = c.scene w)
    (hu : c.Untouched c') : Stage w d m rest done c' where
  scene := hs.trans h.scene
  sound := hu.sound h.sound
  first := (hu.isOpen m).trans h.first
  front := h.front
  isOpen k hk := by rw [hu.isOpen, h.isOpen k hk]
  opened := hu.opened.trans h.opened

theorem isOpen_of_mem (h : Stage w d m rest done c) (hk : k ∈ m :: done) : c.isOpen k := by
  rcases List.mem_cons.mp hk with rfl | hk
  · exact h.first
  · exact (h.isOpen k (h.front.subset hk)).mpr hk

theorem opened_front (h : Stage w d m rest done c) :
    c.opened <+: rest.map fun k => (d.moduleOf k).path := by
  rw [h.opened]
  exact h.front.map _

theorem opened_next (h : Stage w d m rest done c) (k : ModuleId) :
    c.opened ++ [(c.moduleOf k).path] = (done ++ [k]).map fun j => (d.moduleOf j).path := by
  have hpath : (c.moduleOf k).path = (d.moduleOf k).path :=
    congrArg Module.View.path (Context.viewOf_congr h.scene k)
  rw [h.opened, hpath, List.map_append]
  rfl

theorem next {c' : Context} (h : Stage w d m rest done c) (hfront : done ++ [k] <+: rest)
    (hs : c'.scene w = c.scene w) (hsound : c'.Sound)
    (hopened : c'.opened = c.opened ++ [(c.moduleOf k).path])
    (hopen : ∀ j, c'.isOpen j = (c.isOpen j || decide (j = k))) :
    Stage w d m rest (done ++ [k]) c' where
  scene := hs.trans h.scene
  sound := hsound
  first := by simp [hopen, h.first]
  front := hfront
  isOpen j hj := by simp [hopen, h.isOpen j hj]
  opened := hopened.trans (h.opened_next k)

theorem closed (h : Stage w d m rest done c) (hk : k ∈ rest) (hnew : k ∉ done) :
    c.isOpen k = false := by
  rw [← Bool.not_eq_true, h.isOpen k hk]
  exact hnew

end Stage

/-- How a query can end: at a stage with what it has found, or with a failure, the files in order
even then. -/
def Ends (w : World) (d : Context) (m : ModuleId) (rest : List ModuleId)
    (post : α → List ModuleId → Prop) : Except Failure α × Context → Prop
  | (.ok a, c) => ∃ done, Stage w d m rest done c ∧ post a done
  | (.error _, c) => c.opened <+: rest.map fun k => (d.moduleOf k).path

theorem Ends.opened_front {post : α → List ModuleId → Prop} {outcome : Except Failure α × Context}
    (h : Ends w d m rest post outcome) :
    outcome.2.opened <+: rest.map fun k => (d.moduleOf k).path := by
  obtain ⟨e | a, c⟩ := outcome
  · exact h
  · obtain ⟨done, hstage, -⟩ := h
    exact hstage.opened_front

def Walks (w : World) (d : Context) (m : ModuleId) (rest : List ModuleId)
    (pre : List ModuleId → Prop) (q : Query α) (post : α → List ModuleId → Prop) : Prop :=
  ∀ c done, Stage w d m rest done c → pre done → Ends w d m rest post (q.run w c)

namespace Walks

variable {pre pre' : List ModuleId → Prop} {q : Query α} {f : α → Query β}
  {mid post : α → List ModuleId → Prop} {goal : β → List ModuleId → Prop}

protected theorem pure {a : α} (h : ∀ done, pre done → post a done) :
    Walks w d m rest pre (pure a) post :=
  fun _ done hstage hpre => ⟨done, hstage, h done hpre⟩

theorem bind (hq : Walks w d m rest pre q mid)
    (hf : ∀ a, Walks w d m rest (mid a) (f a) goal) : Walks w d m rest pre (q >>= f) goal := by
  intro c done hstage hpre
  have h := hq c done hstage hpre
  rcases hrun : q.run w c with ⟨e | a, c'⟩
  · rw [hrun] at h
    rw [run_bind_error hrun]
    exact h
  · rw [hrun] at h
    obtain ⟨done', hstage', hmid⟩ := h
    rw [run_bind_ok hrun]
    exact hf a c' done' hstage' hmid

theorem mono (hq : Walks w d m rest pre q mid) (hpre : ∀ done, pre' done → pre done)
    (hpost : ∀ a done, mid a done → post a done) : Walks w d m rest pre' q post := by
  intro c done hstage hpre'
  have h := hq c done hstage (hpre done hpre')
  rcases hrun : q.run w c with ⟨e | a, c'⟩
  · rw [hrun] at h
    exact h
  · rw [hrun] at h
    obtain ⟨done', hstage', ha⟩ := h
    exact ⟨done', hstage', hpost a done' ha⟩

/-- What holds whenever the query is reached can be assumed of it. -/
theorem assuming {fact : Prop} (h : fact → Walks w d m rest pre q post) :
    Walks w d m rest (fun done => fact ∧ pre done) q post :=
  fun c done hstage hpre => h hpre.1 c done hstage hpre.2

theorem of_untouched {learnt : α → Prop}
    (h : ∀ c done, Stage w d m rest done c → pre done →
      (q.run w c).2.scene w = c.scene w ∧ c.Untouched (q.run w c).2 ∧
        ∀ a, (q.run w c).1 = .ok a → learnt a) :
    Walks w d m rest pre q fun a done => learnt a ∧ pre done := by
  intro c done hstage hpre
  obtain ⟨hscene, huntouched, hlearnt⟩ := h c done hstage hpre
  have hstage' := hstage.untouched hscene huntouched
  rcases hrun : q.run w c with ⟨e | a, c'⟩
  · rw [hrun] at hstage'
    exact hstage'.opened_front
  · rw [hrun] at hstage' hlearnt
    exact ⟨done, hstage', hlearnt a rfl, hpre⟩

end Walks

theorem note_walks {pre : List ModuleId → Prop} (message : String) :
    Walks w d m rest pre (note message) fun _ => pre :=
  fun _ done hstage hpre => ⟨done, hstage.untouched rfl ⟨rfl, fun _ => rfl, id⟩, hpre⟩

theorem get_walks {pre : List ModuleId → Prop} :
    Walks w d m rest pre (get : Query Context) fun _ => pre :=
  fun _ done hstage hpre => ⟨done, hstage, hpre⟩

/-- Searches that are active decide nothing about files. -/
theorem during_walks {pre : List ModuleId → Prop} {q : Query α} {post : α → List ModuleId → Prop}
    (s : Search) (hq : Walks w d m rest pre q post) : Walks w d m rest pre (during s q) post := by
  intro c done hstage hpre
  have h := hq { c with active := c.active ++ [s] } done
    (hstage.untouched rfl ⟨rfl, fun _ => rfl, id⟩) hpre
  rw [run_during]
  rcases hrun : q.run w { c with active := c.active ++ [s] } with ⟨e | a, c'⟩
  · rw [hrun] at h
    exact h
  · rw [hrun] at h
    obtain ⟨done', hstage', ha⟩ := h
    exact ⟨done', hstage'.untouched rfl ⟨rfl, fun _ => rfl, id⟩, ha⟩

theorem buffer_walks {pre : List ModuleId → Prop} (hk : ∀ done, pre done → k ∈ m :: done) :
    Walks w d m rest pre (buffer k) fun b done => (d.viewOf w k).source = .ok b ∧ pre done := by
  refine .of_untouched fun c done hstage hpre => ?_
  have hyields := buffer_yields (w := w) (c := c) k
  obtain ⟨b, hb⟩ := Option.isSome_iff_exists.mp (hstage.isOpen_of_mem (hk done hpre))
  refine ⟨hyields.scene, ?_, fun a ha => ?_⟩
  · rw [run_buffer_of_some hb]
    exact .rfl
  · rw [← Context.viewOf_congr hstage.scene, ← hyields.result, ha]

theorem openStatements_walks {pre : List ModuleId → Prop} (hk : ∀ done, pre done → k ∈ m :: done) :
    Walks w d m rest pre (statements k) fun found done =>
      (d.viewOf w k).statements = .ok found ∧ pre done := by
  refine .of_untouched fun c done hstage hpre => ?_
  have hyields := statements_yields (w := w) (c := c) k
  refine ⟨hyields.scene, ?_, fun a ha => ?_⟩
  · rw [run_statements]
    exact program_of_open (hstage.isOpen_of_mem (hk done hpre))
  · rw [← Context.viewOf_congr hstage.scene, ← hyields.result, ha]

/-- What is open ends before the next module, or includes it. -/
theorem next_or_open {before after : List ModuleId} (hfront : done <+: before ++ k :: after)
    (hbefore : before <+: done) : done = before ∨ before ++ [k] <+: done := by
  obtain ⟨more, rfl⟩ := hbefore
  rw [List.prefix_append_right_inj] at hfront
  cases more with
  | nil => exact .inl (List.append_nil before)
  | cons j more =>
    obtain ⟨rfl, -⟩ := List.cons_prefix_cons.mp hfront
    exact .inr ((List.prefix_append_right_inj before).mpr (by simp))

/-- Reading the module after those that are open. -/
theorem nextStatements_walks {before after : List ModuleId} (hrest : rest = before ++ k :: after)
    (hnodup : rest.Nodup) (hsize : k < d.modules.size) :
    Walks w d m rest (before <+: ·) (statements k) fun found done =>
      (d.viewOf w k).statements = .ok found ∧ before ++ [k] <+: done := by
  intro c done hstage hbefore
  -- either this module comes next, or an earlier search has opened it already
  rcases next_or_open (hrest ▸ hstage.front) hbefore with rfl | hopen
  · have hnew : k ∉ done := by
      rw [hrest, List.nodup_append] at hnodup
      exact fun hmem => hnodup.2.2 k hmem k (by simp) rfl
    have hsize' : k < c.modules.size := by
      rwa [← Context.size_eq w c, hstage.scene, Context.size_eq]
    have hfront : done ++ [k] <+: rest := by simp [hrest]
    obtain ⟨hopened, hopen⟩ := program_of_closed (w := w) hstage.sound hsize'
      (hstage.closed (by simp [hrest]) hnew)
    have hyields := program_yields (w := w) (c := c) k
    rw [run_statements]
    rcases hrun : (program k).run w c with ⟨e | program, c'⟩
    · rw [hrun] at hopened
      change c'.opened <+: _
      rw [hopened, hstage.opened_next]
      exact hfront.map _
    · have hresult := hyields.result
      have hscene := hyields.scene
      rw [hrun] at hopened hopen hresult hscene
      obtain ⟨hsound, hisOpen⟩ := hopen program rfl
      refine ⟨done ++ [k], hstage.next hfront hscene hsound hopened hisOpen, ?_, List.prefix_refl _⟩
      rw [Context.viewOf_congr hstage.scene] at hresult
      rw [Module.View.statements, ← hresult]
      rfl
  · have hk : ∀ done, before ++ [k] <+: done → k ∈ m :: done := fun done hdone =>
      List.mem_cons_of_mem m (hdone.subset (by simp))
    exact openStatements_walks hk c done hstage hopen

/-- The locations of what `extract` picks from one module. -/
def scan (extract : Node → List Node) (m : ModuleId) : Query (List Location) := do
  let scopes := ((← statements m).getD []).filter (memberScopes.contains ·.kind)
  match scopes.flatMap extract with
  | [] => return []
  | picked =>
    let b ← buffer m
    return picked.map (Location.ofNode b)

theorem members_eq (modules : List ModuleId) (extract : Node → List Node) :
    members modules extract =
      (do return Location.unique (← modules.mapM (scan extract)).flatten) := rfl

/-- A location of something that `extract` picks from a module. -/
def PickedFrom (w : World) (d : Context) (extract : Node → List Node) (modules : List ModuleId)
    (l : Location) : Prop :=
  ∃ k ∈ modules, ∃ found b scope n, (d.viewOf w k).statements = .ok (some found) ∧
    (d.viewOf w k).source = .ok b ∧ scope ∈ found ∧ scope.kind ∈ memberScopes ∧
    n ∈ extract scope ∧ l = .ofNode b n

theorem pickedFrom_of_scan {extract : Node → List Node} {found : Option (List Node)} {b : Buffer}
    (hfound : (d.viewOf w k).statements = .ok found) (hb : (d.viewOf w k).source = .ok b)
    {l : Location}
    (hl : l ∈ (((found.getD []).filter (memberScopes.contains ·.kind)).flatMap extract).map
      (Location.ofNode b)) : PickedFrom w d extract [k] l := by
  obtain ⟨n, hpicked, rfl⟩ := List.mem_map.mp hl
  obtain ⟨scope, hscope, hn⟩ := List.mem_flatMap.mp hpicked
  obtain ⟨hmem, hkind⟩ := List.mem_filter.mp hscope
  cases found with
  | none => simp at hmem
  | some found =>
    exact ⟨k, by simp, found, b, scope, n, hfound, hb, hmem, by simpa using hkind, hn, rfl⟩

/-- What is left of a scan once the statements are read. -/
theorem scan_walks {extract : Node → List Node} {pre post : List ModuleId → Prop}
    (hread : Walks w d m rest pre (statements k) fun found done =>
      (d.viewOf w k).statements = .ok found ∧ post done)
    (hk : ∀ done, post done → k ∈ m :: done) :
    Walks w d m rest pre (scan extract k) fun ls done =>
      (∀ l ∈ ls, PickedFrom w d extract [k] l) ∧ post done := by
  refine hread.bind fun found => Walks.assuming fun hfound => ?_
  dsimp only
  split
  · exact .pure fun done hdone => ⟨by simp, hdone⟩
  · refine (buffer_walks hk).bind fun b => Walks.assuming fun hb => .pure fun done hdone => ?_
    exact ⟨fun l hl => pickedFrom_of_scan hfound hb hl, hdone⟩

theorem PickedFrom.mono {extract : Node → List Node} {modules modules' : List ModuleId}
    {l : Location} (h : PickedFrom w d extract modules l) (hsub : modules ⊆ modules') :
    PickedFrom w d extract modules' l := by
  obtain ⟨j, hj, hpicked⟩ := h
  exact ⟨j, hsub hj, hpicked⟩

/-- Scanning the modules one after the other, from where the ones before are open. -/
theorem scans_walk {extract : Node → List Node} (hnodup : rest.Nodup)
    (hsize : ∀ k ∈ rest, k < d.modules.size) (before : List ModuleId) {after : List ModuleId}
    (hrest : rest = before ++ after) :
    Walks w d m rest (before <+: ·) (after.mapM (scan extract)) fun found _ =>
      ∀ l ∈ found.flatten, PickedFrom w d extract rest l := by
  induction after generalizing before with
  | nil => exact .pure fun done _ => by simp
  | cons k after ih =>
    have hk : k ∈ rest := by simp [hrest]
    rw [List.mapM_cons]
    refine (scan_walks (nextStatements_walks hrest hnodup (hsize k hk)) fun done hdone =>
      List.mem_cons_of_mem m (hdone.subset (by simp))).bind fun ls => Walks.assuming fun hls => ?_
    refine (ih (before ++ [k]) (by simp [hrest])).bind fun found => ?_
    refine .pure fun done hfound l hl => ?_
    rw [List.flatten_cons] at hl
    rcases List.mem_append.mp hl with hl | hl
    · exact (hls l hl).mono (by simpa using hk)
    · exact hfound l hl

theorem mem_of_mem_unique {ls : List Location} {l : Location} (h : l ∈ Location.unique ls) :
    l ∈ ls := by
  induction ls with
  | nil => exact h
  | cons first ls ih =>
    rw [Location.unique] at h
    rcases List.mem_cons.mp h with rfl | h
    · exact List.mem_cons_self
    · exact List.mem_cons_of_mem first (ih (List.mem_filter.mp h).1)

theorem members_walk {extract : Node → List Node} (hnodup : rest.Nodup)
    (hsize : ∀ k ∈ rest, k < d.modules.size) :
    Walks w d m rest (fun _ => True) (members (m :: rest) extract) fun ls _ =>
      ∀ l ∈ ls, PickedFrom w d extract (m :: rest) l := by
  have hself : Walks w d m rest (fun _ => True) (scan extract m) fun ls _ =>
      (∀ l ∈ ls, PickedFrom w d extract [m] l) ∧ True :=
    scan_walks (openStatements_walks fun _ _ => List.mem_cons_self) fun _ _ => List.mem_cons_self
  have hscans : Walks w d m rest (fun _ => True) ((m :: rest).mapM (scan extract)) fun found _ =>
      ∀ l ∈ found.flatten, PickedFrom w d extract (m :: rest) l := by
    rw [List.mapM_cons]
    refine hself.bind fun ls => Walks.assuming fun hls => ?_
    refine ((scans_walk hnodup hsize [] rfl).mono (fun done _ => List.nil_prefix)
      fun _ _ h => h).bind fun found => .pure fun done hfound l hl => ?_
    rw [List.flatten_cons] at hl
    rcases List.mem_append.mp hl with hl | hl
    · exact (hls l hl).mono (by simp)
    · exact (hfound l hl).mono (List.subset_cons_self m rest)
  rw [members_eq]
  exact hscans.bind fun found => .pure fun done hfound l hl => hfound l (mem_of_mem_unique hl)

/-- A declaration that was looked up, in a module that is open by now; or none. -/
inductive LookedUp (w : World) (d : Context) (m : ModuleId) (done : List ModuleId)
    (name : Option String) : DirectImport → Prop
  | missing (owner : ModuleId) (statements : List Node) : LookedUp w d m done name
      { owner, statements }
  | found {owner : ModuleId} {statements : List Node} {n : Node} {b : Buffer}
      (hopen : owner ∈ m :: done)
      (hstatements : (d.viewOf w owner).statements = .ok (some statements))
      (hb : (d.viewOf w owner).source = .ok b) (hn : n ∈ statements) (hname : n.name? = name) :
      LookedUp w d m done name
        { owner, statements, node := some n, location := some (.ofNode b n) }

variable {name : Option String} {kind : Kind}

theorem mem_of_findStatement {statements : List Node} {n : Node}
    (h : findStatement statements name kind = some n) : n ∈ statements ∧ n.name? = name := by
  have hfound := List.find?_some h
  simp only [Bool.and_eq_true, beq_iff_eq] at hfound
  exact ⟨List.mem_of_find?_eq_some h, hfound.2⟩

theorem declaration_walks {pre : List ModuleId → Prop} {found : Option (List Node)} {n : Node}
    (hfound : (d.viewOf w k).statements = .ok found)
    (hn : findStatement (found.getD []) name kind = some n)
    (hk : ∀ done, pre done → k ∈ m :: done) :
    Walks w d m rest pre (declaration k (found.getD []) n) fun x done =>
      LookedUp w d m done name x := by
  refine (buffer_walks hk).bind fun b => Walks.assuming fun hb => .pure fun done hdone => ?_
  obtain ⟨hmem, hname⟩ := mem_of_findStatement hn
  cases found with
  | none => simp at hmem
  | some found => exact .found (hk done hdone) hfound hb hmem hname

theorem load_walks {pre : List ModuleId → Prop} {specifier importer : String} {r : Option ModuleId}
    (hr : Settled w d importer specifier r) :
    Walks w d m rest pre (load specifier importer) fun r' done => r' = r ∧ pre done := by
  refine .of_untouched fun c done hstage hpre => ?_
  obtain ⟨c', hrun, hscene⟩ := load_of_settled (hr.grows (.of_scene hstage.scene))
  rw [hrun]
  refine ⟨hscene, (loads_of_run hrun).untouched, fun a ha => ?_⟩
  cases ha
  rfl

theorem moduleOf_walks {pre : List ModuleId → Prop} (k : ModuleId) :
    Walks w d m rest pre (moduleOf k) fun self done =>
      self.path = (d.moduleOf k).path ∧ pre done := by
  refine .of_untouched fun c done hstage hpre => ⟨rfl, .rfl, fun self hself => ?_⟩
  cases hself
  exact congrArg Module.View.path (Context.viewOf_congr hstage.scene k)

theorem searchImports_walks {importer : String} {specifiers : List String}
    {found : List (Option ModuleId)} {visited : List String} {before : List ModuleId}
    (hnodup : rest.Nodup) (hsize : ∀ k ∈ rest, k < d.modules.size)
    (hsettled : List.Forall₂ (Settled w d importer) specifiers found)
    (hrest : rest = before ++ distinct d visited (found.filterMap id)) :
    Walks w d m rest (before <+: ·) (searchImports importer name kind visited specifiers)
      fun x done => ∀ y, x = some y → LookedUp w d m done name y := by
  induction hsettled generalizing visited before with
  | nil => exact .pure fun done _ y hy => by cases hy
  | @cons specifier r specifiers found hr hsettled ih =>
    rw [searchImports]
    refine (load_walks hr).bind fun r' => Walks.assuming fun hr' => ?_
    subst hr'
    cases r' with
    | none => exact ih hrest
    | some k =>
      refine (moduleOf_walks k).bind fun self => Walks.assuming fun hpath => ?_
      have hcons : (some k :: found).filterMap id = k :: found.filterMap id :=
        List.filterMap_cons_some rfl
      rw [hcons, distinct] at hrest
      dsimp only
      rw [hpath]
      by_cases hvisited : visited.contains (d.moduleOf k).path
      · rw [if_pos hvisited] at hrest ⊢
        exact ih hrest
      · rw [if_neg hvisited] at hrest ⊢
        have hk : k ∈ rest := by simp [hrest]
        have hopen : ∀ done, before ++ [k] <+: done → k ∈ m :: done := fun done hdone =>
          List.mem_cons_of_mem m (hdone.subset (by simp))
        have hrest' : rest = (before ++ [k]) ++
            distinct d ((d.moduleOf k).path :: visited) (found.filterMap id) := by
          rw [hrest, List.append_assoc, List.singleton_append]
        have hgoOn := ih hrest'
        refine (nextStatements_walks hrest hnodup (hsize k hk)).bind fun found =>
          Walks.assuming fun hfound => ?_
        cases found with
        | none => exact hgoOn
        | some found =>
          dsimp only
          cases hn : findStatement found name kind with
          | none => exact hgoOn
          | some n =>
            refine (declaration_walks hfound hn hopen).bind fun x => .pure fun done hx y hy => ?_
            cases hy
            exact hx

theorem directImport_walks (h : Ready w m (m :: rest) d d) (hnodup : rest.Nodup)
    (hsize : ∀ k ∈ rest, k < d.modules.size) (name : Option String) (kind : Kind) :
    Walks w d m rest (fun _ => True) (directImport m name kind) fun x done =>
      LookedUp w d m done name x := by
  obtain ⟨-, own, found, hown, hsettled, hmodules⟩ := h.settled
  have hself : ∀ {P : List ModuleId → Prop} done, P done → m ∈ m :: done :=
    fun _ _ => List.mem_cons_self
  refine (openStatements_walks hself).bind fun own' => Walks.assuming fun hown' => ?_
  rw [hown, Except.ok.injEq] at hown'
  subst hown'
  dsimp only
  cases hn : findStatement (own.getD []) name kind with
  | some n => exact declaration_walks hown hn hself
  | none =>
    have hrest : rest = distinct d [(d.moduleOf m).path] (found.filterMap id) :=
      (List.cons.inj hmodules).2
    have himports : Walks w d m rest (fun _ => True) (imports m) fun specifiers done =>
        specifiers = importsOf (own.getD []) ∧ [] <+: done := by
      refine (openStatements_walks hself).bind fun own' => Walks.assuming fun hown' => ?_
      rw [hown, Except.ok.injEq] at hown'
      exact .pure fun done _ => ⟨hown' ▸ rfl, List.nil_prefix⟩
    refine (moduleOf_walks m).bind fun self => Walks.assuming fun hpath => ?_
    refine get_walks.bind fun c => ?_
    rw [hpath]
    split
    · exact (note_walks _).bind fun _ => .pure fun done _ => .missing m _
    · refine (during_walks _ (himports.bind fun specifiers => Walks.assuming fun hspecifiers =>
        hspecifiers ▸ searchImports_walks hnodup hsize hsettled hrest)).bind fun x => ?_
      refine .pure fun done hx => ?_
      cases x with
      | none => exact .missing m _
      | some y => exact hx y rfl

end Query

end SolidityServer
