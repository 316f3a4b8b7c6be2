import Mathlib.Data.List.Forall2
import SolidityServer.Proofs.ModuleView

/-! The module set of a query. Loading an import adds at most one module and forgets none, and what
an import was found to mean it means for the rest of the query. -/

namespace SolidityServer

namespace Context

variable {w : World} {c d e : Context}

/-- Only modules of files are added, and none is replaced. -/
structure Grows (w : World) (c d : Context) : Prop where
  views : (c.scene w).1 <+: (d.scene w).1
  kept : ∀ path m, c.known? path = some m → d.known? path = some m
  gained : ∀ path m, d.known? path = some m →
    c.known? path = some m ∨ w.workspace.disk.isFile path = .ok true

theorem known?_congr (h : d.scene w = c.scene w) (path : String) :
    d.known? path = c.known? path := by
  rw [known?, known?, known_congr h]

namespace Grows

theorem of_scene (h : d.scene w = c.scene w) : c.Grows w d where
  views := h ▸ List.prefix_refl _
  kept path m hm := by rw [known?_congr h, hm]
  gained path m hm := .inl (by rw [← known?_congr h, hm])

theorem trans (h : c.Grows w d) (h' : d.Grows w e) : c.Grows w e where
  views := h.views.trans h'.views
  kept path m hm := h'.kept path m (h.kept path m hm)
  gained path m hm := by
    rcases h'.gained path m hm with hd | hf
    · exact h.gained path m hd
    · exact .inr hf

theorem viewOf (h : c.Grows w d) {m : ModuleId} (hm : m < c.modules.size) :
    d.viewOf w m = c.viewOf w m := by
  have hlt : m < (c.scene w).1.length := by rwa [size_eq]
  rw [viewOf_eq_getD, viewOf_eq_getD, List.getElem?_eq_getElem hlt,
    List.getElem?_eq_getElem (Nat.lt_of_lt_of_le hlt h.views.length_le)]
  exact congrArg (Option.getD · _) (congrArg some (h.views.getElem hlt).symm)

end Grows

/-- No number stands for a module that is not there. -/
def Valid (c : Context) : Prop := ∀ path m, c.known? path = some m → m < c.modules.size

theorem Valid.of_scene (hv : c.Valid) (h : d.scene w = c.scene w) : d.Valid := by
  intro path m hm
  rw [← size_eq w d, h, size_eq]
  exact hv path m (by rw [← known?_congr h, hm])

theorem known_add {path : String} (h : c.known? path = none) :
    (c.add { path }).2.known = (path, c.modules.size) :: c.known := by
  have hkeys : ∀ entry ∈ c.known, entry.1 ≠ path := by
    intro entry hentry heq
    have hlookup := List.lookup_eq_none_iff.mp h entry hentry
    simp [heq] at hlookup
  have hfilter : c.known.filter (·.1 != path) = c.known := by
    refine List.filter_eq_self.mpr fun entry hentry => ?_
    simpa using hkeys entry hentry
  exact congrArg (_ :: ·) hfilter

theorem scene_add {path : String} (h : c.known? path = none) :
    (c.add { path }).2.scene w = ((c.scene w).1 ++ [Module.view w { path }],
      (path, (c.scene w).1.length) :: (c.scene w).2) := by
  refine Prod.ext ?_ ?_
  · simp [scene, add]
  · rw [size_eq]
    exact known_add h

theorem known?_add {path : String} (h : c.known? path = none) (p : String) :
    (c.add { path }).2.known? p = if p = path then some c.modules.size else c.known? p := by
  rw [known?, known_add h, List.lookup_cons]
  by_cases hp : p = path
  · simp [hp]
  · have hbeq : (p == path) = false := by simpa using hp
    simp only [hbeq, hp, if_false, known?]

theorem grows_add {path : String} (h : c.known? path = none)
    (hf : w.workspace.disk.isFile path = .ok true) : c.Grows w (c.add { path }).2 where
  views := by
    rw [scene_add h]
    exact List.prefix_append _ _
  kept p m hm := by
    have hne : p ≠ path := fun heq => by simp [heq, h] at hm
    rw [known?_add h, if_neg hne, hm]
  gained p m hm := by
    rw [known?_add h] at hm
    by_cases hp : p = path
    · exact .inr (hp ▸ hf)
    · rw [if_neg hp] at hm
      exact .inl hm

theorem Valid.add {path : String} (hv : c.Valid) (h : c.known? path = none) :
    (c.add { path }).2.Valid := by
  intro p m hm
  have hsize : (c.add { path }).2.modules.size = c.modules.size + 1 := by simp [Context.add]
  rw [known?_add h] at hm
  rw [hsize]
  by_cases hp : p = path
  · rw [if_pos hp, Option.some.injEq] at hm
    exact hm ▸ Nat.lt_succ_self _
  · rw [if_neg hp] at hm
    exact Nat.lt_succ_of_lt (hv p m hm)

/-- The context of a query that has only taken up a document. -/
def start (b : Buffer) : Context :=
  (Context.add {} { path := Path.normalize (b.path.getD ""), buffer := some b }).2

theorem known?_start {b : Buffer} {path : String} {m : ModuleId}
    (h : (start b).known? path = some m) : path = Path.normalize (b.path.getD "") ∧ m = 0 := by
  change List.lookup path [(Path.normalize (b.path.getD ""), 0)] = some m at h
  rw [List.lookup_cons] at h
  by_cases hpath : path = Path.normalize (b.path.getD "")
  · simp only [hpath, beq_self_eq_true, Option.some.injEq] at h
    exact ⟨hpath, h.symm⟩
  · have hbeq : (path == Path.normalize (b.path.getD "")) = false := by simpa using hpath
    simp [hbeq] at h

theorem valid_start (b : Buffer) : (start b).Valid := by
  intro path m hm
  obtain ⟨-, rfl⟩ := known?_start hm
  exact Nat.zero_lt_one

end Context

namespace Query

variable {w : World} {c c' d e : Context} {m : ModuleId} {specifier importer path : String}
  {specifiers : List String} {found : List (Option ModuleId)}

theorem run_ofBuffer (w : World) (b : Buffer) : (ofBuffer b).run w {} = (.ok 0, .start b) := rfl

/-- What loading the module of a path can do. -/
inductive Loads (w : World) (c : Context) (path : String) :
    Except Failure (Option ModuleId) → Context → Prop
  | known {k : ModuleId} (h : c.known? path = some k) : Loads w c path (.ok (some k)) c
  | failed {e : Failure} (h : c.known? path = none) (hf : w.workspace.disk.isFile path = .error e) :
      Loads w c path (.error e) c
  | added (h : c.known? path = none) (hf : w.workspace.disk.isFile path = .ok true) :
      Loads w c path (.ok (some c.modules.size)) (c.add { path }).2
  | missing (h : c.known? path = none) (hf : w.workspace.disk.isFile path = .ok false)
      (log : List Record) : Loads w c path (.ok none) { c with log }

theorem load_run (specifier importer : String) :
    ∃ r d, (load specifier importer).run w c = (r, d) ∧
      Loads w c (w.project.importTarget specifier importer) r d := by
  generalize hpath : w.project.importTarget specifier importer = path
  rw [load, run_bind_ok run_read, hpath, run_bind_ok run_get]
  cases hk : c.known? path with
  | some k => exact ⟨_, _, rfl, .known hk⟩
  | none =>
    have hregister : c.register path = c.add { path } := by rw [Context.register, hk]
    simp only [run_bind, run_isFile]
    cases hf : w.workspace.disk.isFile path with
    | error e => exact ⟨_, _, rfl, .failed hk hf⟩
    | ok isFile =>
      cases isFile with
      | false => exact ⟨_, _, rfl, .missing hk hf _⟩
      | true =>
        simp only [if_true, run_bind, run_get, hregister]
        exact ⟨_, _, rfl, .added hk hf⟩

namespace Loads

variable {r r' : Except Failure (Option ModuleId)}

theorem grows (h : Loads w c path r d) : c.Grows w d := by
  cases h with
  | known | failed | missing => exact .of_scene rfl
  | added h hf => exact Context.grows_add h hf

theorem active (h : Loads w c path r d) : d.active = c.active := by
  cases h with
  | known | failed | added | missing => rfl

theorem valid (h : Loads w c path r d) (hv : c.Valid) : d.Valid := by
  cases h with
  | known | failed | missing => exact hv
  | added h hf => exact hv.add h

theorem lt_size (h : Loads w c path (.ok (some m)) d) (hv : c.Valid) : m < d.modules.size := by
  cases h with
  | known h => exact hv path m h
  | added h hf => simp [Context.add]

/-- Loading goes by the scene alone. -/
theorem congr (hs : c'.scene w = c.scene w) {d' : Context} (h : Loads w c path r d)
    (h' : Loads w c' path r' d') : r' = r ∧ d'.scene w = d.scene w := by
  have hknown := Context.known?_congr hs path
  have hsize : c'.modules.size = c.modules.size := by
    rw [← Context.size_eq w c', ← Context.size_eq w c, hs]
  cases h with
  | known h =>
    cases h' with
    | known h' =>
      rw [hknown, h] at h'
      cases h'
      exact ⟨rfl, hs⟩
    | failed h' | added h' | missing h' => simp [hknown, h] at h'
  | failed h hf =>
    cases h' with
    | known h' => simp [hknown, h] at h'
    | failed h' hf' =>
      rw [hf] at hf'
      cases hf'
      exact ⟨rfl, hs⟩
    | added h' hf' | missing h' hf' => simp [hf] at hf'
  | added h hf =>
    cases h' with
    | known h' => simp [hknown, h] at h'
    | failed h' hf' | missing h' hf' => simp [hf] at hf'
    | added h' hf' =>
      rw [Context.scene_add h, Context.scene_add h', hs, hsize]
      exact ⟨rfl, rfl⟩
  | missing h hf =>
    cases h' with
    | known h' => simp [hknown, h] at h'
    | failed h' hf' | added h' hf' => simp [hf] at hf'
    | missing h' hf' => exact ⟨rfl, hs⟩

end Loads

/-- What a query gives, and the scene it leaves, go by the scene alone. -/
def ByScene {α : Type} (w : World) (q : Query α) : Prop :=
  ∀ ⦃c c' : Context⦄, c'.scene w = c.scene w →
    (q.run w c').1 = (q.run w c).1 ∧ (q.run w c').2.scene w = (q.run w c).2.scene w

namespace ByScene

variable {α β : Type} {q : Query α} {f : α → Query β}

protected theorem pure (a : α) : ByScene w (pure a) := fun _ _ hs => ⟨rfl, hs⟩

theorem of_yields {f : Module.View → Except Failure α}
    (h : ∀ c, Yields w c q (f (c.viewOf w m))) : ByScene w q := by
  intro c c' hs
  rw [(h c).result, (h c').result, (h c).scene, (h c').scene, Context.viewOf_congr hs]
  exact ⟨rfl, hs⟩

theorem bind (hq : ByScene w q) (hf : ∀ a, ByScene w (f a)) : ByScene w (q >>= f) := by
  intro c c' hs
  obtain ⟨hresult, hscene⟩ := hq hs
  rcases hrun : q.run w c with ⟨r, d⟩
  rcases hrun' : q.run w c' with ⟨r', d'⟩
  rw [hrun, hrun'] at hresult hscene
  obtain rfl : r' = r := hresult
  cases r' with
  | error e =>
    rw [run_bind_error hrun, run_bind_error hrun']
    exact ⟨rfl, hscene⟩
  | ok a =>
    rw [run_bind_ok hrun, run_bind_ok hrun']
    exact hf a hscene

theorem mapM {f : α → Query β} (h : ∀ a, ByScene w (f a)) (as : List α) :
    ByScene w (as.mapM f) := by
  induction as with
  | nil => exact .pure []
  | cons a as ih =>
    rw [List.mapM_cons]
    exact (h a).bind fun b => ih.bind fun bs => .pure (b :: bs)

theorem attempt (h : ByScene w q) : ByScene w (attempt q) := by
  intro c c' hs
  obtain ⟨hresult, hscene⟩ := h hs
  rw [run_attempt, run_attempt, hresult]
  exact ⟨rfl, hscene⟩

theorem run_eq {r : Except Failure α} (h : ByScene w q) (hs : c'.scene w = c.scene w)
    (hrun : q.run w c = (r, d)) : ∃ d', q.run w c' = (r, d') ∧ d'.scene w = d.scene w := by
  obtain ⟨hresult, hscene⟩ := h hs
  rw [hrun] at hresult hscene
  exact ⟨(q.run w c').2, Prod.ext hresult rfl, hscene⟩

end ByScene

theorem load_byScene (specifier importer : String) : ByScene w (load specifier importer) := by
  intro c c' hs
  obtain ⟨r, d, hrun, hloads⟩ := load_run (w := w) (c := c) specifier importer
  obtain ⟨r', d', hrun', hloads'⟩ := load_run (w := w) (c := c') specifier importer
  rw [hrun, hrun']
  exact hloads.congr hs hloads'

theorem loads_of_run {r : Except Failure (Option ModuleId)}
    (h : (load specifier importer).run w c = (r, d)) :
    Loads w c (w.project.importTarget specifier importer) r d := by
  obtain ⟨r', d', hrun, hloads⟩ := load_run (w := w) (c := c) specifier importer
  rw [hrun] at h
  cases h
  exact hloads

/-- The modules of some specifiers, loaded one after the other. -/
def loadAll (importer : String) (specifiers : List String) : Query (List (Option ModuleId)) :=
  specifiers.mapM fun specifier => load specifier importer

theorem run_loadAll_cons {first : Option ModuleId} {rest : List (Option ModuleId)}
    (hfirst : (load specifier importer).run w c = (.ok first, c'))
    (hrest : (loadAll importer specifiers).run w c' = (.ok rest, d)) :
    (loadAll importer (specifier :: specifiers)).run w c = (.ok (first :: rest), d) := by
  rw [loadAll, List.mapM_cons, run_bind_ok hfirst]
  exact run_bind_ok hrest

theorem loadAll_cons_ok
    (h : (loadAll importer (specifier :: specifiers)).run w c = (.ok found, d)) :
    ∃ first c' rest, (load specifier importer).run w c = (.ok first, c') ∧
      (loadAll importer specifiers).run w c' = (.ok rest, d) ∧ found = first :: rest := by
  rw [loadAll, List.mapM_cons] at h
  obtain ⟨first, c', hfirst, h⟩ := run_bind_eq_ok h
  obtain ⟨rest, d', hrest, h⟩ := run_bind_eq_ok h
  cases h
  exact ⟨first, c', rest, hfirst, hrest, rfl⟩

/-- What every load keeps, loading all the specifiers keeps. -/
theorem loadAll_keeps {P : Context → Prop}
    (hstep : ∀ {c d path r}, Loads w c path r d → P c → P d)
    (h : (loadAll importer specifiers).run w c = (.ok found, d)) (hc : P c) : P d := by
  induction specifiers generalizing c found with
  | nil =>
    cases h
    exact hc
  | cons specifier specifiers ih =>
    obtain ⟨first, c', rest, hfirst, hrest, rfl⟩ := loadAll_cons_ok h
    exact ih hrest (hstep (loads_of_run hfirst) hc)

theorem loadAll_grows (h : (loadAll importer specifiers).run w c = (.ok found, d)) :
    c.Grows w d :=
  loadAll_keeps (P := (c.Grows w ·)) (fun hload hc => hc.trans hload.grows) h (.of_scene rfl)

theorem loadAll_active (h : (loadAll importer specifiers).run w c = (.ok found, d)) :
    d.active = c.active :=
  loadAll_keeps (P := (·.active = c.active)) (fun hload hc => hload.active.trans hc) h rfl

theorem loadAll_byScene (importer : String) (specifiers : List String) :
    ByScene w (loadAll importer specifiers) :=
  .mapM (fun specifier => load_byScene specifier importer) specifiers

/-- What a specifier was found to mean. -/
def Settled (w : World) (c : Context) (importer specifier : String) : Option ModuleId → Prop
  | some m => c.known? (w.project.importTarget specifier importer) = some m
  | none => c.known? (w.project.importTarget specifier importer) = none ∧
      w.workspace.disk.isFile (w.project.importTarget specifier importer) = .ok false

theorem Settled.grows {r : Option ModuleId} (h : Settled w c importer specifier r)
    (hg : c.Grows w d) : Settled w d importer specifier r := by
  cases r with
  | some m => exact hg.kept _ _ h
  | none =>
    obtain ⟨hk, hf⟩ := h
    refine ⟨?_, hf⟩
    cases hd : d.known? (w.project.importTarget specifier importer) with
    | none => rfl
    | some m =>
      rcases hg.gained _ _ hd with hc | htrue
      · simp [hk] at hc
      · simp [hf] at htrue

theorem load_settled {r : Option ModuleId}
    (h : (load specifier importer).run w c = (.ok r, d)) : Settled w d importer specifier r := by
  cases loads_of_run h with
  | known hk => exact hk
  | missing hk hf => exact ⟨hk, hf⟩
  | added hk hf =>
    change Context.known? _ _ = _
    rw [Context.known?_add hk, if_pos rfl]

theorem loadAll_settled (h : (loadAll importer specifiers).run w c = (.ok found, d)) :
    List.Forall₂ (Settled w d importer) specifiers found := by
  induction specifiers generalizing c found with
  | nil =>
    cases h
    exact .nil
  | cons specifier specifiers ih =>
    obtain ⟨first, c', rest, hfirst, hrest, rfl⟩ := loadAll_cons_ok h
    exact .cons ((load_settled hfirst).grows (loadAll_grows hrest)) (ih hrest)

theorem load_of_settled {r : Option ModuleId} (h : Settled w c importer specifier r) :
    ∃ d, (load specifier importer).run w c = (.ok r, d) ∧ d.scene w = c.scene w := by
  obtain ⟨r', d, hrun, hloads⟩ := load_run (w := w) (c := c) specifier importer
  refine ⟨d, ?_⟩
  cases r with
  | some m =>
    have hloads' := Loads.known (w := w) h
    obtain ⟨rfl, hd⟩ := hloads'.congr rfl hloads
    exact ⟨hrun, hd⟩
  | none =>
    have hloads' := Loads.missing h.1 h.2 c.log
    obtain ⟨rfl, hd⟩ := hloads'.congr rfl hloads
    exact ⟨hrun, hd⟩

/-- Specifiers that were loaded before are found again as they were. -/
theorem loadAll_of_settled (h : List.Forall₂ (Settled w c importer) specifiers found) :
    ∃ d, (loadAll importer specifiers).run w c = (.ok found, d) ∧ d.scene w = c.scene w := by
  induction specifiers generalizing c found with
  | nil =>
    cases h
    exact ⟨c, rfl, rfl⟩
  | cons specifier specifiers ih =>
    cases h with
    | cons hfirst hrest =>
      obtain ⟨c', hrun, hs⟩ := load_of_settled hfirst
      have hrest' := hrest.imp fun _ _ hr => hr.grows (.of_scene hs)
      obtain ⟨d, hrunAll, hd⟩ := ih hrest'
      exact ⟨d, run_loadAll_cons hrun hrunAll, hd.trans hs⟩

theorem loadAll_of_attempts {outcomes : List (Except Failure (Option ModuleId))}
    (h : (specifiers.mapM fun specifier => attempt (load specifier importer)).run w c =
      (.ok outcomes, d)) (hok : (outcomes.mapM lift).run w d = (.ok found, e)) :
    (loadAll importer specifiers).run w c = (.ok found, d) ∧ e = d := by
  induction specifiers generalizing c outcomes found with
  | nil =>
    cases h
    cases hok
    exact ⟨rfl, rfl⟩
  | cons specifier specifiers ih =>
    rw [List.mapM_cons] at h
    obtain ⟨outcome, c', hfirst, h⟩ := run_bind_eq_ok h
    obtain ⟨rest, d', hrest, h⟩ := run_bind_eq_ok h
    cases h
    rw [List.mapM_cons] at hok
    obtain ⟨first, e', hlift, hok⟩ := run_bind_eq_ok hok
    obtain ⟨others, e'', hothers, hok⟩ := run_bind_eq_ok hok
    cases hok
    rw [run_lift] at hlift
    cases hlift
    rw [run_attempt] at hfirst
    obtain ⟨hload, rfl⟩ := ih hrest hothers
    cases hrun : (load specifier importer).run w c with
    | mk r c₁ =>
      rw [hrun] at hfirst
      cases hfirst
      exact ⟨run_loadAll_cons hrun hload, rfl⟩

/-- The module set is what loading the imports one by one finds, each path once. -/
theorem moduleSet_eq_ok {modules : List ModuleId} (h : (moduleSet m).run w c = (.ok modules, d)) :
    ∃ own found c', (c.viewOf w m).statements = .ok own ∧
      c'.scene w = c.scene w ∧ c'.active = c.active ∧
      (loadAll (c.moduleOf m).path (importsOf (own.getD []))).run w c' = (.ok found, d) ∧
      modules = m :: distinct d [(c.moduleOf m).path] (found.filterMap id) := by
  rw [moduleSet, run_bind_ok run_moduleOf] at h
  obtain ⟨specifiers, c', himports, hloads⟩ := run_bind_eq_ok h
  obtain ⟨outcomes, d', hattempts, hfound⟩ := run_bind_eq_ok hloads
  obtain ⟨found, e, hlift, hdistinct⟩ := run_bind_eq_ok hfound
  obtain ⟨hload, rfl⟩ := loadAll_of_attempts hattempts hlift
  cases hdistinct
  obtain ⟨c₁, hrun, hscene, hactive⟩ := (imports_yields (w := w) (c := c) m).run_eq
  rw [himports, Prod.mk.injEq] at hrun
  obtain ⟨hspecifiers, rfl⟩ := hrun
  cases hown : (c.viewOf w m).statements with
  | error e => simp [hown, Except.map] at hspecifiers
  | ok own =>
    simp only [hown, Except.map, Except.ok.injEq] at hspecifiers
    exact ⟨own, found, c', rfl, hscene, hactive, hspecifiers ▸ hload, rfl⟩

theorem distinct_congr (h : d.scene w = c.scene w) (seen : List String) (modules : List ModuleId) :
    distinct d seen modules = distinct c seen modules := by
  have hpath : ∀ m, (d.moduleOf m).path = (c.moduleOf m).path := fun m =>
    congrArg Module.View.path (Context.viewOf_congr h m)
  induction modules generalizing seen with
  | nil => rfl
  | cons m modules ih => simp only [distinct, hpath, ih]

theorem moduleSet_byScene (m : ModuleId) : ByScene w (moduleSet m) := by
  intro c c' hs
  have hpath : (c'.moduleOf m).path = (c.moduleOf m).path :=
    congrArg Module.View.path (Context.viewOf_congr hs m)
  rw [moduleSet, run_bind_ok run_moduleOf, run_bind_ok run_moduleOf, hpath]
  generalize (c.moduleOf m).path = path
  have himports : ByScene w (imports m) :=
    .of_yields (f := fun view => view.statements.map fun found => importsOf (found.getD []))
      fun c => imports_yields m
  refine himports.bind (fun specifiers => ?_) hs
  refine (ByScene.mapM (fun specifier => (load_byScene specifier path).attempt) _).bind fun loads =>
    (ByScene.mapM ?_ loads).bind fun found d d' hd => ?_
  · intro r d d' hd
    rw [run_lift, run_lift]
    exact ⟨rfl, hd⟩
  · rw [run_bind_ok run_get, run_bind_ok run_get, distinct_congr hd]
    exact ⟨rfl, hd⟩

end Query

end SolidityServer
