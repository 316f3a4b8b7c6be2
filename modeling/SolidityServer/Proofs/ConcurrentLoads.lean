import SolidityServer.Proofs.OpenedFiles

/-! Imports that are loaded side by side. A load looks for a module that is known, asks the disk if
there is none, and registers one if there still is none; other loads go on while it waits for the
disk. In whatever order they do, the answers are those of loads one after the other. -/

namespace SolidityServer

namespace Query

/-- What is left of a load once the disk has answered. -/
def settle (specifier importer path : String) : Query (Option ModuleId) := do
  if ← isFile path then
    let (m, c) := (← get).register path
    set c
    return some m
  else
    note ("Import " ++ Text.quoted specifier ++ " from " ++ importer ++ " is not a file: " ++ path)
    return none

theorem run_load (w : World) (c : Context) (specifier importer : String) :
    (load specifier importer).run w c =
      match c.known? (w.project.importTarget specifier importer) with
      | some m => (.ok (some m), c)
      | none =>
        (settle specifier importer (w.project.importTarget specifier importer)).run w c := by
  rw [load, run_bind_ok run_read, run_bind_ok run_get]
  cases c.known? (w.project.importTarget specifier importer) with
  | some m => rfl
  | none => rfl

end Query

/-- Where a load stands: it has not begun, it waits for the disk, or it is over. -/
inductive LoadStage where
  | idle
  | asking
  | ended (outcome : Except Failure (Option ModuleId))
deriving DecidableEq

structure Loading where
  specifier : String
  importer : String
  stage : LoadStage := .idle
deriving DecidableEq

namespace Loading

def target (w : World) (x : Loading) : String := w.project.importTarget x.specifier x.importer

/-- Go on to the next point where the load waits, or to its end. -/
def advance (w : World) (c : Context) (x : Loading) : Loading × Context :=
  match x.stage with
  | .idle =>
    match c.known? (x.target w) with
    | some m => ({ x with stage := .ended (.ok (some m)) }, c)
    | none => ({ x with stage := .asking }, c)
  | .asking =>
    let (outcome, d) := (Query.settle x.specifier x.importer (x.target w)).run w c
    ({ x with stage := .ended outcome }, d)
  | .ended _ => (x, c)

/-- A load that no other one comes between. -/
theorem advance_advance (w : World) (c : Context) (specifier importer : String) :
    let first := advance w c { specifier, importer }
    first.1.advance w first.2 =
      ({ specifier, importer, stage := .ended ((Query.load specifier importer).run w c).1 },
        ((Query.load specifier importer).run w c).2) := by
  rw [Query.run_load]
  simp only [advance, target]
  cases c.known? (w.project.importTarget specifier importer) with
  | some m => rfl
  | none => rfl

def outcome (x : Loading) : Except Failure (Option ModuleId) :=
  match x.stage with
  | .ended outcome => outcome
  | .idle | .asking => .ok none

/-- Go on to the end, which is never more than two steps away. -/
def finish (x : Loading) : Query (Except Failure (Option ModuleId)) := fun w c =>
  let (y, d) := x.advance w c
  let (z, e) := y.advance w d
  (.ok z.outcome, e)

theorem finish_idle (specifier importer : String) :
    finish { specifier, importer } = Query.attempt (Query.load specifier importer) := by
  funext w c
  have hrun := Query.run_attempt (w := w) (c := c) (Query.load specifier importer)
  have htwice := advance_advance w c specifier importer
  refine Eq.trans ?_ hrun.symm
  exact congrArg (fun p : Loading × Context => (Except.ok p.1.outcome, p.2)) htwice

end Loading

structure Gathering where
  context : Context
  loads : List Loading

namespace Gathering

def step (w : World) (g : Gathering) (i : Nat) : Gathering :=
  match g.loads[i]? with
  | none => g
  | some x =>
    { context := (x.advance w g.context).2, loads := g.loads.set i (x.advance w g.context).1 }

def run (w : World) (g : Gathering) (schedule : List Nat) : Gathering :=
  schedule.foldl (step w) g

def begin (c : Context) (calls : List (String × String)) : Gathering :=
  { context := c, loads := calls.map fun (specifier, importer) => { specifier, importer } }

end Gathering

namespace Query

/-- Load side by side, in a given order as far as it goes, and the rest one by one. -/
def gather (schedule : List Nat) (calls : List (String × String)) :
    Query (List (Except Failure (Option ModuleId))) := fun w c =>
  let g := (Gathering.begin c calls).run w schedule
  (g.loads.mapM Loading.finish).run w g.context

def moduleSetBy (schedule : List Nat) (m : ModuleId) : Query (List ModuleId) := do
  let path := (← moduleOf m).path
  let loads ← gather schedule ((← imports m).map fun specifier => (specifier, path))
  let found ← loads.mapM lift
  return m :: distinct (← get) [path] (found.filterMap id)

end Query

namespace Context

variable {w : World} {c d e : Context}

structure Leads (w : World) (c d : Context) : Prop where
  grows : c.Grows w d
  valid : c.Valid → d.Valid
  filed : c.Valid → c.Filed → d.Filed

namespace Leads

protected theorem rfl : c.Leads w c := ⟨.of_scene rfl, id, fun _ => id⟩

theorem trans (h : c.Leads w d) (h' : d.Leads w e) : c.Leads w e where
  grows := h.grows.trans h'.grows
  valid hv := h'.valid (h.valid hv)
  filed hv hf := h'.filed (h.valid hv) (h.filed hv hf)

theorem of_loads {path : String} {r : Except Failure (Option ModuleId)}
    (h : Query.Loads w c path r d) : c.Leads w d :=
  ⟨h.grows, h.valid, h.filed⟩

end Leads

/-- What a load came to, the module by its path. -/
def outcomePath (c : Context) (r : Except Failure (Option ModuleId)) :
    Except Failure (Option String) := r.map (Option.map fun m => (c.moduleOf m).path)

end Context

namespace Query

variable {w : World} {c d d' : Context} {path : String} {m : ModuleId}
  {r r' : Except Failure (Option ModuleId)}

/-- What loading a path came to, for the rest of the query. -/
def Answered (w : World) (d : Context) (path : String) : Except Failure (Option ModuleId) → Prop
  | .ok (some m) => d.known? path = some m
  | .ok none => d.known? path = none ∧ w.workspace.disk.isFile path = .ok false
  | .error e => d.known? path = none ∧ w.workspace.disk.isFile path = .error e

theorem Loads.answered (h : Loads w c path r d) : Answered w d path r := by
  cases h with
  | known hk => exact hk
  | failed hk hf => exact ⟨hk, hf⟩
  | missing hk hf => exact ⟨hk, hf⟩
  | added hk hf =>
    change Context.known? _ _ = _
    rw [Context.known?_add hk, if_pos rfl]

theorem known?_eq_none_of_grows (h : c.Grows w d) (hk : c.known? path = none)
    (hf : w.workspace.disk.isFile path ≠ .ok true) : d.known? path = none := by
  cases hd : d.known? path with
  | none => rfl
  | some m =>
    rcases h.gained path m hd with hc | hfile
    · simp [hk] at hc
    · exact absurd hfile hf

theorem Answered.grows (h : Answered w c path r) (hg : c.Grows w d) : Answered w d path r := by
  match r, h with
  | .ok (some m), h => exact hg.kept path m h
  | .ok none, ⟨hk, hf⟩ => exact ⟨known?_eq_none_of_grows hg hk (by simp [hf]), hf⟩
  | .error e, ⟨hk, hf⟩ => exact ⟨known?_eq_none_of_grows hg hk (by simp [hf]), hf⟩

/-- Whether a module is found depends on what was known before and on the disk, not on what was
loaded meanwhile. -/
theorem Answered.exists_module (h : Answered w d path (.ok (some m))) (hd : c.Grows w d)
    (hd' : c.Grows w d') (h' : Answered w d' path r') : ∃ k, r' = .ok (some k) := by
  have hfound : ∃ k, d'.known? path = some k ∨ w.workspace.disk.isFile path = .ok true := by
    rcases hd.gained path m h with hc | hf
    · exact ⟨m, .inl (hd'.kept path m hc)⟩
    · exact ⟨m, .inr hf⟩
  obtain ⟨k, hfound⟩ := hfound
  match r', h' with
  | .ok (some k'), _ => exact ⟨k', rfl⟩
  | .ok none, ⟨hk, hf⟩ => simp [hk, hf] at hfound
  | .error e, ⟨hk, hf⟩ => simp [hk, hf] at hfound

theorem Answered.cases (h : Answered w d path r) :
    (∃ m, r = .ok (some m)) ∨ r = (w.workspace.disk.isFile path).map fun _ => none := by
  match r, h with
  | .ok (some m), _ => exact .inl ⟨m, rfl⟩
  | .ok none, ⟨_, hf⟩ => exact .inr (hf ▸ rfl)
  | .error e, ⟨_, hf⟩ => exact .inr (hf ▸ rfl)

theorem Answered.outcomePath_eq (h : Answered w d path r) (hd : c.Grows w d) (hf : d.Filed)
    (h' : Answered w d' path r') (hd' : c.Grows w d') (hf' : d'.Filed) :
    d.outcomePath r = d'.outcomePath r' := by
  have hmodule : ∀ {e : Context} {k}, e.Filed → Answered w e path (.ok (some k)) →
      e.outcomePath (.ok (some k)) = .ok (some path) := by
    intro e k he hk
    simp only [Context.outcomePath, Except.map, Option.map_some, he path k hk]
  -- a module on one side is one on the other; else both sides say what the disk does
  rcases h.cases with ⟨m, rfl⟩ | hr
  · obtain ⟨k, rfl⟩ := h.exists_module hd hd' h'
    rw [hmodule hf h, hmodule hf' h']
  rcases h'.cases with ⟨k, rfl⟩ | hr'
  · obtain ⟨m, rfl⟩ := h'.exists_module hd' hd h
    rw [hmodule hf h, hmodule hf' h']
  · rw [hr, hr']
    cases w.workspace.disk.isFile path with
    | error e => rfl
    | ok isFile => rfl

/-- A module that came up while the disk was asked is there because there is a file. -/
theorem run_settle (specifier importer : String)
    (h : ∀ m, c.known? path = some m → w.workspace.disk.isFile path = .ok true) :
    ∃ r d, (settle specifier importer path).run w c = (r, d) ∧ Loads w c path r d := by
  simp only [settle, run_bind, run_isFile]
  cases hf : w.workspace.disk.isFile path with
  | error e =>
    cases hk : c.known? path with
    | some m => simp [hf] at h; exact absurd hk (h m)
    | none => exact ⟨_, _, rfl, .failed hk hf⟩
  | ok isFile =>
    cases isFile with
    | false =>
      cases hk : c.known? path with
      | some m => simp [hf] at h; exact absurd hk (h m)
      | none => exact ⟨_, _, rfl, .missing hk hf _⟩
    | true =>
      simp only [if_true, run_bind, run_get]
      cases hk : c.known? path with
      | some m =>
        have hregister : c.register path = (m, c) := by rw [Context.register, hk]
        rw [hregister]
        exact ⟨_, _, rfl, .known hk⟩
      | none =>
        have hregister : c.register path = c.add { path } := by rw [Context.register, hk]
        rw [hregister]
        exact ⟨_, _, rfl, .added hk hf⟩

end Query

namespace Loading

open Query

variable {w : World} {c d : Context} {x : Loading}

/-- What a load relies on while it waits, and what it found when it is over. -/
def Holds (w : World) (c : Context) (x : Loading) : Prop :=
  match x.stage with
  | .idle => True
  | .asking => ∀ m, c.known? (x.target w) = some m → w.workspace.disk.isFile (x.target w) = .ok true
  | .ended r => Answered w c (x.target w) r

theorem Holds.grows (h : x.Holds w c) (hg : c.Grows w d) : x.Holds w d := by
  obtain ⟨specifier, importer, stage⟩ := x
  cases stage with
  | idle => trivial
  | ended r => exact Answered.grows h hg
  | asking =>
    intro m hm
    rcases hg.gained _ m hm with hc | hf
    · exact h m hc
    · exact hf

theorem advance_holds (h : x.Holds w c) :
    c.Leads w (x.advance w c).2 ∧ (x.advance w c).1.Holds w (x.advance w c).2 ∧
      (x.advance w c).1.target w = x.target w := by
  obtain ⟨specifier, importer, stage⟩ := x
  cases stage with
  | ended r => exact ⟨.rfl, h, rfl⟩
  | idle =>
    unfold advance
    dsimp only
    split
    next m hm => exact ⟨.rfl, hm, rfl⟩
    next hnone =>
      refine ⟨.rfl, fun m hm => ?_, rfl⟩
      cases hnone.symm.trans hm
  | asking =>
    obtain ⟨r, d, hrun, hloads⟩ := run_settle specifier importer h
    unfold advance
    dsimp only
    rw [hrun]
    exact ⟨.of_loads hloads, hloads.answered, rfl⟩

def progress (x : Loading) : Nat :=
  match x.stage with
  | .idle => 0
  | .asking => 1
  | .ended _ => 2

theorem progress_advance (w : World) (c : Context) (x : Loading) :
    min 2 (x.progress + 1) ≤ (x.advance w c).1.progress := by
  obtain ⟨specifier, importer, stage⟩ := x
  cases stage with
  | ended r => simp [advance, progress]
  | asking => simp [advance, progress]
  | idle =>
    unfold advance
    dsimp only
    split <;> simp [progress]

theorem exists_outcome (h : 2 ≤ x.progress) : ∃ r, x.stage = .ended r := by
  obtain ⟨specifier, importer, stage⟩ := x
  cases stage with
  | idle => simp [progress] at h
  | asking => simp [progress] at h
  | ended r => exact ⟨r, rfl⟩

theorem run_finish (h : x.Holds w c) : ∃ r d, x.finish.run w c = (.ok r, d) ∧ c.Leads w d ∧
    Answered w d (x.target w) r := by
  obtain ⟨hleads, hholds, htarget⟩ := advance_holds h
  obtain ⟨hleads', hholds', htarget'⟩ := advance_holds hholds
  have hprogress := progress_advance w c x
  have hprogress' := progress_advance w (x.advance w c).2 (x.advance w c).1
  obtain ⟨r, hr⟩ := exists_outcome
    (x := ((x.advance w c).1.advance w (x.advance w c).2).1) (by omega)
  refine ⟨r, ((x.advance w c).1.advance w (x.advance w c).2).2, ?_, hleads.trans hleads', ?_⟩
  · have houtcome : ((x.advance w c).1.advance w (x.advance w c).2).1.outcome = r := by
      rw [outcome, hr]
    exact congrArg (fun outcome => (Except.ok outcome, _)) houtcome
  · rw [Holds, hr, htarget', htarget] at hholds'
    exact hholds'

theorem run_finishAll {xs : List Loading} (h : ∀ x ∈ xs, x.Holds w c) :
    ∃ outcomes d, (xs.mapM finish).run w c = (.ok outcomes, d) ∧ c.Leads w d ∧
      List.Forall₂ (Answered w d) (xs.map (target w)) outcomes := by
  induction xs generalizing c with
  | nil => exact ⟨[], c, rfl, .rfl, .nil⟩
  | cons x xs ih =>
    obtain ⟨r, c', hfirst, hleads, hanswered⟩ := run_finish (h x List.mem_cons_self)
    obtain ⟨outcomes, d, hrest, hleads', hall⟩ := ih (c := c') fun y hy =>
      (h y (List.mem_cons_of_mem x hy)).grows hleads.grows
    refine ⟨r :: outcomes, d, ?_, hleads.trans hleads', .cons (hanswered.grows hleads'.grows) hall⟩
    rw [List.mapM_cons, run_bind_ok hfirst, run_bind_ok hrest]
    rfl

end Loading

namespace Gathering

open Query

variable {w : World} {c : Context} {g : Gathering} {paths : List String}

/-- What holds at every moment of loads that began in the context `c` for some paths. -/
structure Sound (w : World) (c : Context) (paths : List String) (g : Gathering) : Prop where
  leads : c.Leads w g.context
  holds : ∀ x ∈ g.loads, x.Holds w g.context
  targets : g.loads.map (Loading.target w) = paths

theorem sound_begin (w : World) (c : Context) (calls : List (String × String)) :
    Sound w c (calls.map fun call => w.project.importTarget call.1 call.2) (begin c calls) where
  leads := .rfl
  holds x hx := by
    obtain ⟨call, -, rfl⟩ := List.mem_map.mp hx
    trivial
  targets := by
    simp only [begin, List.map_map]
    rfl

theorem Sound.step (h : Sound w c paths g) (i : Nat) :
    g.context.Leads w (g.step w i).context ∧ Sound w c paths (g.step w i) := by
  unfold Gathering.step
  cases hx : g.loads[i]? with
  | none => exact ⟨.rfl, h⟩
  | some x =>
    obtain ⟨hleads, hholds, htarget⟩ := Loading.advance_holds (h.holds x (List.mem_of_getElem? hx))
    refine ⟨hleads, h.leads.trans hleads, fun y hy => ?_, ?_⟩
    · rcases List.mem_or_eq_of_mem_set hy with hy | rfl
      · exact (h.holds y hy).grows hleads.grows
      · exact hholds
    · dsimp only
      rw [List.map_set, htarget, ← h.targets]
      obtain ⟨hlt, rfl⟩ := List.getElem?_eq_some_iff.mp hx
      have hlt' : i < (g.loads.map (Loading.target w)).length := by simpa using hlt
      have hself := List.set_getElem_self hlt'
      rwa [List.getElem_map] at hself

theorem Sound.run (h : Sound w c paths g) (schedule : List Nat) :
    g.context.Leads w (g.run w schedule).context ∧ Sound w c paths (g.run w schedule) := by
  induction schedule generalizing g with
  | nil => exact ⟨.rfl, h⟩
  | cons i schedule ih =>
    obtain ⟨hleads, hsound⟩ := h.step i
    obtain ⟨hleads', hsound'⟩ := ih hsound
    exact ⟨hleads.trans hleads', hsound'⟩

theorem Sound.answered {x : Loading} {r : Except Failure (Option ModuleId)} (h : Sound w c paths g)
    (hx : x ∈ g.loads) (hr : x.stage = .ended r) : Answered w g.context (x.target w) r := by
  have hholds := h.holds x hx
  rwa [Loading.Holds, hr] at hholds

theorem progress_run (g : Gathering) (schedule : List Nat) {i : Nat} {x : Loading}
    (hx : g.loads[i]? = some x) : ∃ y, (g.run w schedule).loads[i]? = some y ∧
      min 2 (x.progress + schedule.count i) ≤ y.progress := by
  induction schedule generalizing g x with
  | nil => exact ⟨x, hx, Nat.min_le_right _ _⟩
  | cons j schedule ih =>
    -- a step of another load leaves this one where it is
    have hstep : ∃ y, (g.step w j).loads[i]? = some y ∧
        min 2 (x.progress + if j = i then 1 else 0) ≤ y.progress := by
      unfold Gathering.step
      by_cases hj : j = i
      · subst hj
        obtain ⟨hlt, -⟩ := List.getElem?_eq_some_iff.mp hx
        rw [hx]
        exact ⟨(x.advance w g.context).1, by simp [hlt],
          by simpa using Loading.progress_advance w g.context x⟩
      · rw [if_neg hj]
        refine ⟨x, ?_, Nat.min_le_right _ _⟩
        cases g.loads[j]? with
        | none => exact hx
        | some y => rw [List.getElem?_set_ne hj, hx]
    obtain ⟨y, hy, hle⟩ := hstep
    obtain ⟨z, hz, hle'⟩ := ih (g.step w j) hy
    refine ⟨z, hz, ?_⟩
    rw [List.count_cons]
    by_cases hj : j = i
    · simp only [hj, beq_self_eq_true, if_true] at hle ⊢
      omega
    · have hbeq : (j == i) = false := by simpa using hj
      simp only [hj, hbeq, if_false, Bool.false_eq_true] at hle ⊢
      omega

theorem ended_of_turns (w : World) (c : Context) {calls : List (String × String)} {i : Nat}
    (hi : i < calls.length) {schedule : List Nat} (hturns : 2 ≤ schedule.count i) :
    ∃ (x : Loading) (r : Except Failure (Option ModuleId)),
      ((begin c calls).run w schedule).loads[i]? = some x ∧ x.stage = .ended r := by
  have hstart : (begin c calls).loads[i]? =
      some { specifier := calls[i].1, importer := calls[i].2 } := by
    simp [begin, hi]
  obtain ⟨x, hx, hle⟩ := progress_run (w := w) _ schedule hstart
  obtain ⟨r, hr⟩ := Loading.exists_outcome (x := x) (by omega)
  exact ⟨x, r, hx, hr⟩

end Gathering

namespace Query

variable {w : World} {c d d' : Context} {m : ModuleId} {paths : List String}
  {outcomes outcomes' : List (Except Failure (Option ModuleId))}

theorem run_gather (w : World) (c : Context) (schedule : List Nat)
    (calls : List (String × String)) :
    ∃ outcomes d, (gather schedule calls).run w c = (.ok outcomes, d) ∧ c.Leads w d ∧
      List.Forall₂ (Answered w d) (calls.map fun call => w.project.importTarget call.1 call.2)
        outcomes := by
  obtain ⟨-, hsound⟩ := (Gathering.sound_begin w c calls).run schedule
  obtain ⟨outcomes, d, hrun, hleads, hall⟩ := Loading.run_finishAll hsound.holds
  rw [hsound.targets] at hall
  refine ⟨outcomes, d, ?_, hsound.leads.trans hleads, hall⟩
  delta gather Query.run
  exact hrun

theorem gather_nil (calls : List (String × String)) :
    gather [] calls = calls.mapM fun call => attempt (load call.1 call.2) := by
  have hmap : (calls.map fun (specifier, importer) => ({ specifier, importer } : Loading)).mapM
      Loading.finish = calls.mapM fun call => attempt (load call.1 call.2) := by
    rw [List.mapM_map]
    exact congrArg (calls.mapM ·) (funext fun call => Loading.finish_idle call.1 call.2)
  funext w c
  exact congrArg (fun q : Query _ => q.run w c) hmap

theorem outcomePaths_eq (hall : List.Forall₂ (Answered w d) paths outcomes) (hd : c.Grows w d)
    (hf : d.Filed) (hall' : List.Forall₂ (Answered w d') paths outcomes') (hd' : c.Grows w d')
    (hf' : d'.Filed) : outcomes.map d.outcomePath = outcomes'.map d'.outcomePath := by
  induction hall generalizing outcomes' with
  | nil =>
    cases hall'
    rfl
  | cons h _ ih =>
    cases hall' with
    | cons h' hall' =>
      rw [List.map_cons, List.map_cons, h.outcomePath_eq hd hf h' hd' hf', ih hall']

theorem run_lifts (rs : List (Except Failure (Option ModuleId))) :
    (rs.mapM lift).run w c = (rs.mapM id, c) := by
  induction rs with
  | nil => rfl
  | cons r rs ih =>
    rw [List.mapM_cons, List.mapM_cons, run_bind, run_lift]
    cases r with
    | error e => rfl
    | ok found =>
      simp only [run_bind, ih]
      cases rs.mapM id with
      | error e => rfl
      | ok rest => rfl

theorem mapM_id_map {α β : Type} (f : α → β) (rs : List (Except Failure α)) :
    (rs.map (Except.map f)).mapM id = (rs.mapM id).map (List.map f) := by
  induction rs with
  | nil => rfl
  | cons r rs ih =>
    rw [List.map_cons, List.mapM_cons, List.mapM_cons, ih]
    cases r with
    | error e => rfl
    | ok a =>
      cases rs.mapM id with
      | error e => rfl
      | ok rest => rfl

def distinctPaths (seen : List String) : List String → List String
  | [] => []
  | path :: paths =>
    if seen.contains path then distinctPaths seen paths
    else path :: distinctPaths (path :: seen) paths

theorem map_distinct (c : Context) (seen : List String) (modules : List ModuleId) :
    (distinct c seen modules).map (fun k => (c.moduleOf k).path) =
      distinctPaths seen (modules.map fun k => (c.moduleOf k).path) := by
  induction modules generalizing seen with
  | nil => rfl
  | cons m modules ih =>
    rw [distinct, List.map_cons, distinctPaths]
    by_cases hseen : seen.contains (c.moduleOf m).path
    · rw [if_pos hseen, if_pos hseen, ih]
    · rw [if_neg hseen, if_neg hseen, List.map_cons, ih]

def pathsFound (run : Except Failure (List ModuleId) × Context) : Except Failure (List String) :=
  run.1.map (List.map fun k => (run.2.moduleOf k).path)

theorem pathsFound_distinct (path : String) (hm : (d.moduleOf m).path = path) :
    pathsFound ((do
      let found ← outcomes.mapM lift
      return m :: distinct (← get) [path] (found.filterMap id) : Query (List ModuleId)).run w d) =
      ((outcomes.map d.outcomePath).mapM id).map fun found =>
        path :: distinctPaths [path] (found.filterMap id) := by
  rw [run_bind, run_lifts]
  have hpaths : (outcomes.map d.outcomePath).mapM id =
      (outcomes.mapM id).map (List.map (Option.map fun k => (d.moduleOf k).path)) := mapM_id_map _ _
  rw [hpaths]
  cases outcomes.mapM id with
  | error e => rfl
  | ok found =>
    change Except.ok ((m :: distinct d [path] (found.filterMap id)).map
      fun k => (d.moduleOf k).path) = _
    rw [List.map_cons, map_distinct, hm, List.map_filterMap]
    simp only [Except.map, List.filterMap_map]
    rfl

theorem pathsFound_moduleSetBy (hv : c.Valid) (hf : c.Filed) (hm : m < c.modules.size)
    (schedule schedule' : List Nat) :
    pathsFound ((moduleSetBy schedule m).run w c) =
      pathsFound ((moduleSetBy schedule' m).run w c) := by
  rw [moduleSetBy, moduleSetBy, run_bind_ok run_moduleOf, run_bind_ok run_moduleOf]
  generalize hpath : (c.moduleOf m).path = path
  obtain ⟨c', himports, hs, -⟩ := (imports_yields (w := w) (c := c) m).run_eq
  rw [run_bind, run_bind, himports]
  cases (c.viewOf w m).statements.map fun found => importsOf (found.getD []) with
  | error e => rfl
  | ok specifiers =>
    have hm' : m < c'.modules.size := by rwa [← Context.size_eq w c', hs, Context.size_eq]
    have hpath' : (c'.moduleOf m).path = path :=
      (congrArg Module.View.path (Context.viewOf_congr hs m)).trans hpath
    -- whatever the order, the importing module keeps its path
    have hkept : ∀ {d}, c'.Leads w d → (d.moduleOf m).path = path := fun h =>
      (congrArg Module.View.path (h.grows.viewOf hm')).trans hpath'
    dsimp only
    generalize (specifiers.map fun specifier => (specifier, path)) = calls
    obtain ⟨outcomes, d, hrun, hleads, hall⟩ := run_gather w c' schedule calls
    obtain ⟨outcomes', d', hrun', hleads', hall'⟩ := run_gather w c' schedule' calls
    rw [run_bind_ok hrun, run_bind_ok hrun', pathsFound_distinct path (hkept hleads),
      pathsFound_distinct path (hkept hleads'),
      outcomePaths_eq hall hleads.grows (hleads.filed (hv.of_scene hs) (hf.of_scene hs)) hall'
        hleads'.grows (hleads'.filed (hv.of_scene hs) (hf.of_scene hs))]

theorem moduleSetBy_nil (m : ModuleId) : moduleSetBy [] m = moduleSet m := by
  simp only [moduleSetBy, moduleSet, gather_nil, List.mapM_map]
  rfl

theorem exists_answered {i : Nat} {path : String} (h : List.Forall₂ (Answered w d) paths outcomes)
    (hi : paths[i]? = some path) : ∃ r, outcomes[i]? = some r ∧ Answered w d path r := by
  induction h generalizing i with
  | nil => simp at hi
  | @cons first r paths outcomes hr _ ih =>
    cases i with
    | zero =>
      obtain rfl : first = path := by simpa using hi
      exact ⟨r, rfl, hr⟩
    | succ i => exact ih (by simpa using hi)

/-- Loads agree in whatever order they take their steps. Those of one path that find a module find
the same one; what is known stands under its own path and is never replaced; a load comes to what it
would come to if the loads ran one after the other; and the module set has the same paths. -/
theorem concurrent_loads_agree (hv : c.Valid) (hf : c.Filed) (calls : List (String × String))
    (schedule : List Nat) :
    let g := (Gathering.begin c calls).run w schedule
    (∀ x ∈ g.loads, ∀ y ∈ g.loads, ∀ j k, x.target w = y.target w →
      x.stage = .ended (.ok (some j)) → y.stage = .ended (.ok (some k)) → j = k) ∧
    (∀ path k, g.context.known? path = some k →
      k < g.context.modules.size ∧ (g.context.moduleOf k).path = path) ∧
    (∀ more path k, g.context.known? path = some k →
      (g.run w more).context.known? path = some k) ∧
    (∀ i < calls.length, 2 ≤ schedule.count i →
      ∃ (x : Loading) (r : Except Failure (Option ModuleId)),
        g.loads[i]? = some x ∧ x.stage = .ended r) ∧
    (∃ outcomes d,
      (calls.mapM fun call => attempt (load call.1 call.2)).run w c = (.ok outcomes, d) ∧
      ∀ (i : Nat) (x : Loading) r, g.loads[i]? = some x → x.stage = .ended r →
        ∃ r', outcomes[i]? = some r' ∧ g.context.outcomePath r = d.outcomePath r') ∧
    ∀ m < c.modules.size,
      pathsFound ((moduleSetBy schedule m).run w c) = pathsFound ((moduleSet m).run w c) := by
  intro g
  obtain ⟨-, hsound⟩ := (Gathering.sound_begin w c calls).run schedule
  have hfiled := hsound.leads.filed hv hf
  refine ⟨?_, fun path k hk => ⟨hsound.leads.valid hv path k hk, hfiled path k hk⟩, ?_,
    fun i hi hturns => Gathering.ended_of_turns w c hi hturns, ?_, ?_⟩
  · intro x hx y hy j k htarget hj hk
    have hknown : g.context.known? (x.target w) = some j := hsound.answered hx hj
    have hknown' : g.context.known? (y.target w) = some k := hsound.answered hy hk
    rw [htarget, hknown'] at hknown
    exact (Option.some.inj hknown).symm
  · intro more path k hk
    exact (hsound.run more).1.grows.kept path k hk
  · obtain ⟨outcomes, d, hrun, hleads, hall⟩ := run_gather w c [] calls
    rw [gather_nil] at hrun
    refine ⟨outcomes, d, hrun, fun i x r hx hr => ?_⟩
    have htarget : (calls.map fun call => w.project.importTarget call.1 call.2)[i]? =
        some (x.target w) := by
      rw [← hsound.targets, List.getElem?_map, hx]
      rfl
    obtain ⟨r', hr', hanswered⟩ := exists_answered hall htarget
    have hfound := hsound.answered (List.mem_of_getElem? hx) hr
    exact ⟨r', hr', hfound.outcomePath_eq hsound.leads.grows hfiled hanswered hleads.grows
      (hleads.filed hv hf)⟩
  · intro m hm
    rw [← moduleSetBy_nil]
    exact pathsFound_moduleSetBy hv hf hm schedule []

/-- Two ways to write one import; both loads ask the disk before either of them goes on. -/
theorem concurrent_loads_of_base :
    let c := Context.start derivedDocument
    let calls := [("./b.sol", "/src/a.sol"), ("../src/b.sol", "/src/a.sol")]
    let g := (Gathering.begin c calls).run derivedWorld [0, 1, 1, 0]
    c.Valid ∧ c.Filed ∧
      (∃ x y j k, g.loads = [x, y] ∧ x.specifier ≠ y.specifier ∧ x.stage = .ended (.ok (some j)) ∧
        y.stage = .ended (.ok (some k)) ∧ j = k) ∧
      pathsFound ((moduleSetBy [0, 1, 1, 0] 0).run derivedWorld c) =
        .ok ["/src/a.sol", "/src/b.sol", "/src/c.sol", "/src/d.sol"] := by
  intro c calls g
  obtain ⟨hloads, hsize, hpaths⟩ :
      g.loads = [⟨"./b.sol", "/src/a.sol", .ended (.ok (some 1))⟩,
        ⟨"../src/b.sol", "/src/a.sol", .ended (.ok (some 1))⟩] ∧
      0 < c.modules.size ∧
      pathsFound ((moduleSet 0).run derivedWorld c) =
        .ok ["/src/a.sol", "/src/b.sol", "/src/c.sol", "/src/d.sol"] := by
    decide +kernel
  obtain ⟨hsame, -, -, -, -, hset⟩ := concurrent_loads_agree (w := derivedWorld)
    (Context.valid_start derivedDocument) (Context.filed_start derivedDocument) calls [0, 1, 1, 0]
  have htarget : Loading.target derivedWorld ⟨"./b.sol", "/src/a.sol", .ended (.ok (some 1))⟩ =
      Loading.target derivedWorld ⟨"../src/b.sol", "/src/a.sol", .ended (.ok (some 1))⟩ := by
    decide +kernel
  have hone : (1 : ModuleId) = 1 := hsame _ (hloads ▸ .head _) _ (hloads ▸ .tail _ (.head _)) 1 1
    htarget rfl rfl
  have hset := (hset 0 hsize).trans hpaths
  refine ⟨Context.valid_start _, Context.filed_start _,
    ⟨_, _, 1, 1, hloads, ?_, rfl, rfl, hone⟩, hset⟩
  decide

end Query

end SolidityServer
