import SolidityServer.Proofs.DiagnosticNews
import SolidityServer.Proofs.DocumentOutlook

/-! Lint runs that take their time. A run sleeps for the delay, then waits for its linter, and other
things happen meanwhile. A document that is opened, changed, saved or closed cancels its run,
whether it sleeps or waits, so that only the latest run of a document is not over. -/

namespace SolidityServer

namespace Session

/-- What an action means for the lint run of an address. -/
inductive Order where
  | lint (uri : String) (text : Option String)
  | drop (uri : String)

namespace Order

def uri : Order → String
  | .lint uri _ | .drop uri => uri

def onTimers (now : Nat) : Order → List Timer → List Timer
  | .lint uri text => Timer.schedule now uri text
  | .drop uri => Timer.cancel uri

end Order

def lintOrder (s : Session) (uri : String) : Order :=
  match s.workspace.document? uri with
  | some d => .lint d.uri (some d.text)
  | none => .lint uri none

/-- What an action asks for. A change to a document that is not open asks for nothing. -/
def order? (s : Session) (a : Action) : Option Order :=
  match a with
  | .notified (.opened uri _) => some ((s.act a).1.lintOrder uri)
  | .notified (.changed uri changes) =>
    (s.changed? uri changes).map fun _ => (s.act a).1.lintOrder uri
  | .notified (.saved uri) => some ((s.act a).1.lintOrder uri)
  | .notified (.closed uri) => some (.drop uri)
  | .notified (.elapsed _) | .configured _ => none

def promptly (s : Session) : Action → List Event
  | .notified (.elapsed _) => []
  | a => (s.act a).2

variable {s : Session} {u : String} {found : List Diagnostic}

theorem lintOrder_schedule (s : Session) (uri : String) :
    (s.schedule uri).lintOrder uri = s.lintOrder uri := by
  unfold schedule
  split <;> rfl

theorem timers_schedule (s : Session) (uri : String) :
    (s.schedule uri).timers = (s.lintOrder uri).onTimers s.clock s.timers := by
  unfold schedule lintOrder
  cases s.workspace.document? uri <;> rfl

theorem timers_act (s : Session) (a : Action) :
    (∃ milliseconds, a = .notified (.elapsed milliseconds)) ∨
      s.promptly a = (s.act a).2 ∧
        (s.act a).1.timers = (s.order? a).elim s.timers (·.onTimers s.clock s.timers) := by
  cases a with
  | configured => exact .inr ⟨rfl, rfl⟩
  | notified n =>
    cases n with
    | elapsed milliseconds => exact .inl ⟨milliseconds, rfl⟩
    | closed => exact .inr ⟨rfl, rfl⟩
    | opened uri text =>
      refine .inr ⟨rfl, ?_⟩
      simp only [order?, act, step, didOpen, lintOrder_schedule, timers_schedule, Option.elim_some]
    | saved uri =>
      refine .inr ⟨rfl, ?_⟩
      simp only [order?, act, step, didSave, lintOrder_schedule, timers_schedule, Option.elim_some]
    | changed uri changes =>
      refine .inr ⟨rfl, ?_⟩
      simp only [order?, act, step, didChange]
      cases s.changed? uri changes with
      | none => rfl
      | some d => simp only [lintOrder_schedule, timers_schedule, Option.map_some, Option.elim_some]

theorem disk_act (s : Session) (a : Action) :
    (s.act a).1.workspace.disk = s.workspace.disk := by
  have hschedule : ∀ (s : Session) uri, (s.schedule uri).workspace.disk = s.workspace.disk := by
    intro s uri
    unfold schedule
    split <;> rfl
  cases a with
  | configured => rfl
  | notified n =>
    cases n with
    | closed | elapsed => rfl
    | opened uri text => exact hschedule _ uri
    | saved uri => exact hschedule _ uri
    | changed uri changes =>
      simp only [act, step, didChange]
      split
      · rfl
      · exact hschedule _ uri

theorem published_of_promptly {a : Action} (h : .published u found ∈ s.promptly a) :
    a = .notified (.closed u) := by
  cases a with
  | configured options =>
    rcases List.mem_append.mp h with h | h
    · exact absurd h published_not_mem_logged
    · exact absurd h published_not_mem_logged
  | notified n =>
    cases n with
    | elapsed | saved => cases h
    | opened => exact absurd h published_not_mem_logged
    | changed uri changes =>
      simp only [promptly, act, step, didChange] at h
      split at h
      · cases h
      · exact absurd h published_not_mem_logged
    | closed uri =>
      cases List.mem_singleton.mp h
      rfl

end Session

structure Job where
  text : String
  settings : Settings

/-- Where a lint run stands. The linter of a run that is cancelled while it waits goes on by itself.
-/
inductive Phase where
  | sleeping
  | linting (job : Job)
  | finished
  | cancelled (left : Option Job)

namespace Phase

def isLive : Phase → Bool
  | .sleeping | .linting _ => true
  | .finished | .cancelled _ => false

def cancel : Phase → Phase
  | .sleeping => .cancelled none
  | .linting job => .cancelled (some job)
  | phase => phase

theorem isLive_cancel (phase : Phase) : phase.cancel.isLive = false := by
  cases phase <;> rfl

end Phase

structure LintRun where
  uri : String
  text : Option String
  phase : Phase := .sleeping

namespace LintRun

def isLive (r : LintRun) : Bool := r.phase.isLive

/-- Nothing that stands after the point where the run waits is done any more. -/
def cancel (r : LintRun) : LintRun := { r with phase := r.phase.cancel }

def source (s : Session) (r : LintRun) : Except Failure String :=
  match r.text with
  | some text => .ok text
  | none => s.workspace.disk.read (Uri.documentPath r.uri)

/-- The delay is over: start the linter. -/
def wake (s : Session) (r : LintRun) : LintRun × List Event :=
  match r.phase with
  | .sleeping =>
    match r.source s with
    | .error e =>
      ({ r with phase := .finished },
        s.debug ("Linting " ++ r.uri) ++ s.lintFailed r.uri e.message)
    | .ok text =>
      ({ r with phase := .linting { text, settings := s.settings } },
        s.debug ("Linting " ++ r.uri))
  | _ => (r, [])

/-- The linter is done: publish what it found, unless the run has been cancelled. -/
def conclude (s : Session) (r : LintRun) : LintRun × List Event :=
  match r.phase with
  | .linting job =>
    ({ r with phase := .finished },
      Session.lintText { s with settings := job.settings } r.uri job.text)
  | .cancelled (some job) =>
    ({ r with phase := .cancelled none },
      s.started (Lint.lint s.process job.settings job.text (Uri.documentPath r.uri)))
  | _ => (r, [])

variable {s : Session} {r r' : LintRun}

structure Becomes (s : Session) (r r' : LintRun) : Prop where
  uri : r'.uri = r.uri
  text : r'.text = r.text
  isLive : r'.isLive → r.isLive
  job : ∀ job, r'.phase = .linting job → r.phase = .linting job ∨ r.source s = .ok job.text

protected theorem Becomes.rfl : r.Becomes s r := ⟨rfl, rfl, id, fun _ h => .inl h⟩

theorem source_congr {t : Session} (hdisk : t.workspace.disk = s.workspace.disk)
    (huri : r'.uri = r.uri) (htext : r'.text = r.text) : r'.source t = r.source s := by
  rw [source, source, hdisk, huri, htext]

theorem becomes_cancel (r : LintRun) : r.Becomes s r.cancel := by
  refine ⟨rfl, rfl, fun h => ?_, fun job h => ?_⟩
  · cases (Phase.isLive_cancel r.phase).symm.trans h
  · have hlive := congrArg Phase.isLive h
    cases (Phase.isLive_cancel r.phase).symm.trans hlive

theorem becomes_wake (s : Session) (r : LintRun) : r.Becomes s (r.wake s).1 := by
  obtain ⟨uri, text, phase⟩ := r
  cases phase with
  | linting | finished | cancelled => exact .rfl
  | sleeping =>
    simp only [wake]
    split
    · exact ⟨rfl, rfl, fun _ => rfl, nofun⟩
    next text hsource =>
      refine ⟨rfl, rfl, fun _ => rfl, fun job h => .inr ?_⟩
      cases h
      exact hsource

theorem becomes_conclude (s : Session) (r : LintRun) : r.Becomes s (r.conclude s).1 := by
  obtain ⟨uri, text, phase⟩ := r
  cases phase with
  | sleeping | finished => exact .rfl
  | linting job => exact ⟨rfl, rfl, fun _ => rfl, nofun⟩
  | cancelled left =>
    cases left with
    | none => exact .rfl
    | some job => exact ⟨rfl, rfl, nofun, nofun⟩

theorem published_not_mem_wake {u : String} {found : List Diagnostic} :
    .published u found ∉ (r.wake s).2 := by
  intro h
  unfold wake at h
  split at h
  · split at h
    · rcases List.mem_append.mp h with h | h
      · exact Session.published_not_mem_logged h
      · exact Session.published_not_mem_logged h
    · exact Session.published_not_mem_logged h
  · cases h

theorem published_of_conclude {u : String} {found : List Diagnostic}
    (h : .published u found ∈ (r.conclude s).2) :
    ∃ job, r.phase = .linting job ∧ r.uri = u ∧
      (Lint.lint s.process job.settings job.text (Uri.documentPath u)).diagnostics
        job.settings.linter = .ok found := by
  unfold conclude at h
  split at h
  next job hphase =>
    obtain ⟨rfl, hfound⟩ := Session.published_of_lintText h
    exact ⟨job, hphase, rfl, hfound⟩
  · exact absurd h Session.published_not_mem_started
  · cases h

end LintRun

/-- A session with all the lint runs it ever started, and the latest one of each address. -/
structure LiveSession where
  session : Session
  runs : List LintRun := []
  registry : List (String × Nat) := []

/-- What can happen: the client acts, the delay of a run is over, or its linter is done. -/
inductive Happening where
  | acted (a : Session.Action)
  | woke (run : Nat)
  | linted (run : Nat)

namespace LiveSession

open Session (Order Action)

def registered? (live : LiveSession) (uri : String) : Option Nat := live.registry.lookup uri

def halt (live : LiveSession) (uri : String) : LiveSession :=
  { live with
    runs := match live.registered? uri with
      | some i => live.runs.modify i LintRun.cancel
      | none => live.runs
    registry := live.registry.filter (·.1 != uri) }

def launch (live : LiveSession) (uri : String) (text : Option String) : LiveSession :=
  { live with
    runs := live.runs ++ [{ uri, text }]
    registry := (uri, live.runs.length) :: live.registry }

def obey (live : LiveSession) : Option Order → LiveSession
  | none => live
  | some (.drop uri) => live.halt uri
  | some (.lint uri text) => (live.halt uri).launch uri text

def update (live : LiveSession) (i : Nat) (f : LintRun → LintRun × List Event) :
    LiveSession × List Event :=
  ({ live with runs := live.runs.modify i fun r => (f r).1 },
    live.runs[i]?.elim [] fun r => (f r).2)

def step (live : LiveSession) : Happening → LiveSession × List Event
  | .acted a =>
    (obey { live with session := (live.session.act a).1 } (live.session.order? a),
      live.session.promptly a)
  | .woke i => live.update i (·.wake live.session)
  | .linted i => live.update i (·.conclude live.session)

def after (live : LiveSession) (happenings : List Happening) : LiveSession :=
  happenings.foldl (fun live h => (live.step h).1) live

def events (live : LiveSession) : List Happening → List Event
  | [] => []
  | h :: happenings => (live.step h).2 ++ (live.step h).1.events happenings

def touched? (live : LiveSession) : Happening → Option String
  | .acted a => (live.session.order? a).map Order.uri
  | .woke _ | .linted _ => none

def Quiet (u : String) : LiveSession → List Happening → Prop
  | _, [] => True
  | live, h :: happenings => live.touched? h ≠ some u ∧ Quiet u (live.step h).1 happenings

variable {live : LiveSession} {h : Happening} {i : Nat} {r r' : LintRun} {u v : String}
  {found : List Diagnostic}

theorem after_append (live : LiveSession) (hs hs' : List Happening) :
    live.after (hs ++ hs') = (live.after hs).after hs' := List.foldl_append

theorem events_append (live : LiveSession) (hs hs' : List Happening) :
    live.events (hs ++ hs') = live.events hs ++ (live.after hs).events hs' := by
  induction hs generalizing live with
  | nil => rfl
  | cons h hs ih => rw [List.cons_append, events, events, ih, List.append_assoc]; rfl

theorem quiet_concat {hs : List Happening} (hquiet : Quiet u live hs)
    (htouched : (live.after hs).touched? h ≠ some u) : Quiet u live (hs ++ [h]) := by
  induction hs generalizing live with
  | nil => exact ⟨htouched, trivial⟩
  | cons first hs ih => exact ⟨hquiet.1, ih hquiet.2 htouched⟩

theorem getElem?_halt (live : LiveSession) (uri : String) (i : Nat) :
    (live.halt uri).runs[i]? =
      if live.registered? uri = some i then live.runs[i]?.map LintRun.cancel
      else live.runs[i]? := by
  unfold halt
  cases live.registered? uri with
  | none => rfl
  | some j =>
    simp only [List.getElem?_modify, Option.some.injEq]
    split <;> simp

theorem length_halt (live : LiveSession) (uri : String) :
    (live.halt uri).runs.length = live.runs.length := by
  unfold halt
  cases live.registered? uri with
  | none => rfl
  | some j => exact List.length_modify _ _ _

theorem registered?_halt (live : LiveSession) (uri v : String) :
    (live.halt uri).registered? v = if v = uri then none else live.registered? v :=
  Workspace.lookup_filter_ne uri v live.registry

theorem registered?_launch (live : LiveSession) (uri v : String) (text : Option String) :
    (live.launch uri text).registered? v =
      if v = uri then some live.runs.length else live.registered? v := by
  by_cases hv : v = uri
  · simp [registered?, launch, hv]
  · have hne : (v == uri) = false := by simpa using hv
    simp [registered?, launch, List.lookup_cons, hne, hv]

theorem registered?_obey_of_ne {o : Option Order} (ho : o.map Order.uri ≠ some v) :
    (live.obey o).registered? v = live.registered? v := by
  cases o with
  | none => rfl
  | some o =>
    have hne : v ≠ o.uri := fun heq => ho (congrArg some heq.symm)
    cases o with
    | drop uri => exact (registered?_halt live uri v).trans (if_neg hne)
    | lint uri text =>
      exact (registered?_launch _ uri v text).trans ((if_neg hne).trans
        ((registered?_halt live uri v).trans (if_neg hne)))

/-- An address that is touched is registered only if a run was launched for it. -/
theorem registered?_obey_self {o : Order} (hi : (live.obey (some o)).registered? o.uri = some i) :
    i = live.runs.length ∧ ∃ text, o = .lint o.uri text := by
  cases o with
  | drop uri =>
    have hnone := (registered?_halt live uri uri).trans (if_pos rfl)
    cases hnone.symm.trans hi
  | lint uri text =>
    have hnew := (registered?_launch (live.halt uri) uri uri text).trans (if_pos rfl)
    rw [length_halt] at hnew
    exact ⟨Option.some.inj (hi.symm.trans hnew), text, rfl⟩

theorem getElem?_obey_lint (live : LiveSession) (uri : String) (text : Option String) :
    (live.obey (some (.lint uri text))).runs[live.runs.length]? = some { uri, text } := by
  rw [← length_halt live uri]
  exact List.getElem?_concat_length

theorem exists_obey {s : Session} (hr : live.runs[i]? = some r) (o : Option Order) :
    ∃ r', (live.obey o).runs[i]? = some r' ∧ r.Becomes s r' ∧
      ∀ uri, o.map Order.uri = some uri → live.registered? uri = some i → r'.isLive = false := by
  have hhalt : ∀ uri, ∃ r', (live.halt uri).runs[i]? = some r' ∧ r.Becomes s r' ∧
      (live.registered? uri = some i → r'.isLive = false) := by
    intro uri
    rw [getElem?_halt, hr]
    by_cases hi : live.registered? uri = some i
    · exact ⟨r.cancel, if_pos hi, r.becomes_cancel, fun _ => Phase.isLive_cancel _⟩
    · exact ⟨r, if_neg hi, .rfl, fun h => absurd h hi⟩
  cases o with
  | none => exact ⟨r, hr, .rfl, nofun⟩
  | some o =>
    obtain ⟨r', hr', hbecomes, hdead⟩ := hhalt o.uri
    have hdead' : ∀ uri, (some o).map Order.uri = some uri → live.registered? uri = some i →
        r'.isLive = false := by
      rintro uri ⟨⟩
      exact hdead
    refine ⟨r', ?_, hbecomes, hdead'⟩
    cases o with
    | drop uri => exact hr'
    | lint uri text =>
      have hlt := (List.getElem?_eq_some_iff.mp hr').1
      exact (List.getElem?_append_left hlt).trans hr'

theorem obey_origin {o : Option Order} (hr' : (live.obey o).runs[i]? = some r')
    (hi : live.runs.length ≤ i) :
    o = some (.lint r'.uri r'.text) ∧ i = live.runs.length ∧ r'.phase = .sleeping := by
  have hlt := (List.getElem?_eq_some_iff.mp hr').1
  cases o with
  | none =>
    change i < live.runs.length at hlt
    omega
  | some o =>
    cases o with
    | drop uri =>
      change i < (live.halt uri).runs.length at hlt
      rw [length_halt] at hlt
      omega
    | lint uri text =>
      change i < ((live.halt uri).runs ++ [_]).length at hlt
      rw [List.length_append, length_halt, List.length_singleton] at hlt
      obtain rfl : i = live.runs.length := by omega
      cases (getElem?_obey_lint live uri text).symm.trans hr'
      exact ⟨rfl, rfl, rfl⟩

/-- What becomes of a run in one step. It does not live on if its address is touched while it is the
registered one. -/
theorem exists_step (hr : live.runs[i]? = some r) (h : Happening) :
    ∃ r', (live.step h).1.runs[i]? = some r' ∧ r.Becomes live.session r' ∧
      (live.registered? r.uri = some i → live.touched? h = some r.uri → r'.isLive = false) := by
  have hupdate : ∀ j (f : LintRun → LintRun × List Event), r.Becomes live.session (f r).1 →
      ∃ r', (live.update j f).1.runs[i]? = some r' ∧ r.Becomes live.session r' := by
    intro j f hf
    rw [update, List.getElem?_modify, hr]
    by_cases hj : j = i
    · exact ⟨(f r).1, by simp [hj], hf⟩
    · exact ⟨r, by simp [hj], .rfl⟩
  cases h with
  | acted a =>
    have hacted :
        (LiveSession.mk (live.session.act a).1 live.runs live.registry).runs[i]? = some r := hr
    obtain ⟨r', hr', hbecomes, hdead⟩ := exists_obey hacted (live.session.order? a)
    exact ⟨r', hr', hbecomes, fun hi htouched => hdead r.uri htouched hi⟩
  | woke j =>
    obtain ⟨r', hr', hbecomes⟩ := hupdate j _ (r.becomes_wake live.session)
    exact ⟨r', hr', hbecomes, nofun⟩
  | linted j =>
    obtain ⟨r', hr', hbecomes⟩ := hupdate j _ (r.becomes_conclude live.session)
    exact ⟨r', hr', hbecomes, nofun⟩

/-- A run was there before the step, or the step launched it. -/
theorem step_origin (hr' : (live.step h).1.runs[i]? = some r') :
    (∃ r, live.runs[i]? = some r ∧ r.Becomes live.session r' ∧
      (live.registered? r.uri = some i → live.touched? h = some r.uri → r'.isLive = false)) ∨
    ∃ a, h = .acted a ∧ live.session.order? a = some (.lint r'.uri r'.text) ∧
      i = live.runs.length ∧ r'.phase = .sleeping := by
  by_cases hi : i < live.runs.length
  · obtain ⟨r'', hr'', hbecomes, hdead⟩ := exists_step (List.getElem?_eq_getElem hi) h
    cases hr''.symm.trans hr'
    exact .inl ⟨_, List.getElem?_eq_getElem hi, hbecomes, hdead⟩
  · have hlt := (List.getElem?_eq_some_iff.mp hr').1
    cases h with
    | acted a =>
      obtain ⟨horder, hlength, hphase⟩ := obey_origin hr' (Nat.le_of_not_lt hi)
      exact .inr ⟨a, rfl, horder, hlength, hphase⟩
    | woke j =>
      rw [step, update, List.length_modify] at hlt
      exact absurd hlt hi
    | linted j =>
      rw [step, update, List.length_modify] at hlt
      exact absurd hlt hi

/-- Each registered run is one of its address, each run that is not over is registered, and a linter
was started on the text of its run. -/
structure Sound (live : LiveSession) : Prop where
  filed : ∀ uri i, live.registered? uri = some i → ∃ r, live.runs[i]? = some r ∧ r.uri = uri
  registered : ∀ (i : Nat) (r : LintRun), live.runs[i]? = some r → r.isLive →
    live.registered? r.uri = some i
  jobs : ∀ (i : Nat) (r : LintRun) job, live.runs[i]? = some r → r.phase = .linting job →
    r.source live.session = .ok job.text

theorem registered?_step_of_ne (htouched : live.touched? h ≠ some v) :
    (live.step h).1.registered? v = live.registered? v := by
  cases h with
  | acted a => exact registered?_obey_of_ne htouched
  | woke | linted => rfl

theorem session_obey (live : LiveSession) (o : Option Order) :
    (live.obey o).session = live.session := by
  match o with
  | none | some (.drop _) | some (.lint _ _) => rfl

theorem disk_step (live : LiveSession) (h : Happening) :
    (live.step h).1.session.workspace.disk = live.session.workspace.disk := by
  cases h with
  | acted a =>
    rw [step, session_obey]
    exact live.session.disk_act a
  | woke | linted => rfl

theorem Sound.step (hs : live.Sound) (h : Happening) : (live.step h).1.Sound where
  filed uri i hi := by
    by_cases htouched : live.touched? h = some uri
    · -- the only entry that a step makes is that of the run it launches
      cases h with
      | woke | linted => cases htouched
      | acted a =>
        obtain ⟨o, ho, rfl⟩ := Option.map_eq_some_iff.mp htouched
        rw [LiveSession.step, ho] at hi ⊢
        obtain ⟨rfl, text, hlint⟩ := registered?_obey_self hi
        rw [hlint]
        exact ⟨_, getElem?_obey_lint _ _ _, rfl⟩
    · rw [registered?_step_of_ne htouched] at hi
      obtain ⟨r, hr, rfl⟩ := hs.filed uri i hi
      obtain ⟨r', hr', hbecomes, -⟩ := exists_step hr h
      exact ⟨r', hr', hbecomes.uri⟩
  registered i r' hr' hlive := by
    rcases step_origin hr' with ⟨r, hr, hbecomes, hdead⟩ | ⟨a, rfl, horder, rfl, -⟩
    · have hi := hs.registered i r hr (hbecomes.isLive hlive)
      -- a registered run does not outlive an action on its address
      have htouched : live.touched? h ≠ some r.uri := by
        intro htouched
        cases (hdead hi htouched).symm.trans hlive
      rw [hbecomes.uri, registered?_step_of_ne htouched, hi]
    · rw [LiveSession.step, horder]
      have hnew := registered?_launch (halt { live with session := (live.session.act a).1 } r'.uri)
        r'.uri r'.uri r'.text
      rw [if_pos rfl, length_halt] at hnew
      exact hnew
  jobs i r' job hr' hphase := by
    rcases step_origin hr' with ⟨r, hr, hbecomes, -⟩ | ⟨a, -, -, -, hsleeping⟩
    · have hsource : r.source live.session = .ok job.text := by
        rcases hbecomes.job job hphase with hjob | hsource
        · exact hs.jobs i r job hr hjob
        · exact hsource
      rw [LintRun.source_congr (live.disk_step h) hbecomes.uri hbecomes.text, hsource]
    · cases hsleeping.symm.trans hphase

theorem Sound.after (hs : live.Sound) (happenings : List Happening) :
    (live.after happenings).Sound := by
  induction happenings generalizing live with
  | nil => exact hs
  | cons h happenings ih => exact ih (hs.step h)

theorem sound_begin (s : Session) : Sound { session := s } := by
  refine ⟨nofun, ?_, ?_⟩
  · intro i r hr
    cases hr
  · intro i r job hr
    cases hr

end LiveSession

end SolidityServer
