import SolidityServer.Proofs.DiagnosticNews
import SolidityServer.Proofs.DocumentOutlook

/-! Diagnostics wait for a pause. A session keeps one timer for each document, and what it makes of
all notifications together is what the actions on each document lead to by themselves. -/

namespace SolidityServer

namespace Session

variable {s : Session} {u v : String} {o : Outlook} {a : Action} {actions : List Action} {due : Nat}

theorem newsIn_fire (h : s.Shows u o) {text : String} (htext : o.text = some text) (due : Nat) :
    newsIn u due (some u) (s.fire { uri := u, text := o.text, due }) = (o.lint u).map (due, ·) := by
  unfold fire Outlook.lint
  simp only [htext]
  rw [newsIn_append, newsIn_debug, List.nil_append, lintText_eq, newsIn_append, newsIn_started,
    List.nil_append, h.process, h.settings]
  cases (Lint.lint o.process o.settings text (Uri.documentPath u)).diagnostics
      o.settings.linter with
  | error e =>
    simp only
    rw [newsIn_complain, h.level]
    split
    · rfl
    · rfl
  | ok found =>
    simp only
    rw [newsIn_append, newsIn_published, newsIn_debug]
    rfl

/-- The run that a document waits for. -/
def Awaits (s : Session) (u : String) (o : Outlook) : Option Nat → Prop
  | none => ∀ t ∈ s.timers.filter (·.uri == u), t.finished = true
  | some due => s.timers.filter (·.uri == u) = [{ uri := u, text := o.text, due }] ∧
      o.clock < due ∧ o.text.isSome

/-- Opening, changing or saving a document has it wait for the full delay. -/
theorem awaits_of_touch (h : s.Shows u o) (ha : a.uri? = some u) (hclose : a.isClose = false)
    (hedit : a.isEdit → o.text.isSome) :
    (s.entries a).filterMap (newsOf u) = [] ∧
      (s.act a).1.Awaits u (o.act u a) (some (o.clock + Timer.delay)) := by
  have hdelay : o.clock < o.clock + Timer.delay := Nat.lt_add_of_pos_right (by decide)
  cases a with
  | configured => cases ha
  | notified n =>
    cases n with
    | elapsed => cases ha
    | closed => cases hclose
    | opened v text =>
      cases ha
      have hopen : (o.act u (.notified (.opened u text))).text.isSome := by simp [Outlook.act]
      exact ⟨newsIn_debug _ _ _, timers_schedule_self (h.put (d := ⟨u, text⟩) fun _ => rfl) hopen,
        hdelay, hopen⟩
    | changed v changes =>
      cases ha
      have hopen := hedit rfl
      have hopen' : (o.act u (.notified (.changed u changes))).text.isSome := by
        simpa [Outlook.act] using hopen
      obtain ⟨d, hd⟩ : ∃ d, s.changed? u changes = some d := by
        rw [← h.text, Option.isSome_map, Option.isSome_iff_exists] at hopen
        obtain ⟨d₀, hd₀⟩ := hopen
        exact ⟨_, congrArg (Option.map _) hd₀⟩
      simp only [entries, act, step, didChange, hd]
      exact ⟨newsIn_debug _ _ _, timers_schedule_self (h.change (fun _ => rfl) hd) hopen', hdelay,
        hopen'⟩
    | saved v =>
      cases ha
      exact ⟨rfl, timers_schedule_self h (hedit rfl), hdelay, hedit rfl⟩

theorem awaits_of_close (ha : a.uri? = some u) (hclose : a.isClose) :
    (s.entries a).filterMap (newsOf u) = [(s.clock, .diagnostics [])] ∧
      (s.act a).1.Awaits u (o.act u a) none := by
  cases a with
  | configured => cases ha
  | notified n =>
    cases n with
    | elapsed | opened | changed | saved => cases hclose
    | closed v =>
      cases ha
      refine ⟨newsIn_published _ _ _, fun t ht => ?_⟩
      rw [show (s.act (.notified (.closed u))).1.timers = Timer.cancel u s.timers from rfl,
        Timer.filter_cancel_self] at ht
      cases ht

/-- A run that is due by now is done, and no other is. -/
theorem awaits_of_elapsed {p : Option Nat} (h : s.Shows u o) (hp : s.Awaits u o p)
    (milliseconds : Nat) :
    ((∃ due, p = some due ∧ due ≤ o.clock + milliseconds ∧
        (s.entries (.notified (.elapsed milliseconds))).filterMap (newsOf u) =
          (o.lint u).map (due, ·) ∧
        (s.elapse milliseconds).1.Awaits u (o.act u (.notified (.elapsed milliseconds))) none) ∨
      (∀ due, p = some due → o.clock + milliseconds < due) ∧
        (s.entries (.notified (.elapsed milliseconds))).filterMap (newsOf u) = [] ∧
        (s.elapse milliseconds).1.Awaits u (o.act u (.notified (.elapsed milliseconds))) p) := by
  have hfinish : (s.elapse milliseconds).1.timers.filter (·.uri == u) =
      Timer.finish (s.clock + milliseconds) (s.timers.filter (·.uri == u)) :=
    Timer.filter_finish _ _ _
  rw [news_of_elapsed]
  cases p with
  | none =>
    -- a finished timer may still stand in the list, but it is never due again
    refine .inr ⟨nofun, ?_, fun t ht => ?_⟩
    · rw [List.filter_eq_nil_iff.mpr fun t ht => by simp [Timer.isDue, hp t ht]]
      rfl
    · rw [hfinish] at ht
      obtain ⟨t₀, ht₀, rfl⟩ := List.mem_map.mp ht
      split
      · rfl
      · exact hp t₀ ht₀
  | some due =>
    obtain ⟨htimer, hlt, hopen⟩ := hp
    obtain ⟨text, htext⟩ := Option.isSome_iff_exists.mp hopen
    rw [htimer] at hfinish ⊢
    rw [h.clock] at hfinish ⊢
    by_cases hdue : due ≤ o.clock + milliseconds
    · have hisDue : Timer.isDue (o.clock + milliseconds) { uri := u, text := o.text, due } := by
        simpa [Timer.isDue] using hdue
      refine .inl ⟨due, rfl, hdue, ?_, fun t ht => ?_⟩
      · rw [List.filter_cons_of_pos hisDue, List.filter_nil, List.flatMap_singleton]
        exact newsIn_fire h htext due
      · rw [hfinish, Timer.finish, List.map_singleton, if_pos hisDue] at ht
        rw [List.mem_singleton.mp ht]
    · have hisDue : ¬Timer.isDue (o.clock + milliseconds) { uri := u, text := o.text, due } := by
        simpa [Timer.isDue] using hdue
      refine .inr ⟨fun due' heq => ?_, ?_, ?_, ?_, hopen⟩
      · cases heq
        omega
      · rw [List.filter_cons_of_neg hisDue]
        rfl
      · rw [hfinish, Timer.finish, List.map_singleton, if_neg hisDue]
        rfl
      · change o.clock + milliseconds < due
        omega

/-- What the document waits for. -/
def waits (u : String) (o : Outlook) (p : Option Nat) (actions : List Action) : List (Nat × News) :=
  p.elim [] fun due => awaited u o due actions

theorem waits_of_waiting {p : Option Nat} (huri : a.uri? ≠ some u)
    (hp : ∀ due, p = some due → o.clock + a.duration < due) :
    waits u o p (a :: actions) = waits u (o.act u a) p actions := by
  cases p with
  | none => rfl
  | some due => exact awaited_of_waiting huri (hp due rfl)

theorem waits_of_touched {p : Option Nat} (huri : a.uri? = some u) :
    waits u o p (a :: actions) = [] := by
  cases p with
  | none => rfl
  | some due => exact awaited_of_touched huri

theorem Awaits.congr {p : Option Nat} {t : Session} {o' : Outlook} (hp : s.Awaits u o p)
    (htimers : t.timers.filter (·.uri == u) = s.timers.filter (·.uri == u))
    (hclock : o'.clock = o.clock) (htext : o'.text = o.text) : t.Awaits u o' p := by
  cases p with
  | none =>
    intro timer htimer
    rw [htimers] at htimer
    exact hp timer htimer
  | some due =>
    refine ⟨?_, ?_, ?_⟩
    · rw [htimers, htext]
      exact hp.1
    · rw [hclock]
      exact hp.2.1
    · rw [htext]
      exact hp.2.2

theorem Awaits.lt {p : Option Nat} (hp : s.Awaits u o p) (due : Nat) (hdue : p = some due) :
    o.clock < due := by
  subst hdue
  exact hp.2.1

/-- One action: the news that it brings, and what the document waits for afterwards. -/
theorem news_of_act {p : Option Nat} (h : s.Shows u o) (hp : s.Awaits u o p)
    (ha : ∀ v, a.uri? = some v → Uri.decode v = Uri.decode u → v = u)
    (hedit : a.uri? = some u → a.isEdit → o.text.isSome) :
    ∃ p', (s.act a).1.Awaits u (o.act u a) p' ∧ ∀ actions,
      waits u o p (a :: actions) ++ prompted u o a actions =
        (s.entries a).filterMap (newsOf u) ++ waits u (o.act u a) p' actions := by
  by_cases huri : a.uri? = some u
  -- an action on the document drops the run it waits for
  · simp only [waits_of_touched huri, List.nil_append, prompted, huri, ne_eq, not_true_eq_false,
      if_false]
    cases hclose : a.isClose with
    | true =>
      obtain ⟨hnews, hnext⟩ := awaits_of_close (s := s) (o := o) huri hclose
      refine ⟨none, hnext, fun actions => ?_⟩
      rw [hnews, h.clock]
      rfl
    | false =>
      obtain ⟨hnews, hnext⟩ := awaits_of_touch h huri hclose (hedit huri)
      refine ⟨some (o.clock + Timer.delay), hnext, fun actions => ?_⟩
      rw [hnews]
      rfl
  · simp only [prompted, huri, ne_eq, not_false_eq_true, if_true, List.append_nil]
    cases hother : a.uri? with
    | some v =>
      -- neither the clock nor the document moves, so the wait goes on
      have hne : v ≠ u := fun heq => huri (heq ▸ hother)
      have hact : o.act u a = o := Outlook.act_of_other hother hne
      have hduration : a.duration = 0 := Action.duration_of_uri hother
      have hnext : (s.act a).1.Awaits u (o.act u a) p :=
        hp.congr (timers_of_other h hother (ha v hother) hne) (by rw [hact]) (by rw [hact])
      refine ⟨p, hnext, fun actions => ?_⟩
      rw [news_of_other hother hne, waits_of_waiting huri fun due hdue => ?_]
      · rfl
      · rw [hduration]
        exact hp.lt due hdue
    | none =>
      cases a with
      | configured options =>
        refine ⟨p, hp.congr rfl rfl rfl, fun actions => ?_⟩
        rw [news_of_configured, waits_of_waiting huri hp.lt]
        rfl
      | notified n =>
        cases n with
        | opened | changed | saved | closed => cases hother
        | elapsed milliseconds =>
          rcases awaits_of_elapsed h hp milliseconds with
            ⟨due, rfl, hdue, hnews, hnext⟩ | ⟨hlater, hnews, hnext⟩
          · refine ⟨none, hnext, fun actions => ?_⟩
            rw [hnews, waits, Option.elim_some, awaited_of_reached huri hdue]
            exact (List.append_nil _).symm
          · refine ⟨p, hnext, fun actions => ?_⟩
            rw [hnews, waits_of_waiting huri hlater]
            rfl

theorem news_timeline {p : Option Nat} (h : s.Shows u o) (hp : s.Awaits u o p)
    (hname : ∀ a ∈ actions, ∀ v, a.uri? = some v → Uri.decode v = Uri.decode u → v = u)
    (hopen : EditsOpen u o actions) :
    (s.timeline actions).filterMap (newsOf u) = waits u o p actions ++ expected u o actions := by
  -- what is pending has to be general: each action leaves another run to wait for
  induction actions generalizing s o p with
  | nil => cases p <;> rfl
  | cons a actions ih =>
    have ha := hname a List.mem_cons_self
    obtain ⟨hedit, hopen⟩ := hopen
    obtain ⟨p', hp', hnews⟩ := news_of_act h hp ha hedit
    have hrest := ih (h.act ha) hp' (fun b hb => hname b (List.mem_cons_of_mem a hb)) hopen
    calc (s.timeline (a :: actions)).filterMap (newsOf u)
        = (s.entries a).filterMap (newsOf u) ++
            ((s.act a).1.timeline actions).filterMap (newsOf u) := List.filterMap_append
      _ = ((s.entries a).filterMap (newsOf u) ++ waits u (o.act u a) p' actions) ++
            expected u (o.act u a) actions := by rw [hrest, List.append_assoc]
      _ = waits u o p (a :: actions) ++ expected u o (a :: actions) := by
        rw [← hnews actions, expected, List.append_assoc]

theorem shows_start (environment : List (String × String)) (rootUri : Option String)
    {workspace : Workspace} (trees : Trees) (process : Lint.Process)
    (hempty : workspace.documents = []) (u : String) :
    (start environment rootUri workspace trees process).1.Shows u
      (.initial environment workspace.encoding process) := by
  have hnone : ∀ v, workspace.document? v = none := by
    intro v
    rw [Workspace.document?, hempty]
    rfl
  unfold start Outlook.initial
  generalize Settings.ofEnvironment environment = settings
  refine ⟨rfl, rfl, rfl, rfl, rfl, ?_, fun v d hd => ?_, fun d hd => ?_⟩
  · exact congrArg (Option.map _) (hnone u)
  · cases (hnone v).symm.trans hd
  · cases (hnone u).symm.trans hd

/-- Diagnostics are debounced exactly. Over a whole session, with options from the client at any
time, what a client gets to know about a document is an empty list whenever it is closed, and the
result of linting its text under the settings of the moment whenever it has been left alone for the
delay after it was opened, changed or saved. Actions on other documents have no part in it. -/
theorem diagnostics_debounced (environment : List (String × String)) (rootUri : Option String)
    (workspace : Workspace) (trees : Trees) (process : Lint.Process)
    (hempty : workspace.documents = []) {u : String} {actions : List Action}
    (hname : ∀ a ∈ actions, ∀ v, a.uri? = some v → Uri.decode v = Uri.decode u → v = u)
    (hopen : EditsOpen u (.initial environment workspace.encoding process) actions) :
    let s := (start environment rootUri workspace trees process).1
    let news (actions : List Action) := (s.timeline actions).filterMap (newsOf u)
    (s.timeline actions).map Entry.event = s.run actions ∧
      ((s.timeline actions).Pairwise fun e e' => e.time ≤ e'.time) ∧
      news actions = expected u (.initial environment workspace.encoding process) actions ∧
      news (actions.filter (concerns u)) = news actions := by
  intro s news
  have hshows : s.Shows u (.initial environment workspace.encoding process) :=
    shows_start environment rootUri trees process hempty u
  have hawaits : s.Awaits u (.initial environment workspace.encoding process) none := by
    intro t ht
    cases ht
  have hnews := news_timeline hshows hawaits hname hopen
  have hnews' := news_timeline hshows hawaits
    (fun a ha => hname a (List.mem_filter.mp ha).1) hopen.filter
  have htimed : s.Timed := ⟨.nil, nofun, nofun⟩
  refine ⟨events_timeline s actions, (timeline_sorted htimed actions).1, hnews, ?_⟩
  calc news (actions.filter (concerns u))
      = expected u (.initial environment workspace.encoding process)
          (actions.filter (concerns u)) := hnews'
    _ = expected u (.initial environment workspace.encoding process) actions := expected_filter _ _
    _ = news actions := hnews.symm

/-- A pause after an edit, with a linter that refuses the text; then one after a save, with linting
turned off by then. -/
def editedSession : List Action :=
  [.notified (.opened "file:///a.sol" "contract A"), .notified (.elapsed 400),
    .notified (.opened "file:///b.sol" ""),
    .notified (.changed "file:///a.sol" [.whole "contract B"]), .notified (.elapsed 700),
    .notified (.closed "file:///b.sol"), .notified (.elapsed 300),
    .notified (.saved "file:///a.sol"), .configured (.obj [("linter", .str "none")]),
    .notified (.elapsed 1000), .notified (.closed "file:///a.sol")]

def pickyLinter : Lint.Process := fun run =>
  if run.input = "contract B" then .denied else .notFound

theorem diagnostics_of_editedSession :
    ((start [] none ⟨⟨[], []⟩, [], .utf8⟩ (fun _ => none) pickyLinter).1.timeline
        editedSession).filterMap (newsOf "file:///a.sol") =
      [(1400, .failure ("ERROR - Linting failed for file:///a.sol: "
          ++ "[Errno 13] Permission denied: 'solhint'")),
        (2400, .diagnostics []), (2400, .diagnostics [])] := by
  have hnames : ∀ v ∈ editedSession.filterMap Action.uri?,
      Uri.decode v = Uri.decode "file:///a.sol" → v = "file:///a.sol" := by decide +kernel
  have hopen : EditsOpen "file:///a.sol" (.initial [] .utf8 pickyLinter) editedSession := by
    simp [EditsOpen, editedSession, Action.uri?, Action.isEdit, Outlook.act]
  obtain ⟨-, -, hnews, -⟩ := diagnostics_debounced [] none ⟨⟨[], []⟩, [], .utf8⟩ (fun _ => none)
    pickyLinter rfl (fun a ha v hv => hnames v (List.mem_filterMap.mpr ⟨a, ha, hv⟩)) hopen
  exact hnews.trans rfl

end Session

end SolidityServer
