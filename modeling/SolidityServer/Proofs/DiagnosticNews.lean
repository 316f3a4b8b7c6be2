import SolidityServer.Proofs.ExpectedDiagnostics

/-! Which events are news about the diagnostics of a document: the errors that are logged on its
account, and what is published for it. They come from its timer and from closing it. -/

namespace SolidityServer

namespace Session

variable {s : Session} {u v : String} {a : Action}

/-- The news among some events. -/
def newsIn (u : String) (time : Nat) (about : Option String) (events : List Event) :
    List (Nat × News) := (stamp time about events).filterMap (newsOf u)

theorem newsIn_append (time : Nat) (about : Option String) (events events' : List Event) :
    newsIn u time about (events ++ events') =
      newsIn u time about events ++ newsIn u time about events' := by
  simp [newsIn, stamp]

theorem newsIn_eq_nil {time : Nat} {about : Option String} {events : List Event}
    (h : ∀ event ∈ events, newsOf u ⟨time, about, event⟩ = none) :
    newsIn u time about events = [] := by
  refine List.filterMap_eq_nil_iff.mpr fun e he => ?_
  obtain ⟨event, hevent, rfl⟩ := List.mem_map.mp he
  exact h event hevent

theorem newsIn_of_other {time : Nat} {about : Option String} {events : List Event}
    (habout : about ≠ some u) (h : ∀ found, .published u found ∉ events) :
    newsIn u time about events = [] := by
  refine newsIn_eq_nil fun event hevent => ?_
  cases event with
  | ran => rfl
  | logged m => exact if_neg fun hm => habout hm.1
  | published uri found =>
    have hne : uri ≠ u := fun heq => h found (heq ▸ hevent)
    exact if_neg hne

/-- Records that are no errors are no news. -/
theorem newsIn_logged {time : Nat} {about : Option String} {records : List Record}
    (h : ∀ r ∈ records, r.level < Level.error) : newsIn u time about (s.logged records) = [] := by
  refine newsIn_eq_nil fun event hevent => ?_
  obtain ⟨r, hr, rfl⟩ := List.mem_map.mp hevent
  have hlevel : ¬Level.error ≤ r.level := Int.not_le.mpr (h r (List.mem_filter.mp hr).1)
  have htype : r.toMessage.type ≠ .error := by
    simp only [Record.toMessage, MessageType.ofLevel, hlevel, if_false]
    split
    · simp
    · split <;> simp
  exact if_neg fun hm => htype hm.2

theorem newsIn_debug (time : Nat) (about : Option String) (message : String) :
    newsIn u time about (s.debug message) = [] := by
  refine newsIn_logged fun r hr => ?_
  rw [List.mem_singleton.mp hr]
  change Level.debug < Level.error
  decide

/-- A failure is told if errors are logged. -/
theorem newsIn_complain (time : Nat) (message : String) :
    newsIn u time (some u) (s.complain message) =
      if s.level ≤ Level.error then [(time, .failure ("ERROR - " ++ message))] else [] := by
  have hnews : newsOf u
      ⟨time, some u, .logged (Record.toMessage { level := Level.error, message })⟩ =
        some (time, .failure ("ERROR - " ++ message)) := if_pos ⟨rfl, rfl⟩
  unfold newsIn stamp complain logged
  by_cases hlevel : s.level ≤ Level.error
  · simp [hlevel, hnews]
  · simp [hlevel]

theorem newsIn_published (time : Nat) (about : Option String) (found : List Diagnostic) :
    newsIn u time about [.published u found] = [(time, .diagnostics found)] := by
  simp [newsIn, stamp, newsOf]

theorem published_not_mem_logged {records : List Record} {found : List Diagnostic} :
    .published u found ∉ s.logged records := by
  intro hmem
  obtain ⟨r, -, hr⟩ := List.mem_map.mp hmem
  cases hr

/-- A linter logs warnings only. -/
theorem lint_log {process : Lint.Process} {settings : Settings} {source path : String} :
    ∀ r ∈ (Lint.lint process settings source path).log, r.level < Level.error := by
  have hwarn : ∀ message, ∀ r ∈ (Lint.Result.warn message).log, r.level < Level.error := by
    intro message r hr
    rw [List.mem_singleton.mp hr]
    change Level.warning < Level.error
    decide
  have hcrash : ∀ errors path code, ∀ r ∈ (Lint.crash errors path code).log,
      r.level < Level.error := by
    intro errors path code
    unfold Lint.crash
    dsimp only
    split
    · exact hwarn _
    · simp
  have hstart : ∀ run finish,
      (∀ output errors path code, ∀ r ∈ (finish output errors path code).log,
        r.level < Level.error) →
      ∀ r ∈ (Lint.start process run path finish).log, r.level < Level.error := by
    intro run finish hfinish
    unfold Lint.start
    dsimp only
    split
    · exact hfinish _ _ _ _
    · exact hwarn _
    · exact hwarn _
    · simp
  unfold Lint.lint
  split
  · refine hstart _ _ fun output errors path code => ?_
    unfold Lint.solhintResult
    split
    · simp
    · exact hcrash _ _ _
    · simp
  · refine hstart _ _ fun output errors path code => ?_
    unfold Lint.soliumResult
    dsimp only
    split
    · simp
    · exact hcrash _ _ _
  · simp [Lint.Result.empty]

/-- What the start of a linter shows. -/
def started (s : Session) (result : Lint.Result) : List Event :=
  result.run.toList.map .ran ++ s.logged result.log

theorem published_not_mem_started {result : Lint.Result} {found : List Diagnostic} :
    .published u found ∉ s.started result := by
  intro hmem
  rcases List.mem_append.mp hmem with hmem | hmem
  · obtain ⟨run, -, hrun⟩ := List.mem_map.mp hmem
    cases hrun
  · exact published_not_mem_logged hmem

theorem newsIn_started {time : Nat} {about : Option String} {source path : String} :
    newsIn u time about (s.started (Lint.lint s.process s.settings source path)) = [] := by
  rw [started, newsIn_append, newsIn_logged lint_log, List.append_nil]
  refine newsIn_eq_nil fun event hevent => ?_
  obtain ⟨run, -, rfl⟩ := List.mem_map.mp hevent
  rfl

theorem lintText_eq (s : Session) (uri text : String) :
    let result := Lint.lint s.process s.settings text (Uri.documentPath uri)
    s.lintText uri text = s.started result ++
      match result.diagnostics s.settings.linter with
      | .error e => s.complain ("Linting failed for " ++ uri ++ ": " ++ e.message)
      | .ok found => [.published uri found] ++
          s.debug ("Published " ++ toString found.length ++ " diagnostics for " ++ uri) := by
  intro result
  unfold lintText
  dsimp only
  cases result.diagnostics s.settings.linter with
  | error e => rfl
  | ok found => exact List.append_assoc _ _ _

theorem published_of_lintText {uri text : String} {found : List Diagnostic}
    (h : .published u found ∈ s.lintText uri text) :
    uri = u ∧ (Lint.lint s.process s.settings text (Uri.documentPath u)).diagnostics
      s.settings.linter = .ok found := by
  rw [lintText_eq] at h
  rcases List.mem_append.mp h with h | h
  · exact absurd h published_not_mem_started
  · split at h
    · exact absurd h published_not_mem_logged
    next found' hfound =>
      rcases List.mem_append.mp h with h | h
      · cases List.mem_singleton.mp h
        exact ⟨rfl, hfound⟩
      · exact absurd h published_not_mem_logged

/-- A run publishes for the document of its timer only. -/
theorem uri_of_published {t : Timer} {found : List Diagnostic} (h : .published u found ∈ s.fire t) :
    t.uri = u := by
  rcases List.mem_append.mp h with h | h
  · exact absurd h published_not_mem_logged
  · split at h
    · exact absurd h published_not_mem_logged
    · exact (published_of_lintText h).1

theorem published_of_act {found : List Diagnostic} (ha : a.uri? = some v)
    (h : .published u found ∈ (s.act a).2) : v = u := by
  cases a with
  | configured => cases ha
  | notified n =>
    cases n with
    | elapsed => cases ha
    | opened => exact absurd h published_not_mem_logged
    | changed v changes =>
      simp only [act, step, didChange] at h
      split at h
      · cases h
      · exact absurd h published_not_mem_logged
    | saved => cases h
    | closed v =>
      cases ha
      cases List.mem_singleton.mp h
      rfl

theorem news_of_other (ha : a.uri? = some v) (hne : v ≠ u) :
    (s.entries a).filterMap (newsOf u) = [] := by
  rcases s.entries_cases a with ⟨milliseconds, rfl⟩ | hstamp
  · cases ha
  · rw [hstamp, ha]
    refine newsIn_of_other (fun heq => hne (Option.some.inj heq)) fun found hmem => ?_
    exact hne (published_of_act ha hmem)

theorem news_of_configured (options : Json) :
    (s.entries (.configured options)).filterMap (newsOf u) = [] := by
  refine newsIn_of_other nofun fun found hmem => ?_
  rcases List.mem_append.mp hmem with hmem | hmem
  · exact published_not_mem_logged hmem
  · exact published_not_mem_logged hmem

/-- The runs of other documents are no news. -/
theorem news_of_fires (timers : List Timer) :
    (timers.flatMap fun t => stamp t.due t.uri (s.fire t)).filterMap (newsOf u) =
      (timers.filter (·.uri == u)).flatMap fun t => newsIn u t.due t.uri (s.fire t) := by
  induction timers with
  | nil => rfl
  | cons t timers ih =>
    rw [List.flatMap_cons, List.filterMap_append, ih]
    by_cases ht : t.uri = u
    · rw [List.filter_cons_of_pos (by simpa using ht), List.flatMap_cons]
      rfl
    · have hnone : newsIn u t.due t.uri (s.fire t) = [] :=
        newsIn_of_other (fun heq => ht (Option.some.inj heq)) fun found hmem =>
          ht (uri_of_published hmem)
      rw [List.filter_cons_of_neg (by simpa using ht)]
      exact congrArg (· ++ _) hnone

theorem news_of_elapsed (milliseconds : Nat) :
    (s.entries (.notified (.elapsed milliseconds))).filterMap (newsOf u) =
      ((s.timers.filter (·.uri == u)).filter (·.isDue (s.clock + milliseconds))).flatMap fun t =>
        newsIn u t.due t.uri (s.fire t) := by
  rw [entries, news_of_fires, List.filter_filter, List.filter_filter]
  simp only [Bool.and_comm]

end Session

end SolidityServer
