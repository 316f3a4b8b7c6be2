import SolidityServer.Proofs.ExpectedDiagnostics

/-! How a session looks from one document. Actions on other documents change neither its text nor
its timer, as long as no other address stands for it. -/

namespace SolidityServer

namespace Workspace

theorem lookup_filter_ne {α : Type} (key k : String) (l : List (String × α)) :
    (l.filter (·.1 != key)).lookup k = if k = key then none else l.lookup k := by
  induction l with
  | nil => simp
  | cons entry l ih =>
    by_cases hentry : entry.1 = key
    · rw [List.filter_cons_of_neg (by simp [hentry]), ih, List.lookup_cons]
      by_cases hk : k = key
      · simp [hk]
      · have hne : (k == entry.1) = false := by simpa [hentry] using hk
        simp [hk, hne]
    · rw [List.filter_cons_of_pos (by simpa using hentry), List.lookup_cons, List.lookup_cons, ih]
      by_cases hk : k = key
      · have hne : (k == entry.1) = false := by simpa [hk] using Ne.symm hentry
        simp [hk ▸ hne, hk]
      · simp [hk]

theorem document?_put (w : Workspace) (d : Document) (v : String) :
    (w.put d).document? v = if Uri.decode v = Uri.decode d.uri then some d else w.document? v := by
  rw [document?, put, List.lookup_cons, lookup_filter_ne]
  by_cases hv : Uri.decode v = Uri.decode d.uri
  · simp [hv]
  · have hne : (Uri.decode v == Uri.decode d.uri) = false := by simpa using hv
    simp only [hne, hv, if_false]
    rfl

theorem document?_close (w : Workspace) (uri v : String) :
    (w.close uri).document? v =
      if Uri.decode v = Uri.decode uri then none else w.document? v :=
  lookup_filter_ne _ _ _

end Workspace

namespace Timer

variable {u v : String} {timers : List Timer}

theorem filter_cancel_self (u : String) (timers : List Timer) :
    (cancel u timers).filter (·.uri == u) = [] := by
  refine List.filter_eq_nil_iff.mpr fun t ht => ?_
  have hne := (List.mem_filter.mp ht).2
  simpa using hne

theorem filter_cancel_other (h : v ≠ u) :
    (cancel v timers).filter (·.uri == u) = timers.filter (·.uri == u) := by
  rw [cancel, List.filter_filter]
  refine List.filter_congr fun t _ => ?_
  by_cases ht : t.uri = u
  · simp [ht, h.symm]
  · simp [ht]

theorem filter_schedule_self (now : Nat) (u : String) (text : Option String) (timers : List Timer) :
    (schedule now u text timers).filter (·.uri == u) =
      [{ uri := u, text, due := now + delay }] := by
  rw [schedule, List.filter_append, filter_cancel_self]
  simp

theorem filter_schedule_other (h : v ≠ u) (now : Nat) (text : Option String) :
    (schedule now v text timers).filter (·.uri == u) = timers.filter (·.uri == u) := by
  rw [schedule, List.filter_append, filter_cancel_other h]
  simp [h]

theorem filter_finish (now : Nat) (u : String) (timers : List Timer) :
    (finish now timers).filter (·.uri == u) = finish now (timers.filter (·.uri == u)) := by
  rw [finish, finish, List.filter_map]
  refine congrArg _ (List.filter_congr fun t _ => ?_)
  simp only [Function.comp]
  split <;> rfl

end Timer

namespace Session

variable {s : Session} {u v : String} {o : Outlook} {a : Action}

/-- How a document stands in a session. -/
structure Shows (s : Session) (u : String) (o : Outlook) : Prop where
  process : s.process = o.process
  encoding : s.workspace.encoding = o.encoding
  settings : s.settings = o.settings
  level : s.level = o.settings.level
  clock : s.clock = o.clock
  text : (s.workspace.document? u).map Document.text = o.text
  filed : ∀ v d, s.workspace.document? v = some d → Uri.decode d.uri = Uri.decode v
  named : ∀ d, s.workspace.document? u = some d → d.uri = u

theorem Shows.timers (h : s.Shows u o) (timers : List Timer) : Shows { s with timers } u o :=
  ⟨h.process, h.encoding, h.settings, h.level, h.clock, h.text, h.filed, h.named⟩

theorem Shows.schedule (h : s.Shows u o) (v : String) : (s.schedule v).Shows u o := by
  unfold Session.schedule
  split
  · exact h.timers _
  · exact h.timers _

theorem Shows.put (h : s.Shows u o) {d : Document}
    (hd : Uri.decode d.uri = Uri.decode u → d.uri = u) :
    Shows { s with workspace := s.workspace.put d } u
      { o with text := if d.uri = u then some d.text else o.text } where
  process := h.process
  encoding := h.encoding
  settings := h.settings
  level := h.level
  clock := h.clock
  text := by
    rw [Workspace.document?_put]
    by_cases hu : d.uri = u
    · simp [hu]
    · have hne : Uri.decode u ≠ Uri.decode d.uri := fun heq => hu (hd heq.symm)
      simp [hu, hne, h.text]
  filed v e he := by
    rw [Workspace.document?_put] at he
    split at he
    next hv =>
      cases he
      exact hv.symm
    next => exact h.filed v e he
  named e he := by
    rw [Workspace.document?_put] at he
    split at he
    next hu =>
      cases he
      exact hd hu.symm
    next => exact h.named e he

theorem Shows.close (h : s.Shows u o) (hv : Uri.decode v = Uri.decode u → v = u) :
    Shows { s with workspace := s.workspace.close v } u
      { o with text := if v = u then none else o.text } where
  process := h.process
  encoding := h.encoding
  settings := h.settings
  level := h.level
  clock := h.clock
  text := by
    rw [Workspace.document?_close]
    by_cases hu : v = u
    · simp [hu]
    · have hne : Uri.decode u ≠ Uri.decode v := fun heq => hu (hv heq.symm)
      simp [hu, hne, h.text]
  filed k e he := by
    rw [Workspace.document?_close] at he
    split at he
    next => cases he
    next => exact h.filed k e he
  named e he := by
    rw [Workspace.document?_close] at he
    split at he
    next => cases he
    next => exact h.named e he

/-- An address that stands for the document under another name is not in use. -/
theorem Shows.uri_eq_iff (h : s.Shows u o) (hv : Uri.decode v = Uri.decode u → v = u) {d : Document}
    (hd : s.workspace.document? v = some d) : d.uri = u ↔ v = u := by
  constructor
  · rintro rfl
    exact hv (h.filed v d hd).symm
  · rintro rfl
    exact h.named d hd

theorem Shows.change (h : s.Shows u o) (hv : Uri.decode v = Uri.decode u → v = u) {d : Document}
    {changes : List Change} (hd : s.changed? v changes = some d) :
    Shows { s with workspace := s.workspace.put d } u
      (o.act u (.notified (.changed v changes))) := by
  -- the document keeps the address it was opened under, which decides whose text this is
  obtain ⟨d₀, hd₀, rfl⟩ := Option.map_eq_some_iff.mp hd
  have hiff := h.uri_eq_iff hv hd₀
  have hput := h.put (d := ⟨d₀.uri, changes.foldl (Change.apply s.workspace.encoding) d₀.text⟩)
    fun heq => hiff.mpr (hv ((h.filed v d₀ hd₀).symm.trans heq))
  by_cases hvu : v = u
  · subst hvu
    have htext : o.text = some d₀.text := by
      rw [← h.text, hd₀]
      rfl
    have hact : o.act v (.notified (.changed v changes)) =
        { o with text := some (changes.foldl (Change.apply s.workspace.encoding) d₀.text) } := by
      simp [Outlook.act, htext, h.encoding]
    rw [hact]
    simpa only [hiff.mpr rfl, if_true] using hput
  · have hdu : d₀.uri ≠ u := fun heq => hvu (hiff.mp heq)
    simpa only [Outlook.act, hvu, hdu, if_false] using hput

/-- What a session shows of a document goes by the actions on that document. -/
theorem Shows.act (h : s.Shows u o)
    (ha : ∀ v, a.uri? = some v → Uri.decode v = Uri.decode u → v = u) :
    (s.act a).1.Shows u (o.act u a) := by
  cases a with
  | configured options =>
    refine ⟨h.process, h.encoding, ?_, ?_, h.clock, h.text, h.filed, h.named⟩
    · exact congrArg (·.overlay options) h.settings
    · exact congrArg (fun settings => (settings.overlay options).level) h.settings
  | notified n =>
    cases n with
    | opened v text =>
      have hput := h.put (d := ⟨v, text⟩) (ha v rfl)
      simp only [Session.act, step, didOpen]
      exact hput.schedule v
    | changed v changes =>
      simp only [Session.act, step, didChange]
      cases hd : s.changed? v changes with
      | some d =>
        have hchange := h.change (ha v rfl) hd
        simp only
        exact hchange.schedule v
      | none =>
        have hnone : s.workspace.document? v = none := Option.map_eq_none_iff.mp hd
        have htext : (if v = u then o.text.map (changes.foldl (Change.apply o.encoding))
            else o.text) = o.text := by
          split
          next hvu =>
            subst hvu
            simp [← h.text, hnone]
          next => rfl
        simpa only [Outlook.act, htext] using h
    | saved v => exact h.schedule v
    | closed v => exact (h.close (ha v rfl)).timers _
    | elapsed milliseconds =>
      refine ⟨h.process, h.encoding, h.settings, h.level, ?_, h.text, h.filed, h.named⟩
      exact congrArg (· + milliseconds) h.clock

theorem timers_schedule_self (h : s.Shows u o) (hopen : o.text.isSome) :
    (s.schedule u).timers.filter (·.uri == u) =
      [{ uri := u, text := o.text, due := o.clock + Timer.delay }] := by
  unfold schedule
  cases hd : s.workspace.document? u with
  | none => simp [← h.text, hd] at hopen
  | some d =>
    have htext : o.text = some d.text := by
      rw [← h.text, hd]
      rfl
    simp only [h.named d hd, Timer.filter_schedule_self, h.clock, htext]

theorem timers_schedule_other (h : s.Shows u o) (hv : Uri.decode v = Uri.decode u → v = u)
    (hne : v ≠ u) : (s.schedule v).timers.filter (·.uri == u) = s.timers.filter (·.uri == u) := by
  unfold schedule
  cases hd : s.workspace.document? v with
  | none => exact Timer.filter_schedule_other hne _ _
  | some d =>
    have hdu : d.uri ≠ u := fun heq => hne ((h.uri_eq_iff hv hd).mp heq)
    exact Timer.filter_schedule_other hdu _ _

/-- Actions on other documents leave the timer alone. -/
theorem timers_of_other (h : s.Shows u o) (ha : a.uri? = some v)
    (hv : Uri.decode v = Uri.decode u → v = u) (hne : v ≠ u) :
    (s.act a).1.timers.filter (·.uri == u) = s.timers.filter (·.uri == u) := by
  cases a with
  | configured => cases ha
  | notified n =>
    cases n with
    | elapsed => cases ha
    | opened v text =>
      cases ha
      exact timers_schedule_other (h.put (d := ⟨v, text⟩) hv) hv hne
    | changed v changes =>
      cases ha
      simp only [act, step, didChange]
      cases hd : s.changed? v changes with
      | none => rfl
      | some d => exact timers_schedule_other (h.change hv hd) hv hne
    | saved v =>
      cases ha
      exact timers_schedule_other h hv hne
    | closed v =>
      cases ha
      exact Timer.filter_cancel_other hne

end Session

end SolidityServer
