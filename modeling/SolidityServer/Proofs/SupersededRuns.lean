import Mathlib.Data.List.Induction
import Mathlib.Data.List.Pairwise
import SolidityServer.Proofs.LiveSession

/-! What is published comes from the latest lint run of a document. A run that waits was launched by
the latest action on its document. A session whose runs are over as soon as they are due is one way
in which all this can happen. -/

namespace SolidityServer

namespace LiveSession

open Session (Order Action)

variable {live : LiveSession} {h : Happening} {i : Nat} {r : LintRun} {u : String}
  {found : List Diagnostic}

/-- A run that is not over was launched by the latest action that touched its address. -/
theorem exists_launch (hs : live.Sound) (hempty : live.runs = []) (happenings : List Happening)
    (hr : (live.after happenings).runs[i]? = some r) (hlive : r.isLive) :
    ∃ earlier a later, happenings = earlier ++ .acted a :: later ∧
      (live.after earlier).session.order? a = some (.lint r.uri r.text) ∧
      i = (live.after earlier).runs.length ∧
      Quiet r.uri (live.after (earlier ++ [.acted a])) later := by
  -- from the last happening backwards: the run was launched by it, or lived on through it
  induction happenings using List.reverseRecOn generalizing r with
  | nil =>
    rw [after, List.foldl_nil, hempty] at hr
    cases hr
  | append_singleton happenings h ih =>
    rw [after_append] at hr
    rcases step_origin hr with ⟨r₀, hr₀, hbecomes, hdead⟩ | ⟨a, rfl, horder, hlength, -⟩
    · obtain ⟨earlier, a, later, rfl, horder, hlength, hquiet⟩ := ih hr₀ (hbecomes.isLive hlive)
      have hi := (hs.after _).registered i r₀ hr₀ (hbecomes.isLive hlive)
      refine ⟨earlier, a, later ++ [h], by simp, ?_, hlength, ?_⟩
      · rw [hbecomes.uri, hbecomes.text, horder]
      · rw [hbecomes.uri]
        refine quiet_concat hquiet fun htouched => ?_
        rw [← after_append, List.append_assoc, List.singleton_append] at htouched
        cases (hdead hi htouched).symm.trans hlive
    · exact ⟨happenings, a, [], rfl, horder, hlength, trivial⟩

theorem published_of_step (hfound : .published u found ∈ (live.step h).2) :
    h = .acted (.notified (.closed u)) ∨ ∃ i r job, h = .linted i ∧ live.runs[i]? = some r ∧
      r.phase = .linting job ∧ r.uri = u ∧
      (Lint.lint live.session.process job.settings job.text (Uri.documentPath u)).diagnostics
        job.settings.linter = .ok found := by
  cases h with
  | acted a => exact .inl (congrArg _ (Session.published_of_promptly hfound))
  | woke i =>
    simp only [LiveSession.step, update] at hfound
    cases hr : live.runs[i]? with
    | none => simp [hr] at hfound
    | some r =>
      rw [hr] at hfound
      exact absurd hfound LintRun.published_not_mem_wake
  | linted i =>
    simp only [LiveSession.step, update] at hfound
    cases hr : live.runs[i]? with
    | none => simp [hr] at hfound
    | some r =>
      rw [hr] at hfound
      obtain ⟨job, hphase, huri, hresult⟩ := LintRun.published_of_conclude hfound
      exact .inr ⟨i, r, job, rfl, hr, hphase, huri, hresult⟩

def Pending (live : LiveSession) (t : Timer) : Prop :=
  ∃ i, live.registered? t.uri = some i ∧ live.runs[i]? = some { uri := t.uri, text := t.text }

variable {t : Timer}

/-- A run that nothing comes between does what its timer does. -/
theorem Pending.fire (ht : live.Pending t) :
    ∃ happenings, live.events happenings = live.session.fire t ∧
      (live.after happenings).session = live.session ∧
      ∀ t' : Timer, t'.uri ≠ t.uri → live.Pending t' → (live.after happenings).Pending t' := by
  obtain ⟨i, -, hr⟩ := ht
  refine ⟨[.woke i, .linted i], ?_, rfl, ?_⟩
  · have hwoke : (live.step (.woke i)).1.runs[i]? =
        some (LintRun.wake live.session { uri := t.uri, text := t.text }).1 := by
      simp [LiveSession.step, update, hr]
    have hfire : live.session.fire t =
        (LintRun.wake live.session { uri := t.uri, text := t.text }).2 ++
          (LintRun.conclude live.session
            (LintRun.wake live.session { uri := t.uri, text := t.text }).1).2 := by
      unfold Session.fire LintRun.wake LintRun.source
      cases t.text with
      | some text => rfl
      | none =>
        dsimp only
        cases live.session.workspace.disk.read (Uri.documentPath t.uri) with
        | error e => exact (List.append_nil _).symm
        | ok text => rfl
    rw [hfire, events, events, events, List.append_nil]
    refine congrArg₂ (· ++ ·) ?_ ?_
    · simp only [LiveSession.step, update, hr, Option.elim_some]
    · change ((live.step (.woke i)).1.runs[i]?.elim [] fun r => (r.conclude live.session).2) = _
      rw [hwoke]
      rfl
  · -- only the run itself has moved
    rintro t' hne ⟨j, hj, hr'⟩
    have hij : i ≠ j := by
      rintro rfl
      have hrun := Option.some.inj (hr'.symm.trans hr)
      exact hne (congrArg LintRun.uri hrun)
    refine ⟨j, hj, ?_⟩
    simp [after, LiveSession.step, update, hij, hr']

theorem fire_all {ts : List Timer} (hts : ∀ t ∈ ts, live.Pending t)
    (hdistinct : ts.Pairwise fun t t' => t.uri ≠ t'.uri) :
    ∃ happenings, live.events happenings = ts.flatMap live.session.fire ∧
      (live.after happenings).session = live.session ∧
      ∀ t' : Timer, (∀ t ∈ ts, t'.uri ≠ t.uri) → live.Pending t' →
        (live.after happenings).Pending t' := by
  induction ts generalizing live with
  | nil => exact ⟨[], rfl, rfl, fun _ _ ht => ht⟩
  | cons t ts ih =>
    obtain ⟨hne, hdistinct⟩ := List.pairwise_cons.mp hdistinct
    obtain ⟨first, hevents, hsession, hkept⟩ := (hts t List.mem_cons_self).fire
    obtain ⟨rest, hevents', hsession', hkept'⟩ := ih
      (fun t' ht' => hkept t' (hne t' ht').symm (hts t' (List.mem_cons_of_mem t ht'))) hdistinct
    refine ⟨first ++ rest, ?_, ?_, fun t' ht' hpending => ?_⟩
    · rw [events_append, hevents, hevents', hsession, List.flatMap_cons]
    · rw [after_append, hsession', hsession]
    · rw [after_append]
      exact hkept' t' (fun t₀ ht₀ => ht' t₀ (List.mem_cons_of_mem t ht₀))
        (hkept t' (ht' t List.mem_cons_self) hpending)

/-- Each timer that waits is that of a run that sleeps. -/
structure Mirrors (live : LiveSession) : Prop where
  distinct : live.session.timers.Pairwise fun t t' => t.uri ≠ t'.uri
  pending : ∀ t ∈ live.session.timers, t.finished = false → live.Pending t

theorem pending_halt
    (hfiled : ∀ i, live.registered? u = some i → ∃ r, live.runs[i]? = some r ∧ r.uri = u)
    (hne : t.uri ≠ u) (ht : live.Pending t) :
    (live.halt u).Pending t := by
  obtain ⟨i, hi, hr⟩ := ht
  refine ⟨i, ?_, ?_⟩
  · rw [registered?_halt, if_neg hne, hi]
  · have hother : live.registered? u ≠ some i := by
      intro hu
      obtain ⟨r, hr', rfl⟩ := hfiled i hu
      cases hr.symm.trans hr'
      exact hne rfl
    rw [getElem?_halt, if_neg hother, hr]

theorem pending_launch (hne : t.uri ≠ u) (text : Option String) (ht : live.Pending t) :
    (live.launch u text).Pending t := by
  obtain ⟨i, hi, hr⟩ := ht
  refine ⟨i, ?_, ?_⟩
  · rw [registered?_launch, if_neg hne, hi]
  · exact (List.getElem?_append_left (List.getElem?_eq_some_iff.mp hr).1).trans hr

theorem Mirrors.obey (hs : live.Sound) (hm : live.Mirrors) {s : Session} {o : Option Order}
    (htimers : s.timers =
      o.elim live.session.timers (·.onTimers live.session.clock live.session.timers)) :
    (LiveSession.obey { live with session := s } o).Mirrors := by
  have hkept : ∀ uri, ∀ t ∈ Timer.cancel uri live.session.timers, t.finished = false →
      t.uri ≠ uri ∧ (halt { live with session := s } uri).Pending t := by
    intro uri t ht hwaits
    obtain ⟨hmem, hne⟩ := List.mem_filter.mp ht
    have hne : t.uri ≠ uri := by simpa using hne
    exact ⟨hne, pending_halt (hs.filed uri) hne (hm.pending t hmem hwaits)⟩
  have hcancel : ∀ uri,
      (Timer.cancel uri live.session.timers).Pairwise fun t t' => t.uri ≠ t'.uri :=
    fun uri => hm.distinct.sublist List.filter_sublist
  match o with
  | none =>
    change s.timers = live.session.timers at htimers
    refine ⟨?_, fun t (ht : t ∈ s.timers) => ?_⟩
    · exact htimers ▸ hm.distinct
    · rw [htimers] at ht
      exact hm.pending t ht
  | some (.drop uri) =>
    change s.timers = Timer.cancel uri live.session.timers at htimers
    refine ⟨?_, fun t (ht : t ∈ s.timers) hwaits => ?_⟩
    · exact htimers ▸ hcancel uri
    · rw [htimers] at ht
      exact (hkept uri t ht hwaits).2
  | some (.lint uri text) =>
    change s.timers = Timer.cancel uri live.session.timers ++
      [{ uri, text, due := live.session.clock + Timer.delay }] at htimers
    refine ⟨?_, fun t (ht : t ∈ s.timers) hwaits => ?_⟩
    · refine htimers ▸ List.pairwise_append.mpr ⟨hcancel uri, List.pairwise_singleton _ _, ?_⟩
      intro t ht t' ht'
      rw [List.mem_singleton.mp ht']
      simpa using (List.mem_filter.mp ht).2
    · rw [htimers] at ht
      rcases List.mem_append.mp ht with ht | ht
      · obtain ⟨hne, hpending⟩ := hkept uri t ht hwaits
        exact pending_launch hne text hpending
      · rw [List.mem_singleton.mp ht]
        exact ⟨_, (registered?_launch _ _ _ _).trans (if_pos rfl), List.getElem?_concat_length⟩

/-- Time passes, and the runs that are due wake up and end one after the other. -/
theorem Mirrors.elapse (hm : live.Mirrors) (milliseconds : Nat) :
    ∃ happenings, live.events happenings = (live.session.elapse milliseconds).2 ∧
      (live.after happenings).session = (live.session.elapse milliseconds).1 ∧
      (live.after happenings).Mirrors := by
  let now := live.session.clock + milliseconds
  have hpending : ∀ t ∈ live.session.timers.filter (·.isDue now), live.Pending t := by
    intro t ht
    obtain ⟨hmem, hdue⟩ := List.mem_filter.mp ht
    have hwaits : t.finished = false := by
      simp only [Timer.isDue, Bool.and_eq_true, Bool.not_eq_true'] at hdue
      exact hdue.1
    exact hm.pending t hmem hwaits
  obtain ⟨happenings, hevents, hsession, hkept⟩ :=
    fire_all hpending (hm.distinct.sublist List.filter_sublist)
  have hlast : (live.after (happenings ++ [.acted (.notified (.elapsed milliseconds))])).session =
      (live.session.elapse milliseconds).1 := by
    rw [after_append, ← hsession]
    rfl
  refine ⟨happenings ++ [.acted (.notified (.elapsed milliseconds))], ?_, hlast, ?_, ?_⟩
  · rw [events_append, hevents]
    exact List.append_nil _
  · rw [hlast]
    refine List.pairwise_map.mpr (hm.distinct.imp fun {t t'} hne => ?_)
    split <;> split <;> exact hne
  · rw [hlast, after_append]
    intro t ht hwaits
    obtain ⟨t₀, ht₀, rfl⟩ := List.mem_map.mp ht
    by_cases hdue : t₀.isDue now
    · rw [if_pos hdue] at hwaits
      cases hwaits
    · -- a timer that goes on waiting is that of another address than the runs that end
      rw [if_neg hdue] at hwaits ⊢
      refine hkept t₀ (fun t₁ ht₁ => ?_) (hm.pending t₀ ht₀ hwaits)
      obtain ⟨hmem, hdue₁⟩ := List.mem_filter.mp ht₁
      have hsymm : Std.Symm fun t t' : Timer => t.uri ≠ t'.uri := ⟨fun _ _ => Ne.symm⟩
      exact hm.distinct.forall ht₀ hmem fun heq => hdue (heq ▸ hdue₁)

theorem Mirrors.act (hs : live.Sound) (hm : live.Mirrors) (a : Action) :
    ∃ happenings, live.events happenings = (live.session.act a).2 ∧
      (live.after happenings).session = (live.session.act a).1 ∧
      (live.after happenings).Mirrors := by
  rcases live.session.timers_act a with ⟨milliseconds, rfl⟩ | ⟨hprompt, htimers⟩
  · exact hm.elapse milliseconds
  · refine ⟨[.acted a], ?_, session_obey _ _, hm.obey hs htimers⟩
    rw [← hprompt]
    exact List.append_nil _

theorem exists_happenings (hs : live.Sound) (hm : live.Mirrors) (actions : List Action) :
    ∃ happenings, live.events happenings = live.session.run actions := by
  induction actions generalizing live with
  | nil => exact ⟨[], rfl⟩
  | cons a actions ih =>
    obtain ⟨first, hevents, hsession, hm'⟩ := hm.act hs a
    obtain ⟨rest, hrest⟩ := ih (hs.after first) hm'
    refine ⟨first ++ rest, ?_⟩
    rw [events_append, hevents, hrest, hsession]
    rfl

/-- A run that has been superseded never publishes. Whatever happens, an address has at most one run
that is not over, the registered one. What is published for it, other than by closing it, is what
the linter found in the text that the latest action on it asked to lint, and the run of that action
has waited for it. A session whose runs are over as soon as they are due is one such course. -/
theorem published_by_latest_run {s : Session} (hs : s.timers = []) (happenings : List Happening) :
    let start : LiveSession := { session := s }
    let live := start.after happenings
    (∀ (i : Nat) (r : LintRun), live.runs[i]? = some r → r.isLive →
      live.registered? r.uri = some i) ∧
    (∀ (i j : Nat) (r r' : LintRun), live.runs[i]? = some r → live.runs[j]? = some r' →
      r.isLive → r'.isLive → r.uri = r'.uri → i = j) ∧
    (∀ h u found, .published u found ∈ (live.step h).2 → h ≠ .acted (.notified (.closed u)) →
      ∃ earlier a later text, happenings = earlier ++ .acted a :: later ∧
        (start.after earlier).session.order? a = some (.lint u text) ∧
        h = .linted (start.after earlier).runs.length ∧
        Quiet u (start.after (earlier ++ [.acted a])) later ∧
        ∃ job : Job, LintRun.source live.session { uri := u, text } = .ok job.text ∧
          (Lint.lint live.session.process job.settings job.text (Uri.documentPath u)).diagnostics
            job.settings.linter = .ok found) ∧
    ∀ actions, ∃ course, start.events course = s.run actions := by
  intro start live
  have hstart : start.Sound := sound_begin s
  have hsound : live.Sound := hstart.after happenings
  refine ⟨hsound.registered, ?_, ?_, ?_⟩
  · intro i j r r' hr hr' hlive hlive' huri
    have hi := hsound.registered i r hr hlive
    have hj := hsound.registered j r' hr' hlive'
    rw [huri, hj] at hi
    exact (Option.some.inj hi).symm
  · intro h u found hfound hclose
    rcases published_of_step hfound with hclosed | ⟨i, r, job, rfl, hr, hphase, rfl, hresult⟩
    · exact absurd hclosed hclose
    · have hlive : r.isLive := by rw [LintRun.isLive, hphase]; rfl
      obtain ⟨earlier, a, later, heq, horder, rfl, hquiet⟩ :=
        exists_launch hstart rfl happenings hr hlive
      refine ⟨earlier, a, later, r.text, heq, horder, rfl, hquiet, job, ?_, hresult⟩
      exact hsound.jobs _ r job hr hphase
  · intro actions
    have hm : start.Mirrors := ⟨hs ▸ .nil, fun t ht => by rw [hs] at ht; cases ht⟩
    exact exists_happenings hstart hm actions

/-- A document changes while its first run waits for the linter. -/
def editedWhileLinting : List Happening :=
  [.acted (.notified (.opened "file:///a.sol" "contract A")), .woke 0,
    .acted (.notified (.changed "file:///a.sol" [.whole "contract B"])), .linted 0, .woke 1]

def isPublication : Event → Bool
  | .published _ _ => true
  | _ => false

theorem published_after_edit :
    let s := (Session.start [] none ⟨⟨[], []⟩, [], .utf8⟩ (fun _ => none) fun _ => .notFound).1
    let start : LiveSession := { session := s }
    let live := start.after editedWhileLinting
    s.timers = [] ∧ live.runs.map LintRun.isLive = [false, true] ∧
      live.registered? "file:///a.sol" = some 1 ∧
      ((start.after (editedWhileLinting.take 3)).step (.linted 0)).2.any isPublication = false ∧
      ∃ u found, .published u found ∈ (live.step (.linted 1)).2 ∧
        ∃ earlier a later text, editedWhileLinting = earlier ++ .acted a :: later ∧
          (start.after earlier).session.order? a = some (.lint u text) ∧
          (start.after earlier).runs.length = 1 := by
  intro s start live
  obtain ⟨hlive, hregistered, hsilent, hpublishes⟩ :
      live.runs.map LintRun.isLive = [false, true] ∧
      live.registered? "file:///a.sol" = some 1 ∧
      ((start.after (editedWhileLinting.take 3)).step (.linted 0)).2.any isPublication = false ∧
      (live.step (.linted 1)).2.any isPublication = true := by
    decide +kernel
  obtain ⟨event, hevent, hpublication⟩ := List.any_eq_true.mp hpublishes
  cases event with
  | ran | logged => cases hpublication
  | published u found =>
    obtain ⟨-, -, hlatest, -⟩ := published_by_latest_run (s := s) rfl editedWhileLinting
    obtain ⟨earlier, a, later, text, heq, horder, hrun, -⟩ := hlatest _ _ _ hevent nofun
    exact ⟨rfl, hlive, hregistered, hsilent, u, found, hevent, earlier, a, later, text, heq, horder,
      (Happening.linted.inj hrun).symm⟩

end LiveSession

end SolidityServer
