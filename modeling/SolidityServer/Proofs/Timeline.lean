import Mathlib.Data.List.Basic
import SolidityServer.Server.Session

/-! When the events of a session happen. What a timer does happens at the time it is due, anything
else when the notification comes; the timers stand in the order of their due times, so the events of
a session are in order of time. -/

namespace SolidityServer

namespace Session

/-- What can happen to a session: a notification, or new options from the client. -/
inductive Action where
  | notified (n : Notification)
  | configured (options : Json)

namespace Action

/-- The document that an action is about. -/
def uri? : Action → Option String
  | .notified (.opened uri _) | .notified (.changed uri _) => some uri
  | .notified (.saved uri) | .notified (.closed uri) => some uri
  | .notified (.elapsed _) | .configured _ => none

def isClose : Action → Bool
  | .notified (.closed _) => true
  | _ => false

/-- A change or a save. -/
def isEdit : Action → Bool
  | .notified (.changed _ _) | .notified (.saved _) => true
  | _ => false

/-- The milliseconds that pass. -/
def duration : Action → Nat
  | .notified (.elapsed milliseconds) => milliseconds
  | _ => 0

theorem duration_of_uri {a : Action} {uri : String} (h : a.uri? = some uri) : a.duration = 0 := by
  cases a with
  | configured => rfl
  | notified n =>
    cases n with
    | elapsed => cases h
    | opened | changed | saved | closed => rfl

end Action

def act (s : Session) : Action → Session × List Event
  | .notified n => s.step n
  | .configured options => s.configure options

/-- All that a session does. -/
def run (s : Session) : List Action → List Event
  | [] => []
  | a :: actions => (s.act a).2 ++ (s.act a).1.run actions

/-- An event with the time and the document it happens for. -/
structure Entry where
  time : Nat
  about : Option String
  event : Event

def stamp (time : Nat) (about : Option String) (events : List Event) : List Entry :=
  events.map fun event => { time, about, event }

def entries (s : Session) : Action → List Entry
  | .notified (.elapsed milliseconds) =>
    (s.timers.filter (·.isDue (s.clock + milliseconds))).flatMap fun t =>
      stamp t.due t.uri (s.fire t)
  | a => stamp s.clock a.uri? (s.act a).2

def timeline (s : Session) : List Action → List Entry
  | [] => []
  | a :: actions => s.entries a ++ (s.act a).1.timeline actions

variable {s : Session} {a : Action}

theorem events_stamp (time : Nat) (about : Option String) (events : List Event) :
    (stamp time about events).map Entry.event = events := by
  simp [stamp, Function.comp_def]

theorem stamp_sorted (time : Nat) (about : Option String) (events : List Event) :
    (stamp time about events).Pairwise fun e e' => e.time ≤ e'.time :=
  List.pairwise_map.mpr (List.pairwise_of_forall fun _ _ => Nat.le_refl _)

theorem time_of_mem_stamp {time : Nat} {about : Option String} {events : List Event} {e : Entry}
    (h : e ∈ stamp time about events) : e.time = time := by
  obtain ⟨event, -, rfl⟩ := List.mem_map.mp h
  rfl

/-- Time passes, or all happens at once. -/
theorem entries_cases (s : Session) (a : Action) :
    (∃ milliseconds, a = .notified (.elapsed milliseconds)) ∨
      s.entries a = stamp s.clock a.uri? (s.act a).2 := by
  cases a with
  | configured => exact .inr rfl
  | notified n =>
    cases n with
    | elapsed milliseconds => exact .inl ⟨milliseconds, rfl⟩
    | opened | changed | saved | closed => exact .inr rfl

theorem events_entries (s : Session) (a : Action) :
    (s.entries a).map Entry.event = (s.act a).2 := by
  rcases s.entries_cases a with ⟨milliseconds, rfl⟩ | h
  · simp only [entries, List.map_flatMap, events_stamp]
    rfl
  · rw [h, events_stamp]

theorem events_timeline (s : Session) (actions : List Action) :
    (s.timeline actions).map Entry.event = s.run actions := by
  induction actions generalizing s with
  | nil => rfl
  | cons a actions ih => rw [timeline, run, List.map_append, events_entries, ih]

/-- Timers stand in the order of their due times. None that waits is overdue, and none is due later
than a run that would be scheduled now. -/
structure Timed (s : Session) : Prop where
  sorted : s.timers.Pairwise fun t t' => t.due ≤ t'.due
  waiting : ∀ t ∈ s.timers, t.finished = false → s.clock < t.due
  bounded : ∀ t ∈ s.timers, t.due ≤ s.clock + Timer.delay

/-- Dropping timers keeps the order. -/
theorem Timed.sublist {t : Session} (h : s.Timed) (hclock : t.clock = s.clock)
    (hsub : t.timers.Sublist s.timers) : t.Timed where
  sorted := h.sorted.sublist hsub
  waiting timer htimer := by
    rw [hclock]
    exact h.waiting timer (hsub.subset htimer)
  bounded timer htimer := by
    rw [hclock]
    exact h.bounded timer (hsub.subset htimer)

theorem Timed.schedule (h : s.Timed) (uri : String) (text : Option String) :
    Timed { s with timers := Timer.schedule s.clock uri text s.timers } := by
  have hcancel : Timed { s with timers := Timer.cancel uri s.timers } :=
    h.sublist rfl List.filter_sublist
  have hdelay : 0 < Timer.delay := by decide
  refine ⟨List.pairwise_append.mpr ⟨hcancel.sorted, List.pairwise_singleton _ _, ?_⟩, ?_, ?_⟩
  · intro t ht t' ht'
    rw [List.mem_singleton.mp ht']
    exact hcancel.bounded t ht
  · intro t ht hwaits
    rcases List.mem_append.mp ht with ht | ht
    · exact hcancel.waiting t ht hwaits
    · rw [List.mem_singleton.mp ht]
      change s.clock < s.clock + Timer.delay
      omega
  · intro t ht
    rcases List.mem_append.mp ht with ht | ht
    · exact hcancel.bounded t ht
    · exact Nat.le_of_eq (congrArg Timer.due (List.mem_singleton.mp ht))

theorem Timed.scheduled (h : s.Timed) (uri : String) : (s.schedule uri).Timed := by
  unfold Session.schedule
  split
  · exact h.schedule _ _
  · exact h.schedule _ _

theorem Timed.elapse (h : s.Timed) (milliseconds : Nat) : (s.elapse milliseconds).1.Timed := by
  have hmap : ∀ t ∈ Timer.finish (s.clock + milliseconds) s.timers, ∃ t₀ ∈ s.timers,
      t.due = t₀.due ∧ (t.finished = false → s.clock + milliseconds < t₀.due) := by
    intro t ht
    obtain ⟨t₀, ht₀, rfl⟩ := List.mem_map.mp ht
    refine ⟨t₀, ht₀, by split <;> rfl, ?_⟩
    by_cases hdue : t₀.isDue (s.clock + milliseconds)
    · simp [hdue]
    · rw [if_neg hdue]
      intro hwaits
      have hnot : ¬(t₀.due ≤ s.clock + milliseconds) := by
        simpa [Timer.isDue, hwaits] using hdue
      omega
  refine ⟨?_, fun t ht hwaits => ?_, fun t ht => ?_⟩
  · refine List.pairwise_map.mpr (h.sorted.imp fun {t t'} hle => ?_)
    split <;> split <;> exact hle
  · obtain ⟨t₀, _, hdue, hlt⟩ := hmap t ht
    rw [hdue]
    exact hlt hwaits
  · obtain ⟨t₀, ht₀, hdue, _⟩ := hmap t ht
    have hle := h.bounded t₀ ht₀
    change t.due ≤ s.clock + milliseconds + Timer.delay
    omega

theorem Timed.act (h : s.Timed) (a : Action) : (s.act a).1.Timed := by
  have hput : ∀ workspace, Timed { s with workspace } := fun workspace => h.sublist rfl (.refl _)
  cases a with
  | configured options => exact h.sublist rfl (.refl _)
  | notified n =>
    cases n with
    | opened uri text => exact (hput _).scheduled uri
    | changed uri changes =>
      simp only [Session.act, step, didChange]
      split
      · exact h
      · exact (hput _).scheduled uri
    | saved uri => exact h.scheduled uri
    | closed uri => exact h.sublist rfl List.filter_sublist
    | elapsed milliseconds => exact h.elapse milliseconds

theorem clock_act (s : Session) (a : Action) : (s.act a).1.clock = s.clock + a.duration := by
  have hschedule : ∀ (s : Session) uri, (s.schedule uri).clock = s.clock := by
    intro s uri
    unfold schedule
    split <;> rfl
  cases a with
  | configured => rfl
  | notified n =>
    cases n with
    | opened uri text => exact hschedule _ uri
    | changed uri changes =>
      simp only [act, step, didChange]
      split
      · rfl
      · exact hschedule _ uri
    | saved uri => exact hschedule s uri
    | closed | elapsed => rfl

/-- What an action brings about happens while it lasts. -/
theorem time_of_mem_entries (h : s.Timed) {e : Entry} (he : e ∈ s.entries a) :
    s.clock ≤ e.time ∧ e.time ≤ (s.act a).1.clock := by
  rw [clock_act]
  rcases s.entries_cases a with ⟨milliseconds, rfl⟩ | hstamp
  · obtain ⟨t, ht, hmem⟩ := List.mem_flatMap.mp he
    obtain ⟨htimer, hdue⟩ := List.mem_filter.mp ht
    simp only [Timer.isDue, Bool.and_eq_true, Bool.not_eq_true', decide_eq_true_eq] at hdue
    rw [time_of_mem_stamp hmem]
    exact ⟨Nat.le_of_lt (h.waiting t htimer hdue.1), hdue.2⟩
  · rw [hstamp] at he
    rw [time_of_mem_stamp he]
    omega

theorem entries_sorted (h : s.Timed) (a : Action) :
    (s.entries a).Pairwise fun e e' => e.time ≤ e'.time := by
  rcases s.entries_cases a with ⟨milliseconds, rfl⟩ | hstamp
  · refine List.pairwise_flatMap.mpr ⟨fun t _ => stamp_sorted _ _ _, ?_⟩
    refine (h.sorted.sublist List.filter_sublist).imp fun hle e he e' he' => ?_
    rw [time_of_mem_stamp he, time_of_mem_stamp he']
    exact hle
  · rw [hstamp]
    exact stamp_sorted _ _ _

theorem timeline_sorted (h : s.Timed) (actions : List Action) :
    ((s.timeline actions).Pairwise fun e e' => e.time ≤ e'.time) ∧
      ∀ e ∈ s.timeline actions, s.clock ≤ e.time := by
  induction actions generalizing s with
  | nil => exact ⟨.nil, by simp [timeline]⟩
  | cons a actions ih =>
    obtain ⟨hsorted, hlater⟩ := ih (h.act a)
    constructor
    · refine List.pairwise_append.mpr ⟨entries_sorted h a, hsorted, fun e he e' he' => ?_⟩
      exact Nat.le_trans (time_of_mem_entries h he).2 (hlater e' he')
    · intro e he
      rcases List.mem_append.mp he with he | he
      · exact (time_of_mem_entries h he).1
      · have hle := hlater e he
        rw [clock_act] at hle
        omega

end Session

end SolidityServer
