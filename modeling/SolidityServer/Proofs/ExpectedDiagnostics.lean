import SolidityServer.Proofs.Timeline

/-! The diagnostics that a client ought to get for a document. They are settled by the actions on
that document, the clock and the settings: an empty list when it is closed, and the findings of a
linter whenever the document has been left alone for long enough. -/

namespace SolidityServer

namespace Session

/-- What a client gets to know about the diagnostics of a document. -/
inductive News where
  | diagnostics (found : List Diagnostic)
  | failure (text : String)

def newsOf (u : String) (e : Entry) : Option (Nat × News) :=
  match e.event with
  | .ran _ => none
  | .published uri found => if uri = u then some (e.time, .diagnostics found) else none
  | .logged m =>
    if e.about = some u ∧ m.type = .error then some (e.time, .failure m.text) else none

/-- All that bears on the diagnostics of a document. -/
structure Outlook where
  process : Lint.Process
  encoding : Encoding
  settings : Settings
  clock : Nat := 0
  /-- The text of the document while it is open. -/
  text : Option String := none

namespace Outlook

/-- At the beginning of a session no document is open. -/
def initial (environment : List (String × String)) (encoding : Encoding) (process : Lint.Process) :
    Outlook :=
  { process, encoding, settings := .ofEnvironment environment }

def act (u : String) (o : Outlook) : Action → Outlook
  | .notified (.opened uri text) => { o with text := if uri = u then some text else o.text }
  | .notified (.changed uri changes) =>
    let edit := changes.foldl (Change.apply o.encoding)
    { o with text := if uri = u then o.text.map edit else o.text }
  | .notified (.saved _) => o
  | .notified (.closed uri) => { o with text := if uri = u then none else o.text }
  | .notified (.elapsed milliseconds) => { o with clock := o.clock + milliseconds }
  | .configured options => { o with settings := o.settings.overlay options }

def after (u : String) (o : Outlook) (actions : List Action) : Outlook := actions.foldl (act u) o

/-- What linting the document brings: its diagnostics, or one error. -/
def lint (u : String) (o : Outlook) : List News :=
  match o.text with
  | none => []
  | some text =>
    let result := Lint.lint o.process o.settings text (Uri.documentPath u)
    match result.diagnostics o.settings.linter with
    | .ok found => [.diagnostics found]
    | .error e =>
      let complaint := "Linting failed for " ++ u ++ ": " ++ e.message
      if o.settings.level ≤ Level.error then [.failure ("ERROR - " ++ complaint)] else []

end Outlook

/-- The actions before some milliseconds are over, if they come to be over and nothing happens to
the document until then. -/
def quiet? (u : String) (left : Nat) : List Action → Option (List Action)
  | [] => none
  | a :: actions =>
    if a.uri? = some u then none
    else if left ≤ a.duration then some []
    else (quiet? u (left - a.duration) actions).map (a :: ·)

/-- What comes at a due time if nothing happens to the document until then. -/
def awaited (u : String) (o : Outlook) (due : Nat) (actions : List Action) : List (Nat × News) :=
  match quiet? u (due - o.clock) actions with
  | none => []
  | some during => ((o.after u during).lint u).map (due, ·)

/-- What an action on the document leads to: closing it clears the diagnostics, anything else has it
linted after the delay. -/
def prompted (u : String) (o : Outlook) (a : Action) (actions : List Action) : List (Nat × News) :=
  if a.uri? ≠ some u then []
  else if a.isClose then [(o.clock, .diagnostics [])]
  else awaited u (o.act u a) (o.clock + Timer.delay) actions

/-- What a client ought to get to know about a document. -/
def expected (u : String) (o : Outlook) : List Action → List (Nat × News)
  | [] => []
  | a :: actions => prompted u o a actions ++ expected u (o.act u a) actions

/-- The document is changed and saved only while it is open. -/
def EditsOpen (u : String) (o : Outlook) : List Action → Prop
  | [] => True
  | a :: actions =>
    (a.uri? = some u → a.isEdit → o.text.isSome) ∧ EditsOpen u (o.act u a) actions

/-- Whether an action is not about some other document. -/
def concerns (u : String) (a : Action) : Bool := a.uri?.all (· == u)

variable {u v : String} {o : Outlook} {a : Action} {actions : List Action} {due : Nat}

namespace Outlook

theorem act_of_other (h : a.uri? = some v) (hv : v ≠ u) : o.act u a = o := by
  cases a with
  | configured => cases h
  | notified n =>
    cases n with
    | elapsed => cases h
    | saved => rfl
    | opened | changed | closed =>
      cases h
      simp only [act, hv, if_false]

theorem clock_act (u : String) (o : Outlook) (a : Action) :
    (o.act u a).clock = o.clock + a.duration := by
  cases a with
  | configured => rfl
  | notified n => cases n <;> rfl

end Outlook

theorem awaited_of_touched (h : a.uri? = some u) : awaited u o due (a :: actions) = [] := by
  simp [awaited, quiet?, h]

theorem awaited_of_reached (h : a.uri? ≠ some u) (hdue : due ≤ o.clock + a.duration) :
    awaited u o due (a :: actions) = (o.lint u).map (due, ·) := by
  have hleft : due - o.clock ≤ a.duration := by omega
  simp [awaited, quiet?, h, hleft, Outlook.after]

theorem awaited_of_waiting (h : a.uri? ≠ some u) (hdue : o.clock + a.duration < due) :
    awaited u o due (a :: actions) = awaited u (o.act u a) due actions := by
  have hleft : ¬due - o.clock ≤ a.duration := by omega
  have hrest : due - o.clock - a.duration = due - (o.act u a).clock := by
    rw [Outlook.clock_act]
    omega
  simp only [awaited, quiet?, h, hleft, if_false, hrest]
  cases quiet? u (due - (o.act u a).clock) actions with
  | none => rfl
  | some during => rfl

theorem other_of_concerns (h : concerns u a = false) : ∃ v, a.uri? = some v ∧ v ≠ u := by
  cases hv : a.uri? with
  | none => simp [concerns, hv] at h
  | some v => exact ⟨v, rfl, by simpa [concerns, hv] using h⟩

theorem act_of_not_concerns (h : concerns u a = false) : o.act u a = o := by
  obtain ⟨v, hv, hne⟩ := other_of_concerns h
  exact Outlook.act_of_other hv hne

theorem uri_of_not_concerns (h : concerns u a = false) : a.uri? ≠ some u := by
  obtain ⟨v, hv, hne⟩ := other_of_concerns h
  rw [hv]
  exact fun heq => hne (Option.some.inj heq)

theorem quiet?_filter {left : Nat} (hleft : 0 < left) (actions : List Action) :
    quiet? u left (actions.filter (concerns u)) =
      (quiet? u left actions).map (List.filter (concerns u)) := by
  induction actions generalizing left with
  | nil => rfl
  | cons a actions ih =>
    cases ha : concerns u a with
    | true =>
      rw [List.filter_cons_of_pos ha, quiet?, quiet?]
      by_cases huri : a.uri? = some u
      · rw [if_pos huri, if_pos huri]
        rfl
      · rw [if_neg huri, if_neg huri]
        by_cases hreached : left ≤ a.duration
        · rw [if_pos hreached, if_pos hreached]
          rfl
        · rw [if_neg hreached, if_neg hreached, ih (by omega)]
          cases quiet? u (left - a.duration) actions with
          | none => rfl
          | some during => simp [ha]
    | false =>
      -- an action that is left out takes no time, so it cannot be the one that ends the wait
      obtain ⟨v, hv, -⟩ := other_of_concerns ha
      have hduration : a.duration = 0 := Action.duration_of_uri hv
      have hreached : ¬left ≤ a.duration := by omega
      rw [List.filter_cons_of_neg (by simp [ha]), ih hleft, quiet?,
        if_neg (uri_of_not_concerns ha), if_neg hreached, hduration, Nat.sub_zero]
      cases quiet? u left actions with
      | none => rfl
      | some during => simp [ha]

theorem after_filter (o : Outlook) (actions : List Action) :
    o.after u (actions.filter (concerns u)) = o.after u actions := by
  induction actions generalizing o with
  | nil => rfl
  | cons a actions ih =>
    cases ha : concerns u a with
    | true =>
      rw [List.filter_cons_of_pos ha]
      exact ih (o.act u a)
    | false =>
      rw [List.filter_cons_of_neg (by simp [ha]), ih]
      exact congrArg (Outlook.after u · actions) (act_of_not_concerns ha).symm

theorem awaited_filter (h : o.clock < due) (actions : List Action) :
    awaited u o due (actions.filter (concerns u)) = awaited u o due actions := by
  rw [awaited, awaited, quiet?_filter (Nat.sub_pos_of_lt h)]
  cases quiet? u (due - o.clock) actions with
  | none => rfl
  | some during => simp only [Option.map_some, after_filter]

theorem prompted_filter (o : Outlook) (a : Action) (actions : List Action) :
    prompted u o a (actions.filter (concerns u)) = prompted u o a actions := by
  unfold prompted
  split
  · rfl
  next huri =>
    split
    · rfl
    · have hduration : a.duration = 0 := Action.duration_of_uri (not_not.mp huri)
      refine awaited_filter ?_ actions
      rw [Outlook.clock_act, hduration]
      exact Nat.lt_add_of_pos_right (by decide)

/-- Other documents have no part in what is expected. -/
theorem expected_filter (o : Outlook) (actions : List Action) :
    expected u o (actions.filter (concerns u)) = expected u o actions := by
  induction actions generalizing o with
  | nil => rfl
  | cons a actions ih =>
    cases ha : concerns u a with
    | true => rw [List.filter_cons_of_pos ha, expected, expected, prompted_filter, ih]
    | false =>
      have hprompted : prompted u o a actions = [] := if_pos (uri_of_not_concerns ha)
      rw [List.filter_cons_of_neg (by simp [ha]), ih, expected, hprompted, act_of_not_concerns ha,
        List.nil_append]

theorem EditsOpen.filter (h : EditsOpen u o actions) :
    EditsOpen u o (actions.filter (concerns u)) := by
  induction actions generalizing o with
  | nil => exact h
  | cons a actions ih =>
    obtain ⟨hedit, hrest⟩ := h
    cases ha : concerns u a with
    | true =>
      rw [List.filter_cons_of_pos ha]
      exact ⟨hedit, ih hrest⟩
    | false =>
      rw [List.filter_cons_of_neg (by simp [ha])]
      rw [act_of_not_concerns ha] at hrest
      exact ih hrest

end Session

end SolidityServer
