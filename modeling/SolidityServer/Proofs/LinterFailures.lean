import SolidityServer.Lint.Run

/-! When linting fails. A linter that is missing or takes too long does no harm, and neither does
text that is no JSON or no finding. Linting fails in four ways only: the linter may not be started,
its JSON is no list of findings, or the place of a finding or a crash lies beyond the last line or
column that a position can have. -/

namespace SolidityServer

namespace Lint

section Outcomes

variable {α β ε : Type} {f : α → Except ε β} {xs : List α} {e : ε}

theorem bind_eq_error_iff {x : Except ε α} :
    x >>= f = .error e ↔ x = .error e ∨ ∃ a, x = .ok a ∧ f a = .error e := by
  cases x with
  | error e' => simp [bind, Except.bind]
  | ok a => simp [bind, Except.bind]

theorem exists_ok_iff {x : Except ε α} : (∃ a, x = .ok a) ↔ ∀ e, x ≠ .error e := by
  cases x with
  | error e' => simp
  | ok a => simp

/-- The first item that fails decides how a list of them fails. -/
def FirstFails (f : α → Except ε β) (xs : List α) (e : ε) : Prop :=
  ∃ front x back, xs = front ++ x :: back ∧ (∀ y ∈ front, ∃ b, f y = .ok b) ∧ f x = .error e

theorem firstFails_cons {x : α} :
    FirstFails f (x :: xs) e ↔ f x = .error e ∨ ∃ b, f x = .ok b ∧ FirstFails f xs e := by
  constructor
  · rintro ⟨front, y, back, hxs, hfront, hfails⟩
    cases front with
    | nil =>
      obtain ⟨rfl, -⟩ := List.cons.inj hxs
      exact .inl hfails
    | cons z front =>
      obtain ⟨rfl, hrest⟩ := List.cons.inj hxs
      obtain ⟨b, hb⟩ := hfront x List.mem_cons_self
      exact .inr ⟨b, hb, front, y, back, hrest,
        fun y hy => hfront y (List.mem_cons_of_mem _ hy), hfails⟩
  · rintro (hfails | ⟨b, hb, front, y, back, rfl, hfront, hfails⟩)
    · exact ⟨[], x, xs, rfl, by simp, hfails⟩
    · refine ⟨x :: front, y, back, rfl, ?_, hfails⟩
      intro z hz
      rcases List.mem_cons.mp hz with rfl | hz
      · exact ⟨b, hb⟩
      · exact hfront z hz

theorem mapM_eq_error_iff : xs.mapM f = .error e ↔ FirstFails f xs e := by
  induction xs with
  | nil => simp [FirstFails, pure, Except.pure]
  | cons x xs ih =>
    rw [List.mapM_cons, bind_eq_error_iff, firstFails_cons]
    simp only [bind_eq_error_iff, ih, pure, Except.pure, reduceCtorEq, and_false, exists_false,
      or_false]

end Outcomes

/-- Why a value stands for no whole number. -/
inductive NoWhole : Json → ReportError → Prop where
  | text {s : String} (h : Text.integer? s = none) : NoWhole (.str s) (.badNumber s)
  | nan : NoWhole (.real .nan) .notANumber
  | infinite (negative : Bool) : NoWhole (.real (.infinite negative)) .infiniteNumber
  | null : NoWhole .null (.noNumber .null)
  | list (items : List Json) : NoWhole (.arr items) (.noNumber (.arr items))
  | object (fields : List (String × Json)) : NoWhole (.obj fields) (.noNumber (.obj fields))

def isCompound : Json → Bool
  | .arr _ => true
  | .obj _ => true
  | _ => false

/-- Why an entry is no finding, although it names a line. Its severity is looked at first, then its
line and then its column. -/
inductive BadEntry (entry : Json) : ReportError → Prop where
  | severity {line value : Json} (hline : entry.get? "line" = some line)
      (hvalue : entry.get? "severity" = some value) (hbad : isCompound value = true) :
      BadEntry entry (.badSeverity value)
  | line {line : Json} {e : ReportError} (hline : entry.get? "line" = some line)
      (hseverity : ∀ value, entry.get? "severity" = some value → isCompound value = false)
      (hbad : NoWhole line e) : BadEntry entry e
  | column {line value : Json} {e : ReportError} (hline : entry.get? "line" = some line)
      (hseverity : ∀ value, entry.get? "severity" = some value → isCompound value = false)
      (hwhole : ∀ e, ¬ NoWhole line e) (hvalue : entry.get? "column" = some value)
      (hbad : NoWhole value e) : BadEntry entry e

variable {j entry : Json} {e : ReportError}

theorem wholeOf_eq_error_iff : wholeOf j = .error e ↔ NoWhole j e := by
  constructor
  · intro h
    cases j with
    | null =>
      cases h
      exact .null
    | bool b => cases h
    | int n => cases h
    | real d =>
      cases d with
      | nan =>
        cases h
        exact .nan
      | infinite negative =>
        cases h
        exact .infinite negative
      | finite negative mantissa exponent => cases h
    | str s =>
      cases hs : Text.integer? s with
      | none =>
        simp only [wholeOf, hs] at h
        cases h
        exact .text hs
      | some n => simp [wholeOf, hs] at h
    | arr items =>
      cases h
      exact .list items
    | obj fields =>
      cases h
      exact .object fields
  · intro h
    cases h with
    | text hs => simp [wholeOf, hs]
    | _ => rfl

theorem exists_wholeOf_iff : (∃ n, wholeOf j = .ok n) ↔ ∀ e, ¬ NoWhole j e := by
  simp only [exists_ok_iff, ne_eq, wholeOf_eq_error_iff]

theorem severityOf_eq_error_iff :
    severityOf j = .error e ↔ isCompound j = true ∧ e = .badSeverity j := by
  constructor
  · intro h
    cases j with
    | arr items =>
      cases h
      exact ⟨rfl, rfl⟩
    | obj fields =>
      cases h
      exact ⟨rfl, rfl⟩
    | _ => cases h
  · rintro ⟨h, rfl⟩
    cases j with
    | arr items => rfl
    | obj fields => rfl
    | _ => cases h

theorem severityOf_given_eq_error_iff : severityOf (.ofOption (entry.get? "severity")) = .error e ↔
    ∃ value, entry.get? "severity" = some value ∧ isCompound value = true ∧
      e = .badSeverity value := by
  rw [severityOf_eq_error_iff]
  cases entry.get? "severity" with
  | none => simp [Json.ofOption, isCompound]
  | some value => simp [Json.ofOption]

theorem exists_severity_iff : (∃ s, severityOf (.ofOption (entry.get? "severity")) = .ok s) ↔
    ∀ value, entry.get? "severity" = some value → isCompound value = false := by
  rw [exists_ok_iff]
  simp only [ne_eq, severityOf_given_eq_error_iff]
  constructor
  · intro h value hvalue
    rw [← Bool.not_eq_true]
    exact fun hbad => h _ ⟨value, hvalue, hbad, rfl⟩
  · rintro h e ⟨value, hvalue, hbad, -⟩
    rw [h value hvalue] at hbad
    cases hbad

theorem column_eq_error_iff : wholeOf ((entry.get? "column").getD (.int 0)) = .error e ↔
    ∃ value, entry.get? "column" = some value ∧ NoWhole value e := by
  cases entry.get? "column" with
  | none => simp [wholeOf]
  | some value => simp [wholeOf_eq_error_iff]

theorem BadEntry.exists_line (h : BadEntry entry e) : ∃ line, entry.get? "line" = some line := by
  cases h with
  | severity hline | line hline | column hline => exact ⟨_, hline⟩

theorem reportOf_eq_error_iff : reportOf entry = .error e ↔ BadEntry entry e := by
  unfold reportOf
  cases hline : entry.get? "line" with
  | none =>
    constructor
    · intro h
      cases h
    · intro h
      obtain ⟨line, hline'⟩ := h.exists_line
      rw [hline] at hline'
      cases hline'
  | some line =>
    simp only [bind_eq_error_iff]
    constructor
    · rintro (h | ⟨severity, hseverity, h | ⟨n, hn, h | ⟨m, -, h⟩⟩⟩)
      · obtain ⟨value, hvalue, hbad, rfl⟩ := severityOf_given_eq_error_iff.mp h
        exact .severity hline hvalue hbad
      · exact .line hline (exists_severity_iff.mp ⟨severity, hseverity⟩) (wholeOf_eq_error_iff.mp h)
      · obtain ⟨value, hvalue, hbad⟩ := column_eq_error_iff.mp h
        exact .column hline (exists_severity_iff.mp ⟨severity, hseverity⟩)
          (exists_wholeOf_iff.mp ⟨n, hn⟩) hvalue hbad
      · cases h
    · intro h
      cases h with
      | severity _ hvalue hbad =>
        exact .inl (severityOf_given_eq_error_iff.mpr ⟨_, hvalue, hbad, rfl⟩)
      | line hline' hfine hbad =>
        obtain ⟨severity, hseverity⟩ := exists_severity_iff.mpr hfine
        obtain rfl := Option.some.inj (hline.symm.trans hline')
        exact .inr ⟨severity, hseverity, .inl (wholeOf_eq_error_iff.mpr hbad)⟩
      | column hline' hfine hwhole hvalue hbad =>
        obtain ⟨severity, hseverity⟩ := exists_severity_iff.mpr hfine
        obtain rfl := Option.some.inj (hline.symm.trans hline')
        obtain ⟨n, hn⟩ := exists_wholeOf_iff.mpr hwhole
        exact .inr ⟨severity, hseverity, .inr ⟨n, hn, .inl
          (column_eq_error_iff.mpr ⟨_, hvalue, hbad⟩)⟩⟩

/-- The entries of an output. -/
def entriesIn : Json → List Json
  | .arr items => items.flatMap entriesOf
  | .obj fields => entriesOf (.obj fields)
  | _ => []

/-- Why an output is no list of findings: it has no items, or its first bad entry tells. -/
inductive BadOutput (output : Json) : ReportError → Prop where
  | noItems (hvalue : isCompound output = false) (htext : ∀ s, output ≠ .str s) :
      BadOutput output (.notList output)
  | entry {front back : List Json} {entry : Json} {e : ReportError}
      (hentries : entriesIn output = front ++ entry :: back)
      (hfront : ∀ x ∈ front, ∀ e, ¬ BadEntry x e) (hbad : BadEntry entry e) : BadOutput output e

theorem NoWhole.ne_notJson (h : NoWhole j e) (fault : Json.ReadError) : e ≠ .notJson fault := by
  cases h <;> exact fun h => by cases h

theorem BadEntry.ne_notJson (h : BadEntry entry e) (fault : Json.ReadError) :
    e ≠ .notJson fault := by
  cases h with
  | severity => exact fun h => by cases h
  | line _ _ hbad => exact hbad.ne_notJson fault
  | column _ _ _ _ hbad => exact hbad.ne_notJson fault

/-- An output that could be read as JSON never fails for not being JSON. -/
theorem BadOutput.ne_notJson (h : BadOutput j e) (fault : Json.ReadError) : e ≠ .notJson fault := by
  cases h with
  | noItems => exact fun h => by cases h
  | entry _ _ hbad => exact hbad.ne_notJson fault

theorem firstFails_reportOf_iff {entries : List Json} : FirstFails reportOf entries e ↔
    ∃ front entry back, entries = front ++ entry :: back ∧ (∀ x ∈ front, ∀ e, ¬ BadEntry x e) ∧
      BadEntry entry e := by
  simp only [FirstFails, exists_ok_iff, reportOf_eq_error_iff, ne_eq]

theorem reportsOf_eq_error_iff : reportsOf j = .error e ↔ BadOutput j e := by
  have hlisted : ∀ items, itemsOf j = .ok items → entriesIn j = items.flatMap entriesOf →
      (isCompound j = true ∨ ∃ s, j = .str s) → (reportsOf j = .error e ↔ BadOutput j e) := by
    intro items hitems hentries hkind
    have hreports : reportsOf j = .error e ↔ FirstFails reportOf (entriesIn j) e := by
      rw [reportsOf, hitems, hentries, ← mapM_eq_error_iff]
      simp only [bind_eq_error_iff, Except.ok.injEq, exists_eq_left', reduceCtorEq, false_or]
      simp [pure, Except.pure]
    rw [hreports, firstFails_reportOf_iff]
    constructor
    · rintro ⟨front, entry, back, h, hfront, hbad⟩
      exact .entry h hfront hbad
    · intro h
      cases h with
      | noItems hvalue htext =>
        rcases hkind with hcompound | ⟨s, hs⟩
        · rw [hvalue] at hcompound
          cases hcompound
        · exact absurd hs (htext s)
      | entry h hfront hbad => exact ⟨_, _, _, h, hfront, hbad⟩
  have hscalar : itemsOf j = .error (.notList j) → isCompound j = false → (∀ s, j ≠ .str s) →
      entriesIn j = [] → (reportsOf j = .error e ↔ BadOutput j e) := by
    intro hitems hvalue htext hentries
    constructor
    · intro h
      rw [reportsOf, hitems] at h
      cases h
      exact .noItems hvalue htext
    · intro h
      cases h with
      | noItems => rw [reportsOf, hitems]; rfl
      | entry h => simp [hentries] at h
  cases j with
  | null | bool b | int n | real d => exact hscalar rfl rfl (by simp) rfl
  | str s => exact hlisted [] rfl rfl (.inr ⟨s, rfl⟩)
  | arr items => exact hlisted items rfl rfl (.inl rfl)
  | obj fields => exact hlisted [.obj fields] rfl (by simp [entriesIn]) (.inl rfl)

/-- Why there is no position for a line and a column that count from one: the line is too far down,
or the character there starts or stops too far to the right. -/
inductive Misplaced (line column : Int) : Position.OutOfRange → Prop where
  | line (hline : Position.limit + 1 < line) :
      Misplaced line column { axis := .line, value := line - 1 }
  | start (hline : line ≤ Position.limit + 1) (hcolumn : Position.limit + 1 < column) :
      Misplaced line column { axis := .character, value := column - 1 }
  | stop (hline : line ≤ Position.limit + 1) (hcolumn : column = Position.limit + 1) :
      Misplaced line column { axis := .character, value := column }

section Places

variable {r : Report} {source : String} {e : Position.OutOfRange}

theorem check_of_le {axis : Position.Axis} {value : Int} (hpos : 0 ≤ value)
    (h : value ≤ Position.limit) : Position.check axis value = .ok value.toNat := by
  simp [Position.check, hpos, h]

theorem check_of_lt {axis : Position.Axis} {value : Int} (h : Position.limit < value) :
    Position.check axis value = .error { axis, value } := by
  simp [Position.check, Int.not_le.mpr h]

theorem ofReport_of_misplaced (h : Misplaced r.line r.column e) :
    Diagnostic.ofReport source r = .error e := by
  cases h with
  | line hline =>
    have hmax : max 0 (r.line - 1) = r.line - 1 := by omega
    rw [Diagnostic.ofReport, Diagnostic.rangeOf, Position.ofInts, hmax, check_of_lt (by omega)]
    rfl
  | start hline hcolumn =>
    have hmax : max 0 (r.column - 1) = r.column - 1 := by omega
    rw [Diagnostic.ofReport, Diagnostic.rangeOf, Position.ofInts, hmax,
      check_of_le (by omega) (by omega), check_of_lt (by omega)]
    rfl
  | stop hline hcolumn =>
    -- the character starts in the last column and stops after it
    have hmax : max 0 (r.column - 1) = r.column - 1 := by omega
    have hnext : r.column - 1 + 1 = r.column := by omega
    rw [Diagnostic.ofReport, Diagnostic.rangeOf, Position.ofInts, hmax,
      check_of_le (by omega) (by omega), check_of_le (by omega) (by omega), Position.ofInts,
      Option.getD_none, Option.getD_none, hnext, check_of_le (by omega) (by omega),
      check_of_lt (by omega)]
    rfl

theorem exists_ofReport (source : String) (hline : r.line ≤ Position.limit + 1)
    (hcolumn : r.column ≤ Position.limit) : ∃ d, Diagnostic.ofReport source r = .ok d ∧
      d.range.start = { line := (r.line - 1).toNat, character := (r.column - 1).toNat } := by
  have hlimit : (1 : Int) ≤ Position.limit := by decide
  have hline_eq : (max 0 (r.line - 1)).toNat = (r.line - 1).toNat := by omega
  have hcolumn_eq : (max 0 (r.column - 1)).toNat = (r.column - 1).toNat := by omega
  rw [Diagnostic.ofReport, Diagnostic.rangeOf, Position.ofInts, check_of_le (by omega) (by omega),
    check_of_le (by omega) (by omega), Position.ofInts, Option.getD_none, Option.getD_none,
    check_of_le (by omega) (by omega), check_of_le (by omega) (by omega)]
  refine ⟨_, rfl, ?_⟩
  rw [← hline_eq, ← hcolumn_eq]

theorem ofReport_eq_error_iff :
    Diagnostic.ofReport source r = .error e ↔ Misplaced r.line r.column e := by
  refine ⟨fun h => ?_, ofReport_of_misplaced⟩
  have hunique : ∀ e', Misplaced r.line r.column e' → Misplaced r.line r.column e := by
    intro e' hplace
    rw [ofReport_of_misplaced hplace] at h
    cases h
    exact hplace
  by_cases hline : r.line ≤ Position.limit + 1
  · rcases Int.lt_trichotomy r.column (Position.limit + 1) with hcolumn | hcolumn | hcolumn
    · obtain ⟨d, hd, -⟩ := exists_ofReport source hline (Int.le_of_lt_add_one hcolumn)
      rw [hd] at h
      cases h
    · exact hunique _ (.stop hline hcolumn)
    · exact hunique _ (.start hline hcolumn)
  · exact hunique _ (.line (by omega))

theorem Misplaced.congr {line line' column column' : Int} (h : Misplaced line column e)
    (hline : line = line' ∨ line ≤ Position.limit + 1 ∧ line' ≤ Position.limit + 1)
    (hcolumn : column = column' ∨ column ≤ Position.limit ∧ column' ≤ Position.limit) :
    Misplaced line' column' e := by
  cases h with
  | line h =>
    obtain rfl : line = line' := by omega
    exact .line h
  | start h hstart =>
    obtain rfl : column = column' := by omega
    exact .start (by omega) hstart
  | stop h hstop =>
    obtain rfl : column = column' := by omega
    exact .stop (by omega) hstop

/-- Lines and columns before the first count as the first, and that has its place. -/
theorem misplaced_clamped_iff {line column : Nat} :
    Misplaced ((line - 1 : Nat) + 1) ((column - 1 : Nat) + 1) e ↔ Misplaced line column e := by
  have hlimit : (1 : Int) ≤ Position.limit := by decide
  constructor <;> intro h <;> exact h.congr (by omega) (by omega)

theorem diagnostics_of_error {result : Result} {linter : String} {failure : Failure}
    (h : result.reports = .error failure) : result.diagnostics linter = .error failure := by
  simp [Result.diagnostics, h]

/-- Of the findings of a linter, the first that is misplaced makes linting fail. -/
theorem diagnostics_of_ok {result : Result} {linter : String} {failure : Failure}
    {found : List Report} (h : result.reports = .ok found) :
    result.diagnostics linter = .error failure ↔
      ∃ front r back e, found = front ++ r :: back ∧
        (∀ x ∈ front, ∀ e, ¬ Misplaced x.line x.column e) ∧ Misplaced r.line r.column e ∧
        failure = .outOfRange e := by
  have hplaced : ∀ e, found.mapM (Diagnostic.ofReport linter) = .error e ↔
      ∃ front r back, found = front ++ r :: back ∧
        (∀ x ∈ front, ∀ e, ¬ Misplaced x.line x.column e) ∧ Misplaced r.line r.column e := by
    intro e
    simp only [mapM_eq_error_iff, FirstFails, exists_ok_iff, ofReport_eq_error_iff, ne_eq]
  simp only [Result.diagnostics, h]
  constructor
  · intro hfails
    cases hd : found.mapM (Diagnostic.ofReport linter) with
    | ok diagnostics => simp [hd] at hfails
    | error e =>
      obtain ⟨front, r, back, hfound, hfront, hplace⟩ := (hplaced e).mp hd
      simp only [hd, Except.error.injEq] at hfails
      exact ⟨front, r, back, e, hfound, hfront, hplace, hfails.symm⟩
  · rintro ⟨front, r, back, e, hfound, hfront, hplace, rfl⟩
    rw [(hplaced e).mpr ⟨front, r, back, hfound, hfront, hplace⟩]

theorem diagnostics_of_single {result : Result} {linter : String} {failure : Failure}
    (h : result.reports = .ok [r]) : result.diagnostics linter = .error failure ↔
      ∃ e, Misplaced r.line r.column e ∧ failure = .outOfRange e := by
  rw [diagnostics_of_ok h]
  constructor
  · rintro ⟨front, r', back, e, hfound, -, hplace, rfl⟩
    cases front with
    | nil =>
      obtain ⟨rfl, -⟩ := List.cons.inj hfound
      exact ⟨e, hplace, rfl⟩
    | cons first front => simp at hfound
  · rintro ⟨e, hplace, rfl⟩
    exact ⟨[], r, [], e, rfl, by simp, hplace, rfl⟩

end Places

section Runs

variable {process : Process} {settings : Settings} {source path : String} {run : Run}
  {finish : String → String → String → Int → Result} {failure : Failure} {found : List Report}

/-- The runs that settings ask for. -/
inductive Starts (settings : Settings) (source path : String) : Run → Prop where
  | solhint (hlinter : settings.linter = "solhint") :
      Starts settings source path (solhintRun settings source path)
  | solium (hlinter : settings.linter = "solium") :
      Starts settings source path (soliumRun settings source)

/-- The findings that a linter prints. -/
inductive Finds (process : Process) (settings : Settings) (source path : String) :
    List Report → Prop where
  | solhint {output errors : String} {code : Int} {j : Json} {found : List Report}
      (hlinter : settings.linter = "solhint")
      (hended : process (solhintRun settings source path) = .finished output errors code)
      (hread : Json.read output = .ok j) (hfound : reportsOf j = .ok found) :
      Finds process settings source path found
  | solium {output errors : String} {code : Int} (hlinter : settings.linter = "solium")
      (hended : process (soliumRun settings source) = .finished output errors code) :
      Finds process settings source path (readSolium output.toList)

/-- The message of a linter that gives up: solhint prints no JSON, solium finds nothing but ends
with an error. -/
inductive GivesUp (process : Process) (settings : Settings) (source path : String) :
    List Char → Prop where
  | solhint {output errors : String} {code : Int} {fault : Json.ReadError}
      (hlinter : settings.linter = "solhint")
      (hended : process (solhintRun settings source path) = .finished output errors code)
      (hread : Json.read output = .error fault) :
      GivesUp process settings source path (Text.trim errors.toList)
  | solium {output errors : String} {code : Int} (hlinter : settings.linter = "solium")
      (hended : process (soliumRun settings source) = .finished output errors code)
      (hnone : readSolium output.toList = []) (hcode : code ≠ 0) :
      GivesUp process settings source path
        (Text.trim (if errors.isEmpty then output else errors).toList)

/-- The ways in which linting fails. -/
inductive Fails (process : Process) (settings : Settings) (source path : String) :
    Failure → Prop where
  /-- The linter may not be started. -/
  | denied {run : Run} (hrun : Starts settings source path run) (hended : process run = .denied) :
      Fails process settings source path (.denied run.executable)
  /-- The linter prints JSON that is no list of findings. -/
  | report {output errors : String} {code : Int} {j : Json} {e : ReportError}
      (hlinter : settings.linter = "solhint")
      (hended : process (solhintRun settings source path) = .finished output errors code)
      (hread : Json.read output = .ok j) (hbad : BadOutput j e) :
      Fails process settings source path (.badReport e)
  /-- The linter finds something where no position is. -/
  | finding {front back : List Report} {r : Report} {e : Position.OutOfRange}
      (hfound : Finds process settings source path (front ++ r :: back))
      (hfront : ∀ x ∈ front, ∀ e, ¬ Misplaced x.line x.column e)
      (hplace : Misplaced r.line r.column e) : Fails process settings source path (.outOfRange e)
  /-- The linter gives up where no position is. -/
  | crash {message : List Char} {line column : Nat} {e : Position.OutOfRange}
      (hmessage : GivesUp process settings source path message)
      (hnamed : namedLocation? message = some (line, column)) (hplace : Misplaced line column e) :
      Fails process settings source path (.outOfRange e)

/-- A linter that gives up leaves one finding, or none if its message names no place. -/
theorem crash_reports (errors path : String) (code : Int) :
    (namedLocation? (Text.trim errors.toList) = none ∧ (crash errors path code).reports = .ok []) ∨
    ∃ (line column : Nat) (r : Report),
      namedLocation? (Text.trim errors.toList) = some (line, column) ∧
      r.line = ((line - 1 : Nat) : Int) + 1 ∧ r.column = ((column - 1 : Nat) : Int) + 1 ∧
      (crash errors path code).reports = .ok [r] := by
  unfold crash
  dsimp only
  cases hnamed : namedLocation? (Text.trim errors.toList) with
  | none => exact .inl ⟨rfl, rfl⟩
  | some place =>
    obtain ⟨line, column⟩ := place
    refine .inr ⟨line, column, _, rfl, ?_, ?_, rfl⟩ <;> simp [errorLocation, hnamed]

theorem lint_of_solhint (h : settings.linter = "solhint") : lint process settings source path =
    start process (solhintRun settings source path) path solhintResult := by
  simp [lint, h]

theorem lint_of_solium (h : settings.linter = "solium") : lint process settings source path =
    start process (soliumRun settings source) path soliumResult := by
  simp [lint, h]

theorem lint_of_other (hsolhint : settings.linter ≠ "solhint")
    (hsolium : settings.linter ≠ "solium") : lint process settings source path = .empty := by
  unfold lint
  split
  · next h => exact absurd h hsolhint
  · next h => exact absurd h hsolium
  · rfl

theorem start_of_finished {output errors : String} {code : Int}
    (h : process run = .finished output errors code) :
    (start process run path finish).reports = (finish output errors path code).reports := by
  simp [start, h]

theorem reports_of_denied (hrun : Starts settings source path run) (h : process run = .denied) :
    (lint process settings source path).reports = .error (.denied run.executable) := by
  cases hrun with
  | solhint hlinter => simp [lint_of_solhint hlinter, start, h]
  | solium hlinter => simp [lint_of_solium hlinter, start, h]

theorem reports_of_badOutput {output errors : String} {code : Int} {j : Json} {e : ReportError}
    (hlinter : settings.linter = "solhint")
    (hended : process (solhintRun settings source path) = .finished output errors code)
    (hread : Json.read output = .ok j) (hbad : BadOutput j e) :
    (lint process settings source path).reports = .error (.badReport e) := by
  rw [lint_of_solhint hlinter, start_of_finished hended, solhintResult, readSolhint, hread]
  dsimp only
  rw [reportsOf_eq_error_iff.mpr hbad]
  split
  · next h => cases h
  · next fault h =>
    -- only an output that cannot be read is taken for a crash
    exact absurd (Except.error.inj h) (hbad.ne_notJson fault)
  · next h => rw [Except.error.inj h]

theorem reports_of_finds (h : Finds process settings source path found) (hne : found ≠ []) :
    (lint process settings source path).reports = .ok found := by
  cases h with
  | solhint hlinter hended hread hfound =>
    rw [lint_of_solhint hlinter, start_of_finished hended, solhintResult, readSolhint, hread]
    simp [hfound]
  | solium hlinter hended =>
    rw [lint_of_solium hlinter, start_of_finished hended, soliumResult]
    simp [hne]

theorem reports_of_givesUp {message : List Char}
    (h : GivesUp process settings source path message) :
    ∃ text code, message = Text.trim text.toList ∧
      (lint process settings source path).reports = (crash text path code).reports := by
  cases h with
  | @solhint output errors code fault hlinter hended hread =>
    refine ⟨errors, code, rfl, ?_⟩
    rw [lint_of_solhint hlinter, start_of_finished hended, solhintResult, readSolhint, hread]
  | @solium output errors code hlinter hended hnone hcode =>
    refine ⟨if errors.isEmpty then output else errors, code, rfl, ?_⟩
    rw [lint_of_solium hlinter, start_of_finished hended, soliumResult, hnone]
    simp [hcode]

/-- What linting comes to before its findings get positions. -/
theorem lint_cases (process : Process) (settings : Settings) (source path : String) :
    (∃ run, Starts settings source path run ∧ process run = .denied) ∨
    (∃ output errors code j e, settings.linter = "solhint" ∧
      process (solhintRun settings source path) = .finished output errors code ∧
      Json.read output = .ok j ∧ BadOutput j e) ∨
    (∃ found, found ≠ [] ∧ Finds process settings source path found) ∨
    (∃ message, GivesUp process settings source path message) ∨
    (lint process settings source path).reports = .ok [] := by
  by_cases hsolhint : settings.linter = "solhint"
  · have hlint : lint process settings source path = _ := lint_of_solhint hsolhint
    cases hended : process (solhintRun settings source path) with
    | denied => exact .inl ⟨_, .solhint hsolhint, hended⟩
    | notFound | timedOut =>
      refine .inr (.inr (.inr (.inr ?_)))
      simp [hlint, start, hended, Result.warn]
    | finished output errors code =>
      cases hread : Json.read output with
      | error fault => exact .inr (.inr (.inr (.inl ⟨_, .solhint hsolhint hended hread⟩)))
      | ok j =>
        cases hfound : reportsOf j with
        | error e =>
          exact .inr (.inl ⟨_, _, _, j, e, hsolhint, rfl, hread, reportsOf_eq_error_iff.mp hfound⟩)
        | ok found =>
          by_cases hnone : found = []
          · refine .inr (.inr (.inr (.inr ?_)))
            rw [hlint, start_of_finished hended, solhintResult, readSolhint, hread]
            simp [hfound, hnone]
          · exact .inr (.inr (.inl ⟨found, hnone, .solhint hsolhint hended hread hfound⟩))
  by_cases hsolium : settings.linter = "solium"
  · have hlint : lint process settings source path = _ := lint_of_solium hsolium
    cases hended : process (soliumRun settings source) with
    | denied => exact .inl ⟨_, .solium hsolium, hended⟩
    | notFound | timedOut =>
      refine .inr (.inr (.inr (.inr ?_)))
      simp [hlint, start, hended, Result.warn]
    | finished output errors code =>
      by_cases hnone : readSolium output.toList = []
      · by_cases hcode : code = 0
        · refine .inr (.inr (.inr (.inr ?_)))
          rw [hlint, start_of_finished hended, soliumResult]
          simp [hnone, hcode]
        · exact .inr (.inr (.inr (.inl ⟨_, .solium hsolium hended hnone hcode⟩)))
      · exact .inr (.inr (.inl ⟨_, hnone, .solium hsolium hended⟩))
  · rw [lint_of_other hsolhint hsolium]
    exact .inr (.inr (.inr (.inr rfl)))

/-- Linting gives diagnostics unless it fails in one of the four ways, and then the failure is the
one named there. -/
theorem diagnostics_fail_iff (process : Process) (settings : Settings) (source path : String)
    (failure : Failure) :
    (lint process settings source path).diagnostics settings.linter = .error failure ↔
      Fails process settings source path failure := by
  constructor
  · intro h
    rcases lint_cases process settings source path with ⟨run, hrun, hended⟩ |
      ⟨_, _, _, _, _, hlinter, hended, hread, hbad⟩ | ⟨found, hne, hfound⟩ | ⟨message, hmessage⟩ |
      hnone
    · rw [diagnostics_of_error (reports_of_denied hrun hended)] at h
      cases h
      exact .denied hrun hended
    · rw [diagnostics_of_error (reports_of_badOutput hlinter hended hread hbad)] at h
      cases h
      exact .report hlinter hended hread hbad
    · obtain ⟨front, r, back, e, rfl, hfront, hplace, rfl⟩ :=
        (diagnostics_of_ok (reports_of_finds hfound hne)).mp h
      exact .finding hfound hfront hplace
    · obtain ⟨text, code, rfl, hreports⟩ := reports_of_givesUp hmessage
      rcases crash_reports text path code with
        ⟨-, hnone⟩ | ⟨line, column, r, hnamed, hline, hcolumn, hone⟩
      · simpa using (diagnostics_of_ok (hreports.trans hnone)).mp h
      · obtain ⟨e, hplace, rfl⟩ := (diagnostics_of_single (hreports.trans hone)).mp h
        rw [hline, hcolumn, misplaced_clamped_iff] at hplace
        exact .crash hmessage hnamed hplace
    · simpa using (diagnostics_of_ok hnone).mp h
  · intro h
    cases h with
    | denied hrun hended => exact diagnostics_of_error (reports_of_denied hrun hended)
    | report hlinter hended hread hbad =>
      exact diagnostics_of_error (reports_of_badOutput hlinter hended hread hbad)
    | finding hfound hfront hplace =>
      exact (diagnostics_of_ok (reports_of_finds hfound (by simp))).mpr
        ⟨_, _, _, _, rfl, hfront, hplace, rfl⟩
    | crash hmessage hnamed hplace =>
      obtain ⟨text, code, rfl, hreports⟩ := reports_of_givesUp hmessage
      rcases crash_reports text path code with
        ⟨hnone, -⟩ | ⟨line, column, r, hnamed', hline, hcolumn, hone⟩
      · rw [hnamed] at hnone
        cases hnone
      · rw [hnamed] at hnamed'
        cases hnamed'
        rw [← misplaced_clamped_iff, ← hline, ← hcolumn] at hplace
        exact (diagnostics_of_single (hreports.trans hone)).mpr ⟨_, hplace, rfl⟩

/-- There are no diagnostics if the line of one finding is null. -/
theorem diagnostics_of_null_line :
    let process : Process := fun _ =>
      .finished "[\x7b\"line\": null, \"message\": \"m\"\x7d]" "" 0
    ¬ ∃ diagnostics, (lint process {} "contract A" "/work/a.sol").diagnostics "solhint" =
      .ok diagnostics := by
  rintro process ⟨diagnostics, hok⟩
  have hfails :
      ((lint process {} "contract A" "/work/a.sol").diagnostics "solhint").isOk = false := by
    decide +kernel
  rw [hok] at hfails
  cases hfails

end Runs

end Lint

end SolidityServer
