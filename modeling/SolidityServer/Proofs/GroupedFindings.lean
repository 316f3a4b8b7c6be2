import Mathlib.Data.List.Forall2
import SolidityServer.Proofs.LinterFailures

/-! Findings that are grouped by file. A run of entries may stand in the list of messages of an
object; whatever is grouped, the output comes to what the flat list of its entries comes to. -/

namespace SolidityServer.Lint

/-- Whether a value is an object with a list of entries. -/
def holdsEntries (item : Json) : Bool := (item.get? "messages").any Json.isList

/-- Whether a value is an object with a line. -/
def namesLine (item : Json) : Bool := (item.get? "line").isSome

/-- `grouped` has the items of `items` in their order, runs of them as the messages of an object. -/
inductive Groups : List Json → List Json → Prop where
  | nil : Groups [] []
  | alone {items grouped : List Json} (item : Json) (h : Groups items grouped) :
      Groups (item :: items) (item :: grouped)
  | run {items grouped run : List Json} {fields : List (String × Json)}
      (hrun : fields.lookup "messages" = some (.arr run)) (h : Groups items grouped) :
      Groups (run ++ items) (.obj fields :: grouped)

variable {item entry : Json} {items grouped entries : List Json}

theorem namesLine_entriesOf (h : holdsEntries item = false) :
    (entriesOf item).filter namesLine = [item].filter namesLine := by
  cases item with
  | obj fields =>
    cases hm : fields.lookup "messages" with
    | none => simp [entriesOf, hm]
    | some messages =>
      cases messages with
      | arr run => simp [holdsEntries, Json.get?, Json.isList, hm] at h
      | _ => simp [entriesOf, hm]
  | _ => rfl

theorem namesLine_entriesOf_run {run : List Json} {fields : List (String × Json)}
    (h : fields.lookup "messages" = some (.arr run)) :
    (entriesOf (.obj fields)).filter namesLine = run.filter namesLine := by
  simp only [entriesOf, h, List.filter_filter]
  refine List.filter_congr fun item _ => ?_
  -- what is no object is not an entry, and names no line either
  cases item with
  | obj fields => simp
  | _ => simp [namesLine, Json.get?]

theorem Groups.refl (items : List Json) : Groups items items := by
  induction items with
  | nil => exact .nil
  | cons item items ih => exact .alone item ih

theorem Groups.namesLine_entries (h : Groups items grouped)
    (hitems : ∀ item ∈ items, holdsEntries item = false) :
    (grouped.flatMap entriesOf).filter namesLine = items.filter namesLine := by
  induction h with
  | nil => rfl
  | @alone items grouped item _ ih =>
    have hitem := namesLine_entriesOf (hitems item List.mem_cons_self)
    have hrest := ih fun item hitem => hitems item (List.mem_cons_of_mem _ hitem)
    rw [List.flatMap_cons, List.filter_append, hitem, hrest, ← List.filter_append,
      List.singleton_append]
  | run hrun _ ih =>
    have hrest := ih fun item hitem => hitems item (List.mem_append_right _ hitem)
    rw [List.flatMap_cons, List.filter_append, namesLine_entriesOf_run hrun, hrest,
      List.filter_append]

def reportsIn (entries : List Json) : Except ReportError (List Report) := do
  return (← entries.mapM reportOf).filterMap id

theorem reportsOf_list (items : List Json) :
    reportsOf (.arr items) = reportsIn (items.flatMap entriesOf) := rfl

theorem reportsIn_cons (entry : Json) (entries : List Json) :
    reportsIn (entry :: entries) =
      (reportOf entry).bind fun r => (reportsIn entries).map (r.toList ++ ·) := by
  rw [reportsIn, reportsIn, List.mapM_cons]
  cases reportOf entry with
  | error e => rfl
  | ok r =>
    cases entries.mapM reportOf with
    | error e => rfl
    | ok rs => cases r <;> rfl

theorem reportOf_of_not_namesLine (h : namesLine entry = false) : reportOf entry = .ok none := by
  have hline : entry.get? "line" = none := by simpa [namesLine] using h
  rw [reportOf, hline]
  rfl

theorem reportOf_ne_none (h : namesLine entry = true) : reportOf entry ≠ .ok none := by
  obtain ⟨line, hline⟩ := Option.isSome_iff_exists.mp h
  rw [reportOf, hline]
  dsimp only
  cases severityOf (.ofOption (entry.get? "severity")) with
  | error e => exact nofun
  | ok severity =>
    cases wholeOf line with
    | error e => exact nofun
    | ok n =>
      cases wholeOf ((entry.get? "column").getD (.int 0)) with
      | error e => exact nofun
      | ok column => exact nofun

theorem reportsIn_filter (entries : List Json) :
    reportsIn (entries.filter namesLine) = reportsIn entries := by
  induction entries with
  | nil => rfl
  | cons entry entries ih =>
    rw [reportsIn_cons]
    cases hline : namesLine entry with
    | true => rw [List.filter_cons_of_pos hline, reportsIn_cons, ih]
    | false =>
      rw [List.filter_cons_of_neg (by simp [hline]), ih, reportOf_of_not_namesLine hline]
      cases reportsIn entries <;> rfl

theorem reportsIn_eq_ok_iff {reports : List Report}
    (h : ∀ entry ∈ entries, namesLine entry = true) :
    reportsIn entries = .ok reports ↔
      List.Forall₂ (fun entry r => reportOf entry = .ok (some r)) entries reports := by
  induction entries generalizing reports with
  | nil => cases reports <;> simp [reportsIn, pure, Except.pure, bind, Except.bind]
  | cons entry entries ih =>
    have hnone := reportOf_ne_none (h entry List.mem_cons_self)
    have hiff := fun reports => @ih reports
      fun entry hentry => h entry (List.mem_cons_of_mem _ hentry)
    rw [reportsIn_cons]
    cases hentry : reportOf entry with
    | error e => cases reports <;> simp [Except.bind, hentry]
    | ok r =>
      cases r with
      | none => exact absurd hentry hnone
      | some r =>
        cases hrest : reportsIn entries with
        | error e => cases reports <;> simp [Except.bind, Except.map, hentry, ← hiff, hrest]
        | ok rs => cases reports <;> simp [Except.bind, Except.map, hentry, ← hiff, hrest]

theorem reportsIn_eq_error_iff {e : ReportError} :
    reportsIn entries = .error e ↔ FirstFails reportOf entries e := by
  rw [reportsIn, bind_eq_error_iff, mapM_eq_error_iff]
  simp [pure, Except.pure]

/-- Grouping the entries of an output changes nothing: there are the reports of the entries that
name a line, in order, or else the first of these entries that is bad decides. -/
theorem grouping_keeps_outcome {flat output : String} (hflat : Json.read flat = .ok (.arr items))
    (houtput : Json.read output = .ok (.arr grouped))
    (hitems : ∀ item ∈ items, holdsEntries item = false) (h : Groups items grouped) :
    readSolhint output = readSolhint flat ∧
    (∀ reports, readSolhint output = .ok reports ↔
      List.Forall₂ (fun entry r => reportOf entry = .ok (some r)) (items.filter namesLine)
        reports) ∧
    ∀ e, readSolhint output = .error e ↔ FirstFails reportOf (items.filter namesLine) e := by
  -- the flat output is grouped too, with every item alone
  have hgroups : ∀ text grouped, Json.read text = .ok (.arr grouped) → Groups items grouped →
      readSolhint text = reportsIn (items.filter namesLine) := by
    intro text grouped hread h
    rw [← h.namesLine_entries hitems, reportsIn_filter, readSolhint, hread]
    exact reportsOf_list grouped
  have hgrouped := hgroups output grouped houtput h
  refine ⟨hgrouped.trans (hgroups flat items hflat (.refl items)).symm, ?_, ?_⟩
  · intro reports
    rw [hgrouped]
    exact reportsIn_eq_ok_iff fun entry hentry => (List.mem_filter.mp hentry).2
  · intro e
    rw [hgrouped]
    exact reportsIn_eq_error_iff

/-- Two findings, with a number and a summary between them. -/
def flatItems : List Json := [.obj [("line", .int 2)], .int 7, .obj [], .obj [("line", .str "3")]]

def flatOutput : String := "[\x7b\"line\":2\x7d,7,\x7b\x7d,\x7b\"line\":\"3\"\x7d]"

/-- The same with a file around all but the second finding, and a file without findings. -/
def groupedItems : List Json :=
  [.obj [("messages", .arr [.obj [("line", .int 2)], .int 7, .obj []])],
    .obj [("messages", .arr [])], .obj [("line", .str "3")]]

def groupedOutput : String :=
  "[\x7b\"messages\":[\x7b\"line\":2\x7d,7,\x7b\x7d]\x7d,\x7b\"messages\":[]\x7d,\x7b\"line\":\"3\"\x7d]"

theorem grouping_of_flatOutput :
    Json.read flatOutput = .ok (.arr flatItems) ∧
      Json.read groupedOutput = .ok (.arr groupedItems) ∧
      (∀ item ∈ flatItems, holdsEntries item = false) ∧ Groups flatItems groupedItems ∧
      readSolhint groupedOutput = readSolhint flatOutput ∧
      ∃ reports, readSolhint groupedOutput = .ok reports ∧ reports.map Report.line = [2, 3] := by
  have hflat : Json.read flatOutput = .ok (.arr flatItems) := by
    simp only [Json.read, flatOutput, String.reduceToList]
    rfl
  have hgrouped : Json.read groupedOutput = .ok (.arr groupedItems) := by
    simp only [Json.read, groupedOutput, String.reduceToList]
    rfl
  obtain ⟨hitems, hlines⟩ : (∀ item ∈ flatItems, holdsEntries item = false) ∧
      (readSolhint groupedOutput).toOption.map (List.map Report.line) = some [2, 3] := by
    decide +kernel
  have hgroups : Groups (flatItems.take 3 ++ ([] ++ flatItems.drop 3)) groupedItems :=
    .run rfl (.run rfl (.alone _ .nil))
  have hkept := (grouping_keeps_outcome hflat hgrouped hitems hgroups).1
  cases hread : readSolhint groupedOutput with
  | error e =>
    rw [hread] at hlines
    cases hlines
  | ok reports =>
    rw [hread] at hlines hkept
    exact ⟨hflat, hgrouped, hitems, hgroups, hkept, reports, rfl, Option.some.inj hlines⟩

end SolidityServer.Lint
