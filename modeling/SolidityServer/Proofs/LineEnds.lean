import SolidityServer.Proofs.PositionOrder

/-! The ends of lines. A line is text without returns and then one return at most. A client's
character past all of that text means the end of it, but for one case: a line that no return ends
loses its last character if that counts one unit only. -/

namespace SolidityServer

namespace Text

/-- What can stand behind the text of a line. -/
def lineReturns : List (List Char) := [[], ['\n'], ['\r'], ['\r', '\n']]

variable {c : Char} {cs body line r : List Char}

theorem isLineBreak_of_isReturn (h : isReturn c = true) : isLineBreak c = true := by
  have hc : c = '\r' ∨ c = '\n' := by simpa [isReturn] using h
  rcases hc with rfl | rfl <;> rfl

theorem lineBody_append (hbody : ∀ c ∈ body, isReturn c = false) (hr : r ∈ lineReturns) :
    lineBody (body ++ r) = body := by
  have hreturns : ∀ c ∈ r.reverse, isReturn c = true := by
    simp only [lineReturns, List.mem_cons, List.not_mem_nil, or_false] at hr
    rcases hr with rfl | rfl | rfl | rfl <;> simp [isReturn]
  have hkept : body.reverse.dropWhile isReturn = body.reverse := by
    cases hlast : body.reverse with
    | nil => rfl
    | cons c cs =>
      have hc : c ∈ body := List.mem_reverse.mp (hlast ▸ List.mem_cons_self)
      simp [hbody c hc]
  rw [lineBody, List.reverse_append, List.dropWhile_append_of_pos hreturns, hkept,
    List.reverse_reverse]

theorem splitLines_eq_nil (h : splitLines cs = []) : cs = [] := by
  rw [← flatten_splitLines cs, h, List.flatten_nil]

theorem splitLines_lineFeed (cs : List Char) :
    splitLines ('\n' :: cs) = ['\n'] :: splitLines cs := by
  rw [splitLines, if_pos (by simp [endsLine, isLineBreak])]

theorem ne_nil_of_mem_splitLines (h : line ∈ splitLines cs) : line ≠ [] := by
  induction cs generalizing line with
  | nil => cases h
  | cons c cs ih =>
    unfold splitLines at h
    split at h
    · rcases List.mem_cons.mp h with rfl | h
      · exact List.cons_ne_nil _ _
      · exact ih h
    · split at h
      · rw [List.mem_singleton.mp h]
        exact List.cons_ne_nil _ _
      · next first rest hlines =>
        rcases List.mem_cons.mp h with rfl | h
        · exact List.cons_ne_nil _ _
        · exact ih (hlines ▸ List.mem_cons_of_mem _ h)

/-- A line is its body and one of the returns. Only the two characters of one return stay together
behind the body. -/
theorem exists_lineReturn (h : line ∈ splitLines cs) :
    ∃ r ∈ lineReturns, line = lineBody line ++ r ∧ ∀ c ∈ lineBody line, isReturn c = false := by
  suffices hshape : ∃ body, (∀ c ∈ body, isReturn c = false) ∧
      ∃ r ∈ lineReturns, line = body ++ r by
    obtain ⟨body, hbody, r, hr, rfl⟩ := hshape
    rw [lineBody_append hbody hr]
    exact ⟨r, hr, rfl, hbody⟩
  induction cs generalizing line with
  | nil => cases h
  | cons c cs ih =>
    unfold splitLines at h
    have hsingle : line = [c] → ∃ body, (∀ c ∈ body, isReturn c = false) ∧
        ∃ r ∈ lineReturns, line = body ++ r := by
      rintro rfl
      by_cases hc : isReturn c = true
      · have hc' : c = '\r' ∨ c = '\n' := by simpa [isReturn] using hc
        rcases hc' with rfl | rfl <;> exact ⟨[], by simp, _, by simp [lineReturns], rfl⟩
      · exact ⟨[c], by simpa using hc, [], by simp [lineReturns], rfl⟩
    split at h
    · rcases List.mem_cons.mp h with hline | h
      · exact hsingle hline
      · exact ih h
    · next hgoes =>
      split at h
      · exact hsingle (List.mem_singleton.mp h)
      · next first rest hlines =>
        rcases List.mem_cons.mp h with rfl | h
        · by_cases hc : isReturn c = true
          · -- the line goes on behind a return: that is a carriage return before a line feed
            have hbreak := isLineBreak_of_isReturn hc
            obtain ⟨rfl, hfeed⟩ : c = '\r' ∧ cs.head? = some '\n' := by
              simpa [endsLine, hbreak] using hgoes
            obtain ⟨cs, rfl⟩ := List.head?_eq_some_iff.mp hfeed
            rw [splitLines_lineFeed] at hlines
            obtain ⟨rfl, -⟩ := List.cons.inj hlines
            exact ⟨[], by simp, _, by simp [lineReturns], rfl⟩
          · obtain ⟨body, hbody, r, hr, rfl⟩ := ih (hlines ▸ List.mem_cons_self)
            refine ⟨c :: body, ?_, r, hr, rfl⟩
            simpa using And.intro hc hbody
        · exact ih (hlines ▸ List.mem_cons_of_mem _ h)

theorem length_lineReturn (hr : r ∈ lineReturns) : r = [] ∨ r.length = 1 ∨ r.length = 2 := by
  simp only [lineReturns, List.mem_cons, List.not_mem_nil, or_false] at hr
  rcases hr with rfl | rfl | rfl | rfl <;> simp

theorem length_lineBody (h : line ∈ splitLines cs) :
    (lineBody line).length ≤ line.length ∧ line.length ≤ (lineBody line).length + 2 := by
  obtain ⟨r, hr, hshape, -⟩ := exists_lineReturn h
  have hlength := congrArg List.length hshape
  rw [List.length_append] at hlength
  rcases length_lineReturn hr with rfl | hone | htwo
  · rw [List.length_nil] at hlength
    omega
  · omega
  · omega

theorem unifyReturns_cons (hc : isReturn c = false) :
    unifyReturns (c :: cs) = c :: unifyReturns cs := by
  have hne : c ≠ '\r' := by
    rintro rfl
    cases hc
  rw [unifyReturns]
  · intro _ h
    exact absurd h hne
  · exact hne

/-- Editors count one character for the return of a line. -/
theorem unifyReturns_append (hbody : ∀ c ∈ body, isReturn c = false) (hr : r ∈ lineReturns) :
    unifyReturns (body ++ r) = body ++ if r = [] then [] else ['\n'] := by
  induction body with
  | nil =>
    simp only [lineReturns, List.mem_cons, List.not_mem_nil, or_false] at hr
    rcases hr with rfl | rfl | rfl | rfl <;> rfl
  | cons c body ih =>
    rw [List.cons_append, unifyReturns_cons (hbody c List.mem_cons_self),
      ih fun c hc => hbody c (List.mem_cons_of_mem _ hc), List.cons_append]

end Text

namespace Encoding

variable {e : Encoding} {cs : List Char} {k target : Nat}

theorem units_append (e : Encoding) (cs ds : List Char) :
    e.units (cs ++ ds) = e.units cs + e.units ds := by
  induction cs with
  | nil => simp [units]
  | cons c cs ih => simp [units, ih, Nat.add_assoc]

theorem length_le_units (e : Encoding) (cs : List Char) : cs.length ≤ e.units cs := by
  induction cs with
  | nil => exact Nat.le_refl 0
  | cons c cs ih =>
    have hc := e.width_pos c
    simp only [List.length_cons, units]
    omega

@[simp] theorem width_lineFeed (e : Encoding) : e.width '\n' = 1 := by
  cases e <;> rfl

/-- The walk over a line ends at the first place that has enough units before it. -/
theorem reach_le_iff : e.reach target cs ≤ k ↔ target ≤ e.units (cs.take k) ∨ cs.length ≤ k := by
  induction cs generalizing target k with
  | nil => simp [reach]
  | cons c cs ih =>
    rw [reach]
    split
    · next hzero => simp [hzero]
    · cases k with
      | zero =>
        simp only [List.take_zero, units, List.length_cons]
        omega
      | succ k =>
        simp only [Nat.add_le_add_iff_right, ih, List.take_succ_cons, units, List.length_cons]
        omega

theorem reach_le_length : e.reach target cs ≤ cs.length :=
  reach_le_iff.mpr (.inr (Nat.le_refl _))

theorem le_reach (hk : k ≤ cs.length) (h : e.units (cs.take k) ≤ target) :
    k ≤ e.reach target cs := by
  rcases Nat.lt_or_ge (e.reach target cs) k with hlt | hge
  · have hunits := e.units_take_lt (Nat.sub_lt (Nat.zero_lt_of_lt hlt) Nat.one_pos) hk
    rcases reach_le_iff.mp (Nat.le_sub_one_of_lt hlt) with htarget | hlength <;> omega
  · exact hge

theorem reach_units_take (hk : k ≤ cs.length) : e.reach (e.units (cs.take k)) cs = k :=
  Nat.le_antisymm (reach_le_iff.mpr (.inl (Nat.le_refl _))) (le_reach hk (Nat.le_refl _))

end Encoding

namespace Buffer

variable {b : Buffer} {e : Encoding} {body line r : List Char} {l character : Nat}

/-- Whether a client's character past the end of a line loses the last character of the line: no
return ends the line, and its last character counts one unit. -/
def losesLast (e : Encoding) (line : List Char) (character : Nat) : Bool :=
  Text.lineBody line == line && e.units line < character && line.getLast?.any (e.width · == 1)

theorem le_charactersBefore_return (h : e.units body ≤ character) :
    body.length ≤ charactersBefore e (body ++ ['\n']) character := by
  rw [charactersBefore, e.units_append]
  refine Encoding.le_reach (by simp) ?_
  rw [List.take_left]
  split
  · simp [Encoding.units]
  · exact h

theorem charactersBefore_unended {front : List Char} {last : Char}
    (h : e.units (front ++ [last]) ≤ character) :
    charactersBefore e (front ++ [last]) character +
      (if e.units (front ++ [last]) < character ∧ e.width last = 1 then 1 else 0) =
        front.length + 1 := by
  have hunits : e.units (front ++ [last]) = e.units front + e.width last := by
    simp [e.units_append, Encoding.units]
  have hlength : (front ++ [last]).length = front.length + 1 := by simp
  have hfront : (front ++ [last]).take front.length = front := List.take_left
  rw [charactersBefore]
  by_cases hpast : e.units (front ++ [last]) < character
  · simp only [hpast, if_true, true_and]
    split
    · next hwidth =>
      -- one unit back is just before the last character
      have hback : e.units (front ++ [last]) - 1 =
          e.units ((front ++ [last]).take front.length) := by
        rw [hfront]
        omega
      rw [hback, Encoding.reach_units_take (by omega)]
    · next hwidth =>
      have hwide := e.width_pos last
      refine Nat.le_antisymm (hlength ▸ Encoding.reach_le_length) (Nat.le_of_not_lt fun hlt => ?_)
      rcases Encoding.reach_le_iff.mp (Nat.le_of_lt_succ hlt) with hreached | hshort
      · rw [hfront] at hreached
        omega
      · omega
  · have hall : character = e.units ((front ++ [last]).take (front ++ [last]).length) := by
      rw [List.take_length]
      omega
    simp only [hpast, if_false, false_and, Nat.add_zero]
    rw [hall, Encoding.reach_units_take (Nat.le_refl _), hlength]

/-- A client's character at the end of the text of a line or past it means that end, or one
character before it where the line loses its last character. -/
theorem offsetAt_past_line_end (hline : b.lines[l]? = some line)
    (hpast : b.encoding.units (Text.lineBody line) ≤ character) :
    b.offsetAt ⟨l, character⟩ + (if losesLast b.encoding line character then 1 else 0) =
      lineStart b.lines l + (Text.lineBody line).length := by
  have hmem : line ∈ Text.splitLines b.chars := List.mem_of_getElem? hline
  obtain ⟨r, hr, hshape, hbody⟩ := Text.exists_lineReturn hmem
  have hcounted := Text.unifyReturns_append hbody hr
  rw [← hshape] at hcounted
  simp only [offsetAt, place, hline, counted, hcounted, List.getD_eq_getElem?_getD,
    Option.getD_some]
  by_cases hend : r = []
  · -- the line is its body, and the walk may stop before the last character
    have hsame : Text.lineBody line = line := by simpa [hend] using hshape.symm
    have hne : line ≠ [] := Text.ne_nil_of_mem_splitLines hmem
    obtain ⟨front, last, rfl⟩ : ∃ front last, line = front ++ [last] :=
      ⟨_, _, (List.dropLast_concat_getLast hne).symm⟩
    rw [hsame] at hpast ⊢
    have hwalk := charactersBefore_unended hpast
    have hloses : losesLast b.encoding (front ++ [last]) character = true ↔
        b.encoding.units (front ++ [last]) < character ∧ b.encoding.width last = 1 := by
      simp [losesLast, hsame]
    simp only [hend, if_true, List.append_nil, hloses, List.length_append, List.length_singleton]
    omega
  · have hkeeps : losesLast b.encoding line character = false := by
      have hne : Text.lineBody line ≠ line := by
        intro hsame
        rw [hsame] at hshape
        exact hend (List.append_cancel_left (hshape.symm.trans (List.append_nil line).symm))
      simp [losesLast, hne]
    have hwalk := le_charactersBefore_return hpast
    simp only [hend, if_false, hkeeps, Nat.min_eq_right hwalk]
    simp

/-- A return ends the first line, so its end is found from anywhere past it. -/
theorem offsetAt_past_returned_line :
    let b := ofUri "file:///a.sol" "ab\ncd" .utf16
    let line := ['a', 'b', '\n']
    b.lines[0]? = some line ∧ b.encoding.units (Text.lineBody line) ≤ 40 ∧
      b.offsetAt ⟨0, 40⟩ = lineStart b.lines 0 + (Text.lineBody line).length := by
  intro b line
  have hline : b.lines[0]? = some line := by decide +kernel
  have hpast : b.encoding.units (Text.lineBody line) ≤ 40 := by decide +kernel
  have hkeeps : losesLast b.encoding line 40 = false := by decide +kernel
  have hoffset := offsetAt_past_line_end hline hpast
  rw [hkeeps] at hoffset
  exact ⟨hline, hpast, hoffset⟩

/-- No return ends the last line, and a position past it is that of its last letter. -/
theorem offsetAt_past_unended_line :
    let b := ofUri "file:///a.sol" "ab\ncd" .utf16
    b.lines[1]? = some ['c', 'd'] ∧ b.encoding.units (Text.lineBody ['c', 'd']) ≤ 40 ∧
      b.offsetAt ⟨1, 40⟩ = 4 ∧ lineStart b.lines 1 + (Text.lineBody ['c', 'd']).length = 5 := by
  decide +kernel

end Buffer

end SolidityServer
