import SolidityServer.Proofs.LineEnds

/-! From an offset to its position and back. The way back finds the offset again, unless that lies
between the two characters of a return or after the return that ends the text: then it finds the
place before the return. The other offsets are the ones that the positions of clients mean. -/

namespace SolidityServer

namespace Text

/-- Whether an offset lies between a carriage return and its line feed. -/
def insideReturn (cs : List Char) (o : Nat) : Bool :=
  (cs.take o).getLast? == some '\r' && (cs.drop o).head? == some '\n'

/-- The length of the return that ends a text, zero if none does. -/
def finalReturn (cs : List Char) : Nat :=
  if cs.getLast?.any isReturn then if insideReturn cs (cs.length - 1) then 2 else 1 else 0

variable {c : Char} {cs line body r : List Char} {front back : List (List Char)} {k o : Nat}

theorem insideReturn_of_le (h : cs.length ≤ o) : insideReturn cs o = false := by
  simp [insideReturn, List.drop_of_length_le h]

theorem insideReturn_one : insideReturn (c :: cs) 1 = (c == '\r' && cs.head? == some '\n') := by
  simp [insideReturn]

theorem insideReturn_succ (ho : 0 < o) : insideReturn (c :: cs) (o + 1) = insideReturn cs o := by
  cases cs with
  | nil => rw [insideReturn_of_le (by simp), insideReturn_of_le (by simp)]
  | cons d cs =>
    obtain ⟨o, rfl⟩ := Nat.exists_eq_add_one_of_ne_zero (Nat.ne_of_gt ho)
    simp [insideReturn, List.getLast?_cons_cons]

/-- No line starts inside a return. -/
theorem insideReturn_of_splitLines (h : splitLines cs = front ++ back) :
    insideReturn cs front.flatten.length = false := by
  induction cs generalizing front with
  | nil => simp [insideReturn]
  | cons c cs ih =>
    cases front with
    | nil => simp [insideReturn]
    | cons first front =>
      unfold splitLines at h
      split at h
      · next hends =>
        obtain ⟨rfl, hrest⟩ := List.cons.inj h
        have hlength : ([c] :: front).flatten.length = front.flatten.length + 1 := by simp
        rw [hlength]
        rcases Nat.eq_zero_or_pos front.flatten.length with hzero | hpos
        · rw [hzero, insideReturn_one]
          simp only [endsLine, Bool.and_eq_true] at hends
          simpa only [Bool.not_eq_true'] using hends.2
        · rw [insideReturn_succ hpos]
          exact ih hrest
      · split at h
        · next hempty =>
          refine insideReturn_of_le ?_
          rw [splitLines_eq_nil hempty]
          obtain ⟨rfl, -⟩ := List.cons.inj h
          simp
        · next joined rest hlines =>
          obtain ⟨rfl, hrest⟩ := List.cons.inj h
          have hne : joined ≠ [] := ne_nil_of_mem_splitLines (hlines ▸ List.mem_cons_self)
          have hlength : ((c :: joined) :: front).flatten.length =
              (joined :: front).flatten.length + 1 := by
            simp only [List.flatten_cons, List.length_append, List.length_cons]
            omega
          have hpos : 0 < (joined :: front).flatten.length := by
            rw [List.flatten_cons, List.length_append]
            exact Nat.add_pos_left (List.length_pos_iff.mpr hne) _
          rw [hlength, insideReturn_succ hpos]
          exact ih (hlines.trans (congrArg (joined :: ·) hrest))

/-- Inside a return there is a place behind the body of a line that is not yet the end of it. -/
theorem insideReturn_in_line (h : splitLines cs = front ++ line :: back)
    (hk : k ≤ (lineBody line).length ∨ k < line.length) :
    insideReturn cs (front.flatten.length + k) = decide ((lineBody line).length < k) := by
  have hmem : line ∈ splitLines cs := by simp [h]
  obtain ⟨r, hr, hshape, hbody⟩ := exists_lineReturn hmem
  have hcs : cs = front.flatten ++ (line ++ back.flatten) := by
    rw [← flatten_splitLines cs, h, List.flatten_append, List.flatten_cons]
  generalize lineBody line = body at *
  subst hshape
  cases k with
  | zero => simpa using insideReturn_of_splitLines h
  | succ k =>
    by_cases hinside : k + 1 ≤ body.length
    · -- the character before is in the body, and that has no returns
      have hbefore : cs.take (front.flatten.length + (k + 1)) =
          front.flatten ++ body.take k ++ [body[k]] := by
        rw [hcs, List.take_length_add_append, List.append_assoc,
          List.take_append_of_le_length hinside, List.take_succ_eq_append_getElem,
          List.append_assoc]
      have hplain := hbody body[k] (List.getElem_mem hinside)
      have hne : (some body[k] == some '\r') = false := by
        refine beq_false_of_ne fun hreturn => ?_
        rw [Option.some.inj hreturn] at hplain
        cases hplain
      rw [insideReturn, hbefore, List.getLast?_concat, hne, Bool.false_and]
      exact (decide_eq_false (Nat.not_lt.mpr hinside)).symm
    · have hlength := hk.resolve_left hinside
      have hpair : r = ['\r', '\n'] ∧ k = body.length := by
        simp only [lineReturns, List.mem_cons, List.not_mem_nil, or_false] at hr
        rcases hr with rfl | rfl | rfl | rfl <;> simp at hlength ⊢ <;> omega
      obtain ⟨rfl, rfl⟩ := hpair
      have hparts : cs = (front.flatten ++ body ++ ['\r']) ++ '\n' :: back.flatten := by
        rw [hcs]
        simp
      have hplace : front.flatten.length + (body.length + 1) =
          (front.flatten ++ body ++ ['\r']).length := by
        simp
      rw [insideReturn, hplace, hparts, List.take_left, List.drop_left, List.getLast?_concat]
      simp

/-- The last character of a line tells whether a return ends it. -/
theorem getLast?_isReturn (hbody : ∀ c ∈ body, isReturn c = false) (hr : r ∈ lineReturns) :
    (body ++ r).getLast?.any isReturn = decide (r ≠ []) := by
  simp only [lineReturns, List.mem_cons, List.not_mem_nil, or_false] at hr
  rcases hr with rfl | rfl | rfl | rfl
  · rw [List.append_nil]
    cases hlast : body.getLast? with
    | none => rfl
    | some c => simp [hbody c (List.mem_of_getLast? hlast)]
  all_goals simp [List.getLast?_append, isReturn]

theorem lineBody_of_unended (h : line ∈ splitLines cs) (hend : line.getLast?.any isReturn = false) :
    lineBody line = line := by
  obtain ⟨r, hr, hshape, hbody⟩ := exists_lineReturn h
  rw [hshape, getLast?_isReturn hbody hr] at hend
  have hnil : r = [] := by simpa using hend
  simpa [hnil] using hshape.symm

/-- The return that ends the last line is the one that ends the text. -/
theorem finalReturn_of_splitLines (h : splitLines cs = front ++ [line]) :
    (lineBody line).length + finalReturn cs = line.length := by
  have hmem : line ∈ splitLines cs := by simp [h]
  obtain ⟨r, hr, hshape, hbody⟩ := exists_lineReturn hmem
  have hline : line ≠ [] := ne_nil_of_mem_splitLines hmem
  have hcs : cs = front.flatten ++ line := by
    rw [← flatten_splitLines cs, h, List.flatten_append]
    simp
  have hlast : cs.getLast?.any isReturn = decide (r ≠ []) := by
    have hsame : cs.getLast? = line.getLast? := by
      rw [hcs, List.getLast?_append, List.getLast?_eq_some_getLast hline, Option.some_or]
    rw [hsame, hshape, getLast?_isReturn hbody hr]
  have hlength := congrArg List.length hshape
  rw [List.length_append] at hlength
  have hpos := List.length_pos_iff.mpr hline
  have hplace : cs.length - 1 = front.flatten.length + (line.length - 1) := by
    rw [hcs, List.length_append]
    omega
  have hinside : insideReturn cs (cs.length - 1) =
      decide ((lineBody line).length < line.length - 1) := by
    rw [hplace]
    exact insideReturn_in_line h (.inr (by omega))
  rw [finalReturn, hlast, hinside]
  rcases length_lineReturn hr with rfl | hone | htwo
  · simpa using hlength.symm
  all_goals
    have hne : r ≠ [] := List.length_pos_iff.mp (by omega)
    simp only [hne, ne_eq, not_false_eq_true, decide_true, if_true, decide_eq_true_eq]
    split <;> omega

/-- An offset at which a cursor can stand: not inside a return, and not after one that ends the
text. -/
structure IsStop (cs : List Char) (o : Nat) : Prop where
  inText : o ≤ cs.length
  outside : insideReturn cs o = false
  beforeEnd : o = cs.length → finalReturn cs = 0

theorem isStop_on_line (h : splitLines cs = front ++ line :: back)
    (hk : k ≤ (lineBody line).length) : IsStop cs (front.flatten.length + k) := by
  have hmem : line ∈ splitLines cs := by simp [h]
  have hbody := (length_lineBody hmem).1
  have hlength : cs.length = front.flatten.length + (line.length + back.flatten.length) := by
    rw [← flatten_splitLines cs, h, List.flatten_append, List.flatten_cons, List.length_append,
      List.length_append]
  refine ⟨by omega, ?_, fun hend => ?_⟩
  · rw [insideReturn_in_line h (.inl hk)]
    exact decide_eq_false (Nat.not_lt.mpr hk)
  · -- at the end of the text there are no lines left, and this one has no return
    have hback : back = [] := by
      cases back with
      | nil => rfl
      | cons next back =>
        have hnext : next ∈ splitLines cs := by simp [h]
        have hpos := List.length_pos_iff.mpr (ne_nil_of_mem_splitLines hnext)
        rw [List.flatten_cons, List.length_append] at hlength
        omega
    subst hback
    have hreturn := finalReturn_of_splitLines h
    omega

end Text

namespace Buffer

variable {b : Buffer} {e : Encoding} {body line r : List Char}
  {lines front back : List (List Char)} {k o : Nat}

theorem openEnded_concat (front : List (List Char)) (line : List Char) :
    openEnded (front ++ [line]) = line.getLast?.any Text.isReturn := by
  rw [openEnded, List.getLast?_concat, Option.bind_some]
  cases line.getLast? <;> rfl

/-- An offset is on one of the lines, or on the one that starts after them. Only on a last line that
no return ends it can be at the end of the line. -/
theorem locate_cases (n : Nat) (ho : o ≤ lines.flatten.length) :
    (∃ front line back k, lines = front ++ line :: back ∧ o = front.flatten.length + k ∧
      (k < line.length ∨ k = line.length ∧ back = [] ∧ openEnded [line] = false) ∧
      locate n lines o = (n + front.length, line.take k)) ∨
    (o = lines.flatten.length ∧ locate n lines o = (n + lines.length, [])) := by
  induction lines generalizing n o with
  | nil => exact .inr ⟨by simpa using ho, by simp [locate]⟩
  | cons first lines ih =>
    rw [List.flatten_cons, List.length_append] at ho
    cases lines with
    | nil =>
      simp only [List.flatten_nil, List.length_nil, Nat.add_zero] at ho
      by_cases hend : openEnded [first] = true
      · rcases Nat.lt_or_eq_of_le ho with hlt | rfl
        · exact .inl ⟨[], first, [], o, rfl, by simp, .inl hlt, by simp [locate, hlt]⟩
        · exact .inr ⟨by simp, by simp [locate, hend]⟩
      · rw [Bool.not_eq_true] at hend
        exact .inl ⟨[], first, [], o, rfl, by simp,
          (Nat.lt_or_eq_of_le ho).imp_right fun heq => ⟨heq, rfl, hend⟩, by simp [locate, hend]⟩
    | cons second lines =>
      rw [locate_cons_cons]
      by_cases hhere : o < first.length
      · rw [if_pos hhere]
        exact .inl ⟨[], first, second :: lines, o, rfl, by simp, .inl hhere, rfl⟩
      · rw [if_neg hhere]
        rcases ih (n + 1) (o := o - first.length) (by omega) with
          ⟨front, line, back, k, hlines, hplace, hk, hlocate⟩ | ⟨hplace, hlocate⟩
        · refine .inl ⟨first :: front, line, back, k, by rw [hlines, List.cons_append], ?_, hk, ?_⟩
          · rw [List.flatten_cons, List.length_append]
            omega
          · rw [hlocate, List.length_cons, Nat.add_assoc, Nat.add_comm 1]
        · refine .inr ⟨?_, ?_⟩
          · rw [List.flatten_cons, List.length_append, ← hplace]
            omega
          · rw [hlocate, List.length_cons (a := first), Nat.add_assoc, Nat.add_comm 1]

/-- The walk over a line finds the characters of its body again; behind them it may stop where it
likes. -/
theorem min_charactersBefore (hbody : ∀ c ∈ body, Text.isReturn c = false)
    (hr : r ∈ Text.lineReturns) :
    min (charactersBefore e (counted (body ++ r)) (e.units ((body ++ r).take k))) body.length =
      min k body.length := by
  rw [counted, Text.unifyReturns_append hbody hr]
  by_cases hk : k ≤ body.length
  · generalize (if r = [] then [] else ['\n']) = mark
    have htake : (body ++ r).take k = (body ++ mark).take k := by
      rw [List.take_append_of_le_length hk, List.take_append_of_le_length hk]
    have hlength : k ≤ (body ++ mark).length := by
      rw [List.length_append]
      omega
    have hunits : ¬ e.units (body ++ mark) < e.units ((body ++ mark).take k) := by
      have hsplit := e.units_append ((body ++ mark).take k) ((body ++ mark).drop k)
      rw [List.take_append_drop] at hsplit
      omega
    rw [htake, charactersBefore]
    simp only [hunits, if_false]
    rw [Encoding.reach_units_take hlength]
  · have hfar : body.length ≤ k := by omega
    by_cases hend : r = []
    · subst hend
      simp only [List.append_nil, if_true, List.take_of_length_le hfar, charactersBefore,
        Nat.lt_irrefl, if_false]
      have hall := Encoding.reach_units_take (e := e) (Nat.le_refl body.length)
      rw [List.take_length] at hall
      omega
    · have hunits : e.units body ≤ e.units ((body ++ r).take k) := by
        rw [List.take_append, List.take_of_length_le hfar, e.units_append]
        exact Nat.le_add_right _ _
      have hwalk := le_charactersBefore_return hunits
      rw [if_neg hend]
      omega

theorem lineStart_append (front back : List (List Char)) :
    lineStart (front ++ back) front.length = front.flatten.length := by
  rw [lineStart, List.take_left]

theorem mem_splitLines (h : b.lines = front ++ line :: back) : line ∈ Text.splitLines b.chars := by
  rw [← lines, h]
  simp

theorem offsetAt_on_line (h : b.lines = front ++ line :: back) :
    b.offsetAt ⟨front.length, b.encoding.units (line.take k)⟩ =
      front.flatten.length + min k (Text.lineBody line).length := by
  have hmem := mem_splitLines h
  obtain ⟨r, hr, hshape, hbody⟩ := Text.exists_lineReturn hmem
  have hline : b.lines[front.length]? = some line := by simp [h]
  have hwalk := min_charactersBefore (e := b.encoding) (k := k) hbody hr
  rw [← hshape] at hwalk
  simp only [offsetAt, place, hline, List.getD_eq_getElem?_getD, Option.getD_some, hwalk]
  rw [h, lineStart_append]

theorem offsetAt_after_lines (h : b.lines = front ++ [line]) (character : Nat) :
    b.offsetAt ⟨b.lines.length, character⟩ =
      front.flatten.length + (Text.lineBody line).length := by
  have hmem := mem_splitLines h
  have hunits : (Text.lineBody line).length ≤ b.encoding.units line :=
    Nat.le_trans (Text.length_lineBody hmem).1 (b.encoding.length_le_units line)
  have hnone : b.lines[b.lines.length]? = none := List.getElem?_eq_none (Nat.le_refl _)
  have hlast : b.lines.getLast? = some line := by rw [h, List.getLast?_concat]
  have hplace : b.lines.length - 1 = front.length := by simp [h]
  have hline : b.lines.getD front.length [] = line := by simp [h]
  simp only [offsetAt, place, hnone, hlast, hplace, hline, Nat.min_eq_right hunits]
  rw [h, lineStart_append]

/-- On the way to a position and back, an offset on a line comes no further than the text of the
line, and the end of the document no further than the text of the last one. -/
theorem offsetAt_positionAt_cases (ho : o ≤ b.chars.length) :
    (∃ front line back k, b.lines = front ++ line :: back ∧ k < line.length ∧
      o = front.flatten.length + k ∧
      b.offsetAt (b.positionAt o) = front.flatten.length + min k (Text.lineBody line).length) ∨
    (o = b.chars.length ∧ b.offsetAt (b.positionAt o) = o - Text.finalReturn b.chars) := by
  have hlength : b.lines.flatten.length = b.chars.length := by
    rw [lines, Text.flatten_splitLines]
  have hclamped : min (o : Int).toNat b.chars.length = o := by omega
  rw [positionAt, hclamped]
  rcases locate_cases 0 (hlength ▸ ho) with
    ⟨front, line, back, k, hlines, hplace, hk, hlocate⟩ | ⟨hplace, hlocate⟩
  · simp only [hlocate, Nat.zero_add, offsetAt_on_line hlines]
    rcases hk with hinside | ⟨rfl, rfl, hopen⟩
    · exact .inl ⟨front, line, back, k, hlines, hinside, hplace, rfl⟩
    · -- no return ends the text
      have hmem := mem_splitLines hlines
      have hsame := Text.lineBody_of_unended hmem (openEnded_concat [] line ▸ hopen)
      have hreturn := Text.finalReturn_of_splitLines hlines
      have hsum : b.lines.flatten.length = front.flatten.length + line.length := by simp [hlines]
      rw [hsame] at hreturn ⊢
      exact .inr ⟨by omega, by omega⟩
  · refine .inr ⟨hplace.trans hlength, ?_⟩
    simp only [hlocate, Nat.zero_add]
    rcases List.eq_nil_or_concat b.lines with hnone | ⟨front, line, hlines⟩
    · have hzero : o = 0 := by simpa [hnone] using hplace
      simp [offsetAt, place, hnone, hzero, lineStart]
    · rw [List.concat_eq_append] at hlines
      have hreturn := Text.finalReturn_of_splitLines hlines
      have hsum : b.lines.flatten.length = front.flatten.length + line.length := by simp [hlines]
      rw [offsetAt_after_lines hlines]
      omega

/-- The way to a position and back leads to the start of a return from inside it, and also from
behind it at the end of the text. Every other offset is found again. -/
theorem offsetAt_positionAt (b : Buffer) {o : Nat} (ho : o ≤ b.chars.length) :
    b.offsetAt (b.positionAt o) =
      if Text.insideReturn b.chars o then o - 1
      else if o = b.chars.length then o - Text.finalReturn b.chars
      else o := by
  rcases offsetAt_positionAt_cases ho with
    ⟨front, line, back, k, hlines, hinside, hplace, hback⟩ | ⟨hend, hback⟩
  · have hshort := (Text.length_lineBody (mem_splitLines hlines)).2
    have hlength : b.lines.flatten.length = b.chars.length := by
      rw [lines, Text.flatten_splitLines]
    rw [hlines, List.flatten_append, List.flatten_cons, List.length_append,
      List.length_append] at hlength
    have hreturn := Text.insideReturn_in_line hlines (.inr hinside)
    rw [← hplace] at hreturn
    rw [hback, hreturn, if_neg (show ¬ o = b.chars.length by omega)]
    by_cases hbehind : (Text.lineBody line).length < k
    · simp only [hbehind, decide_true, if_true]
      omega
    · simp only [hbehind, decide_false, Bool.false_eq_true, if_false]
      omega
  · rw [hback, Text.insideReturn_of_le (Nat.le_of_eq hend.symm), if_neg (by decide), if_pos hend]

/-- Between the characters of the first return, and after the second one. -/
theorem offsetAt_positionAt_returns :
    let b := ofUri "file:///a.sol" "😀\r\né\n" .utf16
    2 ≤ b.chars.length ∧ b.offsetAt (b.positionAt 2) = 1 ∧ b.chars.length = 5 ∧
      b.offsetAt (b.positionAt 5) = 4 := by
  intro b
  have hsize : b.chars.length = 5 := by decide +kernel
  have hinside := offsetAt_positionAt b (o := 2) (by omega)
  have hafter := offsetAt_positionAt b (o := 5) (by omega)
  rw [if_pos (by decide +kernel)] at hinside
  rw [if_neg (by decide +kernel), if_pos hsize.symm] at hafter
  have hreturn : Text.finalReturn b.chars = 1 := by decide +kernel
  rw [hreturn] at hafter
  exact ⟨by omega, hinside, hsize, hafter⟩

theorem place_lt_length (e : Encoding) (p : Position) (h : lines ≠ []) :
    (place e lines p).1 < lines.length := by
  have hpos := List.length_pos_iff.mpr h
  unfold place
  split
  · next line hline => exact (List.getElem?_eq_some_iff.mp hline).1
  · rw [List.getLast?_eq_some_getLast h]
    exact Nat.sub_lt hpos Nat.one_pos

/-- Every position means a place in the text of some line, or the start of an empty document. -/
theorem offsetAt_cases (b : Buffer) (p : Position) :
    b.lines = [] ∧ b.offsetAt p = 0 ∨
      ∃ front line back k, b.lines = front ++ line :: back ∧ k ≤ (Text.lineBody line).length ∧
        b.offsetAt p = front.flatten.length + k := by
  by_cases hnone : b.lines = []
  · exact .inl ⟨hnone, by simp [offsetAt, place, hnone, lineStart]⟩
  · have hlt := place_lt_length b.encoding p hnone
    rcases hplace : place b.encoding b.lines p with ⟨l, column⟩
    rw [hplace] at hlt
    have hline : b.lines.getD l [] = b.lines[l] := by simp [hlt]
    refine .inr ⟨b.lines.take l, b.lines[l], b.lines.drop (l + 1),
      min column (Text.lineBody b.lines[l]).length, ?_, Nat.min_le_right _ _, ?_⟩
    · rw [← List.drop_eq_getElem_cons hlt, List.take_append_drop]
    · simp only [offsetAt, hplace, lineStart, hline]

theorem offsetAt_isStop (b : Buffer) (p : Position) : Text.IsStop b.chars (b.offsetAt p) := by
  rcases offsetAt_cases b p with ⟨hnone, hzero⟩ | ⟨front, line, back, k, hlines, hk, hoffset⟩
  · rw [hzero, Text.splitLines_eq_nil hnone]
    exact ⟨Nat.le_refl 0, rfl, fun _ => rfl⟩
  · rw [hoffset]
    exact Text.isStop_on_line hlines hk

theorem offsetAt_positionAt_of_isStop (h : Text.IsStop b.chars o) :
    b.offsetAt (b.positionAt o) = o := by
  rcases offsetAt_positionAt_cases h.inText with
    ⟨front, line, back, k, hlines, hinside, hplace, hback⟩ | ⟨hend, hback⟩
  · have hreturn := Text.insideReturn_in_line hlines (.inr hinside)
    rw [← hplace, h.outside] at hreturn
    have hbody : k ≤ (Text.lineBody line).length :=
      Nat.le_of_not_lt (of_decide_eq_false hreturn.symm)
    rw [hback, Nat.min_eq_left hbody, hplace]
  · rw [hback, h.beforeEnd hend, Nat.sub_zero]

/-- Whatever position a client sends, its offset lies in the text and not inside a return, and is
found again from its own position. The offsets that positions can mean are all the stops. -/
theorem offsetAt_normal (b : Buffer) :
    (∀ p : Position, b.offsetAt p ≤ b.chars.length ∧
      Text.insideReturn b.chars (b.offsetAt p) = false ∧
      b.offsetAt (b.positionAt (b.offsetAt p)) = b.offsetAt p) ∧
    ∀ o : Nat, (∃ p, b.offsetAt p = o) ↔ Text.IsStop b.chars o := by
  refine ⟨fun p => ?_, fun o => ⟨?_, fun ho => ?_⟩⟩
  · have hstop := offsetAt_isStop b p
    exact ⟨hstop.inText, hstop.outside, offsetAt_positionAt_of_isStop hstop⟩
  · rintro ⟨p, rfl⟩
    exact offsetAt_isStop b p
  · exact ⟨b.positionAt o, offsetAt_positionAt_of_isStop ho⟩

end Buffer

end SolidityServer
