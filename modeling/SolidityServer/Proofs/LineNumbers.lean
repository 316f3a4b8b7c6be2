import SolidityServer.Proofs.LineEnds

/-! The lines of positions. A client starts a new line after each return only. Here a new line also
starts after each of the other line breaks, unless that is the last character of the text. -/

namespace SolidityServer

namespace Text

/-- Whether a return ends with the character at an index. -/
def endsReturn (cs : List Char) (i : Nat) : Bool :=
  cs[i]? == some '\n' || cs[i]? == some '\r' && cs[i + 1]? != some '\n'

/-- The returns that end at an offset or before it. -/
def returnsBefore (cs : List Char) (o : Nat) : Nat := (List.range o).countP (endsReturn cs)

/-- Whether a line break that is no return stands at an index, with more text after it. -/
def isStrayBreak (cs : List Char) (i : Nat) : Bool :=
  cs[i]?.any (fun c => isLineBreak c && !isReturn c) && i + 1 < cs.length

def strayBreaksBefore (cs : List Char) (o : Nat) : Nat := (List.range o).countP (isStrayBreak cs)

variable {c : Char} {cs : List Char} {o : Nat}

theorem countP_range_succ (p : Nat → Bool) (n : Nat) :
    (List.range (n + 1)).countP p = (List.range n).countP (p ∘ (· + 1)) + if p 0 then 1 else 0 := by
  rw [List.range_succ_eq_map, List.countP_cons, List.countP_map]

theorem returnsBefore_succ : returnsBefore (c :: cs) (o + 1) =
    returnsBefore cs o + if endsReturn (c :: cs) 0 then 1 else 0 := by
  have hshift : endsReturn (c :: cs) ∘ (· + 1) = endsReturn cs := by
    funext i
    simp [endsReturn]
  rw [returnsBefore, countP_range_succ, hshift, returnsBefore]

theorem strayBreaksBefore_succ : strayBreaksBefore (c :: cs) (o + 1) =
    strayBreaksBefore cs o + if isStrayBreak (c :: cs) 0 then 1 else 0 := by
  have hshift : isStrayBreak (c :: cs) ∘ (· + 1) = isStrayBreak cs := by
    funext i
    simp [isStrayBreak]
  rw [strayBreaksBefore, countP_range_succ, hshift, strayBreaksBefore]

/-- A line that ends with `c` is followed by another one, if only by an empty one after a return. -/
def opensLine (c : Char) (cs : List Char) : Bool := endsLine c cs && (isReturn c || !cs.isEmpty)

theorem opensLine_eq : (if opensLine c cs then 1 else 0) =
    (if endsReturn (c :: cs) 0 then 1 else 0) + if isStrayBreak (c :: cs) 0 then 1 else 0 := by
  by_cases hc : isReturn c = true
  · have hreturn : opensLine c cs = endsReturn (c :: cs) 0 := by
      have hbreak := isLineBreak_of_isReturn hc
      have hkind : c = '\r' ∨ c = '\n' := by simpa [isReturn] using hc
      rcases hkind with rfl | rfl <;>
        simp [opensLine, endsLine, endsReturn, hbreak, hc, List.head?_eq_getElem?, bne]
    have hstray : isStrayBreak (c :: cs) 0 = false := by simp [isStrayBreak, hc]
    simp [hreturn, hstray]
  · rw [Bool.not_eq_true] at hc
    have hreturn : endsReturn (c :: cs) 0 = false := by
      have hne : c ≠ '\r' ∧ c ≠ '\n' := by simpa [isReturn] using hc
      simp [endsReturn, hne]
    have hstray : opensLine c cs = isStrayBreak (c :: cs) 0 := by
      have hne : c ≠ '\r' ∧ c ≠ '\n' := by simpa [isReturn] using hc
      cases cs <;> simp [opensLine, endsLine, isStrayBreak, hc, hne]
    simp [hreturn, hstray]

end Text

namespace Buffer

open Text

variable {c : Char} {cs : List Char} {n o : Nat}

theorem locate_succ (n : Nat) (lines : List (List Char)) (o : Nat) :
    (locate (n + 1) lines o).1 = (locate n lines o).1 + 1 := by
  induction lines generalizing n o with
  | nil => rfl
  | cons first lines ih =>
    cases lines with
    | nil =>
      simp only [locate]
      split <;> rfl
    | cons second lines =>
      rw [locate_cons_cons, locate_cons_cons]
      split
      · rfl
      · exact ih (n + 1) _

theorem locate_zero (n : Nat) {lines : List (List Char)} (h : ∀ line ∈ lines, line ≠ []) :
    (locate n lines 0).1 = n := by
  cases lines with
  | nil => rfl
  | cons first lines =>
    have hpos : 0 < first.length := List.length_pos_iff.mpr (h first List.mem_cons_self)
    cases lines with
    | nil => simp [locate, hpos]
    | cons second lines => rw [locate_cons_cons, if_pos hpos]

/-- A character more at the head of a text moves an offset to another line only if a line ends with
it. -/
theorem locate_cons (n : Nat) (c : Char) (cs : List Char) (o : Nat) :
    (locate n (splitLines (c :: cs)) (o + 1)).1 =
      (locate n (splitLines cs) o).1 + if opensLine c cs then 1 else 0 := by
  rw [splitLines]
  by_cases hends : endsLine c cs = true
  · rw [if_pos hends]
    cases hlines : splitLines cs with
    | nil =>
      have hcs := splitLines_eq_nil hlines
      by_cases hc : isReturn c = true
      · simp [locate, openEnded, opensLine, hends, hc]
      · simp [locate, openEnded, opensLine, hc, hcs]
    | cons first rest =>
      have hcs : cs.isEmpty = false := by
        cases cs with
        | nil => cases hlines
        | cons => rfl
      have hopens : opensLine c cs = true := by simp [opensLine, hends, hcs]
      rw [locate_cons_cons, if_neg (by simp), hopens, if_pos rfl]
      exact locate_succ n _ o
  · have hgoes : opensLine c cs = false := by simp [opensLine, hends]
    rw [if_neg hends, hgoes]
    simp only [Bool.false_eq_true, if_false, Nat.add_zero]
    cases hlines : splitLines cs with
    | nil =>
      have hbreak : isLineBreak c = false := by
        simpa [endsLine, splitLines_eq_nil hlines] using hends
      have hc : isReturn c = false := by
        refine Bool.eq_false_iff.mpr fun hreturn => ?_
        rw [isLineBreak_of_isReturn hreturn] at hbreak
        cases hbreak
      simp [locate, openEnded, hc]
    | cons first rest =>
      have hne : first ≠ [] := ne_nil_of_mem_splitLines (hlines ▸ List.mem_cons_self)
      cases rest with
      | nil =>
        obtain ⟨d, ds, rfl⟩ := List.exists_cons_of_ne_nil hne
        have hopen : openEnded [c :: d :: ds] = openEnded [d :: ds] := by
          simp [openEnded, List.getLast?_cons_cons]
        simp only [locate, hopen, List.length_cons, Nat.add_lt_add_iff_right]
        split <;> rfl
      | cons second rest =>
        dsimp only
        rw [locate_cons_cons, locate_cons_cons, List.length_cons, Nat.add_sub_add_right]
        simp only [Nat.add_lt_add_iff_right]
        split <;> rfl

theorem locate_line (cs : List Char) (o : Nat) :
    (locate 0 (splitLines cs) o).1 = returnsBefore cs o + strayBreaksBefore cs o := by
  induction cs generalizing o with
  | nil =>
    have hreturns : returnsBefore [] o = 0 := List.countP_eq_zero.mpr (by simp [endsReturn])
    have hstrays : strayBreaksBefore [] o = 0 := List.countP_eq_zero.mpr (by simp [isStrayBreak])
    rw [hreturns, hstrays]
    rfl
  | cons c cs ih =>
    cases o with
    | zero => exact locate_zero 0 fun line => ne_nil_of_mem_splitLines
    | succ o =>
      rw [locate_cons, returnsBefore_succ, strayBreaksBefore_succ, ih, opensLine_eq]
      omega

/-- The line of an offset counts the returns that end there or before it, and with them the stray
breaks before it. A client counts only the returns. -/
theorem positionAt_line (b : Buffer) (o : Nat) :
    (b.positionAt o).line = returnsBefore b.chars (min o b.chars.length) +
      strayBreaksBefore b.chars (min o b.chars.length) :=
  locate_line b.chars _

/-- A vertical tab is no line break to a client. -/
theorem positionAt_after_tab :
    let b := ofUri "file:///a.sol" "a\x0bb" .utf16
    (b.positionAt 2).line = 1 ∧ returnsBefore b.chars 2 = 0 := by
  decide +kernel

end Buffer

end SolidityServer
