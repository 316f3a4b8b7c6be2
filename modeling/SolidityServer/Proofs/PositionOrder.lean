import SolidityServer.Editor.Buffer

/-! The order of positions. The offsets of a text and their positions come in the same order,
whatever ends its lines and however an editor counts characters. So a position has one offset only.
-/

namespace SolidityServer

/-- A position on an earlier line, or earlier on the same line. -/
def Position.Before (p q : Position) : Prop :=
  p.line < q.line ∨ p.line = q.line ∧ p.character < q.character

theorem Position.Before.ne {p q : Position} (h : p.Before q) : p ≠ q := by
  rintro rfl
  rcases h with h | ⟨-, h⟩ <;> omega

theorem Position.Before.asymm {p q : Position} (h : p.Before q) : ¬q.Before p := by
  rintro (h' | ⟨heq, h'⟩) <;> rcases h with h | ⟨heq', h⟩ <;> omega

namespace Encoding

theorem width_pos (e : Encoding) (c : Char) : 0 < e.width c := by
  cases e with
  | utf8 => exact Char.utf8Size_pos c
  | utf16 =>
    rw [width]
    split <;> omega
  | utf32 => exact Nat.zero_lt_one

theorem units_take_lt (e : Encoding) {cs : List Char} {a b : Nat} (h : a < b)
    (hb : b ≤ cs.length) : e.units (cs.take a) < e.units (cs.take b) := by
  induction cs generalizing a b with
  | nil =>
    simp only [List.length_nil] at hb
    omega
  | cons c cs ih =>
    have hc := e.width_pos c
    obtain ⟨b, rfl⟩ := Nat.exists_eq_add_one_of_ne_zero (Nat.ne_of_gt (Nat.zero_lt_of_lt h))
    cases a with
    | zero =>
      simp only [List.take_zero, List.take_succ_cons, units]
      omega
    | succ a =>
      have hrest := ih (Nat.lt_of_succ_lt_succ h) (Nat.le_of_succ_le_succ hb)
      simp only [List.take_succ_cons, units]
      omega

end Encoding

namespace Buffer

variable {line a b : Nat} {lines : List (List Char)}

theorem le_locate (line : Nat) (lines : List (List Char)) (offset : Nat) :
    line ≤ (locate line lines offset).1 := by
  fun_induction locate line lines offset with
  | case1 => exact Nat.le_refl _
  | case2 => exact Nat.le_refl _
  | case3 => exact Nat.le_succ _
  | case4 => exact Nat.le_refl _
  | case5 line first lines offset _ _ ih => omega

theorem locate_cons_cons (line : Nat) (first second : List Char) (lines : List (List Char))
    (offset : Nat) : locate line (first :: second :: lines) offset =
      if offset < first.length then (line, first.take offset)
      else locate (line + 1) (second :: lines) (offset - first.length) := by
  rw [locate]
  simp

/-- Of two offsets, the later one is on a later line, or has more of its line before it. -/
theorem locate_lt (e : Encoding) (h : a < b) (hb : b ≤ lines.flatten.length) :
    (locate line lines a).1 < (locate line lines b).1 ∨
      (locate line lines a).1 = (locate line lines b).1 ∧
        e.units (locate line lines a).2 < e.units (locate line lines b).2 := by
  induction lines generalizing line a b with
  | nil =>
    simp only [List.flatten_nil, List.length_nil] at hb
    omega
  | cons first lines ih =>
    cases lines with
    | nil =>
      have hb' : b ≤ first.length := by simpa using hb
      have ha : locate line [first] a = (line, first.take a) := by
        have hinside : a < first.length := by omega
        simp [locate, hinside]
      rw [ha, locate]
      split
      · exact .inr ⟨rfl, e.units_take_lt h hb'⟩
      · exact .inl (Nat.lt_succ_self line)
    | cons second lines =>
      rw [locate_cons_cons, locate_cons_cons]
      by_cases hafter : first.length ≤ a
      · rw [if_neg (by omega), if_neg (by omega)]
        rw [List.flatten_cons, List.length_append] at hb
        exact ih (by omega) (by omega)
      · rw [if_pos (by omega)]
        by_cases hsame : b < first.length
        · rw [if_pos hsame]
          exact .inr ⟨rfl, e.units_take_lt h (Nat.le_of_lt hsame)⟩
        · rw [if_neg hsame]
          exact .inl (le_locate _ _ _)

variable {d : Buffer} {o p : Int}

theorem positionAt_before (ho : 0 ≤ o) (h : o < p) (hp : p ≤ d.chars.length) :
    (d.positionAt o).Before (d.positionAt p) := by
  have hlength : d.lines.flatten.length = d.chars.length := by
    rw [lines, Text.flatten_splitLines]
  have hmin : min o.toNat d.chars.length < min p.toNat d.chars.length := by omega
  exact locate_lt d.encoding hmin (by omega)

theorem positionAt_injective (ho : 0 ≤ o ∧ o ≤ d.chars.length) (hp : 0 ≤ p ∧ p ≤ d.chars.length)
    (h : d.positionAt o = d.positionAt p) : o = p := by
  rcases Int.lt_trichotomy o p with hlt | heq | hgt
  · exact absurd h (positionAt_before ho.1 hlt hp.2).ne
  · exact heq
  · exact absurd h.symm (positionAt_before hp.1 hgt ho.2).ne

theorem rangeOf_injective {start stop start' stop' : Int} (hstart : 0 ≤ start ∧ start ≤ stop)
    (hstop : stop ≤ d.chars.length) (hstart' : 0 ≤ start' ∧ start' ≤ stop')
    (hstop' : stop' ≤ d.chars.length) (h : d.rangeOf start stop = d.rangeOf start' stop') :
    start = start' ∧ stop = stop' := by
  obtain ⟨hfirst, hlast⟩ := Range.mk.inj h
  constructor
  · exact positionAt_injective ⟨hstart.1, by omega⟩ ⟨hstart'.1, by omega⟩ hfirst
  · exact positionAt_injective ⟨by omega, hstop⟩ ⟨by omega, hstop'⟩ hlast

/-- The offset in the text that is nearest to `o`. -/
def nearest (d : Buffer) (o : Int) : Int := max 0 (min o d.chars.length)

theorem positionAt_nearest (d : Buffer) (o : Int) :
    d.positionAt (d.nearest o) = d.positionAt o := by
  have hclamped : min (d.nearest o).toNat d.chars.length = min o.toNat d.chars.length := by
    unfold nearest
    omega
  rw [positionAt, positionAt, hclamped]

theorem positionAt_not_before (h : o ≤ p) : ¬(d.positionAt p).Before (d.positionAt o) := by
  rw [← positionAt_nearest d o, ← positionAt_nearest d p]
  have hinside : 0 ≤ d.nearest o ∧ d.nearest p ≤ d.chars.length := by
    unfold nearest
    omega
  have hnearest : d.nearest o ≤ d.nearest p := by
    unfold nearest
    omega
  rcases Int.lt_or_eq_of_le hnearest with hlt | heq
  · exact (positionAt_before hinside.1 hlt hinside.2).asymm
  · rw [heq]
    exact fun hbefore => hbefore.ne rfl

/-- The positions of a text come in the order of its offsets, and offsets outside of the text have
those of its ends. So a range stands for one span of the text, and no range ends before it
starts. -/
theorem positionAt_strictMono (d : Buffer) :
    (∀ o p : Int, 0 ≤ o → o < p → p ≤ d.chars.length →
      (d.positionAt o).Before (d.positionAt p)) ∧
    (∀ o : Int, o < 0 → d.positionAt o = d.positionAt 0) ∧
    (∀ o : Int, d.chars.length < o → d.positionAt o = d.positionAt d.chars.length) ∧
    (∀ start stop start' stop' : Int, 0 ≤ start ∧ start ≤ stop → stop ≤ d.chars.length →
      0 ≤ start' ∧ start' ≤ stop' → stop' ≤ d.chars.length →
      d.rangeOf start stop = d.rangeOf start' stop' → start = start' ∧ stop = stop') ∧
    ∀ start stop : Int, start ≤ stop →
      ¬(d.rangeOf start stop).stop.Before (d.rangeOf start stop).start := by
  refine ⟨fun o p => positionAt_before, fun o ho => ?_, fun o ho => ?_,
    fun start stop start' stop' => rangeOf_injective, fun start stop => positionAt_not_before⟩
  · have hzero : d.nearest o = 0 := by
      unfold nearest
      omega
    rw [← positionAt_nearest d o, hzero]
  · have hend : d.nearest o = d.chars.length := by
      unfold nearest
      omega
    rw [← positionAt_nearest d o, hend]

/-- Around a return of two characters and a character of two units, and outside of the text. -/
theorem positionAt_strictMono_returns :
    let d := ofUri "file:///a.sol" "a\r\n😀\x0bb\n" .utf16
    d.chars.length = 7 ∧ (d.positionAt 1).Before (d.positionAt 2) ∧
      (d.positionAt 6).Before (d.positionAt 7) ∧ d.positionAt (-3) = d.positionAt 0 ∧
      d.positionAt 9 = d.positionAt 7 ∧ d.rangeOf 2 4 ≠ d.rangeOf 3 4 ∧
      ¬(d.rangeOf 3 9).stop.Before (d.rangeOf 3 9).start := by
  intro d
  have hlength : d.chars.length = 7 := by decide +kernel
  obtain ⟨hbefore, hstart, hend, hspans, hranges⟩ := positionAt_strictMono d
  simp only [hlength] at hbefore hend hspans
  refine ⟨hlength, hbefore 1 2 (by decide) (by decide) (by decide),
    hbefore 6 7 (by decide) (by decide) (by decide), hstart (-3) (by decide), hend 9 (by decide),
    fun hsame => ?_, hranges 3 9 (by decide)⟩
  have hspan := hspans 2 4 3 4 (by decide) (by decide) (by decide) (by decide) hsame
  exact absurd hspan.1 (by decide)

end Buffer

end SolidityServer
