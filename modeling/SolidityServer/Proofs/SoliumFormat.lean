import Mathlib.Data.List.DropRight
import Mathlib.Data.List.Forall2
import SolidityServer.Proofs.LineEnds
import SolidityServer.Proofs.LinterFailures

/-! Reading back what solium prints. A line is read as a finding if and only if it has the parts of
one, and the marks between the parts tell where each of them ends; so whatever a message says, the
findings are read as they were printed. -/

namespace SolidityServer

namespace Text

variable {c : Char} {cs ds : List Char}

theorem digit_range (h : c.isDigit = true) : 48 ≤ c.toNat ∧ c.toNat ≤ 57 := by
  have hbounds : decide (c.val ≥ '0'.val) = true ∧ decide (c.val ≤ '9'.val) = true :=
    Bool.and_eq_true_iff.mp h
  exact ⟨UInt32.le_iff_toNat_le.mp (of_decide_eq_true hbounds.1),
    UInt32.le_iff_toNat_le.mp (of_decide_eq_true hbounds.2)⟩

theorem digit?_of_isDigit (h : c.isDigit = true) : digit? c = some (c.toNat - '0'.toNat) := by
  have hrange := digit_range h
  have hfound : zeroDigits.find? (fun start => start ≤ c.toNat && c.toNat ≤ start + 9) = some 48 :=
    List.find?_cons_of_pos (by simpa using hrange)
  rw [digit?, hfound]
  rfl

theorem isDigit_toDigits (n : Nat) : ∀ c ∈ Nat.toDigits 10 n, c.isDigit = true := fun _ hc =>
  Nat.isDigit_of_mem_toDigits (by decide) (by decide) hc

theorem numberOf_toDigits (n : Nat) : numberOf (Nat.toDigits 10 n) = n := by
  have hfold : ∀ (cs : List Char) (start : Nat), (∀ c ∈ cs, c.isDigit = true) →
      cs.foldl (fun n c => 10 * n + (digit? c).getD 0) start = Nat.ofDigitChars 10 cs start := by
    intro cs
    induction cs with
    | nil => exact fun start _ => rfl
    | cons c cs ih =>
      intro start hdigits
      have hc := digit?_of_isDigit (hdigits c List.mem_cons_self)
      rw [List.foldl_cons, hc, ih _ fun d hd => hdigits d (List.mem_cons_of_mem c hd)]
      rfl
  rw [numberOf, hfold _ 0 (isDigit_toDigits n), Nat.ofDigitChars_toDigits (by decide) (by decide)]

theorem isDecimal_toDigits (n : Nat) : ∀ c ∈ Nat.toDigits 10 n, isDecimal c = true := by
  intro c hc
  rw [isDecimal, digit?_of_isDigit (isDigit_toDigits n c hc)]
  rfl

/-- The code points of the blanks, one by one. -/
def blanks : List Nat :=
  blankRanges.flatMap fun (first, last) => List.range' first (last + 1 - first)

theorem mem_blanks (h : isBlank c = true) : c.toNat ∈ blanks := by
  obtain ⟨⟨first, last⟩, hrange, hc⟩ := List.any_eq_true.mp h
  simp only [Bool.and_eq_true, decide_eq_true_eq] at hc
  refine List.mem_flatMap.mpr ⟨_, hrange, List.mem_range'_1.mpr ?_⟩
  omega

theorem isWord_of_isDigit (h : c.isDigit = true) : isWord c = true := by
  have hascii : c.toNat < 128 := Nat.lt_of_le_of_lt (digit_range h).2 (by decide)
  have halphanum : c.isAlphanum = true := Bool.or_eq_true_iff.mpr (.inr h)
  rw [isWord, if_pos hascii, halphanum, Bool.true_or]

theorem isWord_of_isBlank (h : isBlank c = true) : isWord c = false := by
  have hall : ∀ n ∈ blanks, isWord (Char.ofNat n) = false := by decide +kernel
  have hc := hall c.toNat (mem_blanks h)
  rwa [Char.ofNat_toNat] at hc

theorem isBlank_of_isLineBreak (h : isLineBreak c = true) : isBlank c = true := by
  simp only [isLineBreak, Bool.or_eq_true, Bool.and_eq_true, decide_eq_true_eq, beq_iff_eq] at h
  simp only [isBlank, blankRanges, List.any_cons, List.any_nil, Bool.or_eq_true, Bool.and_eq_true,
    decide_eq_true_eq]
  omega

theorem isLineBreak_of_isWord (h : isWord c = true) : isLineBreak c = false := by
  cases hbreak : isLineBreak c with
  | false => rfl
  | true => simp [isWord_of_isBlank (isBlank_of_isLineBreak hbreak)] at h

theorem unbroken_of_any (h : cs.any isLineBreak = false) : ∀ c ∈ cs, isLineBreak c = false := by
  intro c hc
  have hnone := List.any_eq_false.mp h c hc
  simpa using hnone

section Ends

variable {p : Char → Bool} {a b : List Char}

theorem dropWhile_stop (a b : List Char) (hc : p c = false) :
    (a ++ c :: b).dropWhile p = a.dropWhile p ++ c :: b := by
  have hkept : (c :: b).dropWhile p = c :: b := List.dropWhile_cons_of_neg (by simp [hc])
  rw [List.dropWhile_append]
  split
  next hempty => rw [List.isEmpty_iff.mp hempty, hkept, List.nil_append]
  next => rfl

theorem trimEnd_stop (a b : List Char) (hc : p c = false) :
    trimEnd p (a ++ c :: b) = a ++ c :: trimEnd p b := by
  have hreverse : (a ++ c :: b).reverse = b.reverse ++ c :: a.reverse := by simp
  rw [trimEnd, hreverse, dropWhile_stop _ _ hc]
  simp [trimEnd]

theorem trim_append_blanks (hb : ∀ c ∈ b, isBlank c = true) : trim (a ++ b) = trim a := by
  rw [trim, trim, List.dropWhile_append]
  split
  next hempty => rw [List.isEmpty_iff.mp hempty, List.dropWhile_eq_nil_iff.mpr hb]
  next =>
    rw [trimEnd, List.reverse_append, List.dropWhile_append_of_pos (by simpa using hb)]
    rfl

theorem trim_trimEnd (cs : List Char) : trim (trimEnd isBlank cs) = trim cs := by
  have hsplit : trimEnd isBlank cs ++ (cs.reverse.takeWhile isBlank).reverse = cs := by
    rw [trimEnd, ← List.reverse_append, List.takeWhile_append_dropWhile, List.reverse_reverse]
  have hblanks : ∀ c ∈ (cs.reverse.takeWhile isBlank).reverse, isBlank c = true := fun c hc =>
    List.mem_takeWhile_imp (List.mem_reverse.mp hc)
  have htrim := trim_append_blanks (a := trimEnd isBlank cs) hblanks
  rw [hsplit] at htrim
  exact htrim.symm

theorem trim_dropWhile (cs : List Char) : trim (cs.dropWhile isBlank) = trim cs := by
  rw [trim, List.dropWhile_idempotent, trim]

end Ends

namespace Scan

variable {α β : Type} {x : Scan α} {f : α → Scan β} {p : Char → Bool} {a b : List Char} {m : Char}

theorem bind_of_some {v : α} (h : x cs = some (v, ds)) : (x >>= f) cs = f v ds := by
  simp only [bind, StateT.bind, h, Option.bind_some]

theorem bind_eq_some {r : β × List Char} (h : (x >>= f) cs = some r) :
    ∃ v ds, x cs = some (v, ds) ∧ f v ds = some r := by
  simp only [bind, StateT.bind] at h
  obtain ⟨⟨v, ds⟩, hx, hf⟩ := Option.bind_eq_some_iff.mp h
  exact ⟨v, ds, hx, hf⟩

theorem mark_cons (m : Char) (b : List Char) : mark m (m :: b) = some ((), b) := by simp [mark]

theorem mark_eq_some {u : Unit} (h : mark m cs = some (u, ds)) : cs = m :: ds := by
  cases cs with
  | nil => cases h
  | cons c cs =>
    simp only [mark] at h
    split at h
    next hc =>
      cases h
      rw [eq_of_beq hc]
    next => cases h

theorem many_stop (ha : ∀ c ∈ a, p c = true) (hc : p c = false) :
    many p (a ++ c :: b) = some (a, c :: b) := by
  have htaken : (a ++ c :: b).takeWhile p = a := by
    rw [List.takeWhile_append_of_pos ha, List.takeWhile_cons_of_neg (by simp [hc]), List.append_nil]
  have hleft : (a ++ c :: b).dropWhile p = c :: b := by
    rw [dropWhile_stop a b hc, List.dropWhile_eq_nil_iff.mpr ha, List.nil_append]
  rw [many, htaken, hleft]

theorem many_eq_some (h : many p cs = some (a, b)) : cs = a ++ b ∧ ∀ c ∈ a, p c = true := by
  cases h
  exact ⟨List.takeWhile_append_dropWhile.symm, fun c hc => List.mem_takeWhile_imp hc⟩

theorem many1_stop (hne : a ≠ []) (ha : ∀ c ∈ a, p c = true) (hc : p c = false) :
    many1 p (a ++ c :: b) = some (a, c :: b) := by
  have hsome : a.isEmpty = false := by simpa using hne
  rw [many1, bind_of_some (many_stop ha hc), hsome]
  rfl

theorem many1_eq_some (h : many1 p cs = some (a, b)) :
    cs = a ++ b ∧ a ≠ [] ∧ ∀ c ∈ a, p c = true := by
  obtain ⟨v, ds, hmany, hrest⟩ := bind_eq_some h
  obtain ⟨hsplit, hall⟩ := many_eq_some hmany
  cases v with
  | nil => cases hrest
  | cons c v =>
    cases hrest
    exact ⟨hsplit, List.cons_ne_nil c v, hall⟩

theorem number_stop (hne : a ≠ []) (ha : ∀ c ∈ a, isDecimal c = true) (hc : isDecimal c = false) :
    number (a ++ c :: b) = some (numberOf a, c :: b) := by
  rw [number, bind_of_some (many1_stop hne ha hc)]
  rfl

theorem number_eq_some {n : Nat} (h : number cs = some (n, b)) :
    ∃ a, cs = a ++ b ∧ a ≠ [] ∧ ∀ c ∈ a, isDecimal c = true := by
  obtain ⟨a, ds, hmany, hrest⟩ := bind_eq_some h
  cases hrest
  exact ⟨a, many1_eq_some hmany⟩

end Scan

section Lines

variable {line first tail rest : List Char} {lines : List (List Char)}

theorem splitLines_append (h : ∀ c ∈ line, isLineBreak c = false)
    (htail : splitLines tail = first :: lines) :
    splitLines (line ++ tail) = (line ++ first) :: lines := by
  induction line with
  | nil => exact htail
  | cons c line ih =>
    obtain ⟨hc, hline⟩ := List.forall_mem_cons.mp h
    have hends : endsLine c (line ++ tail) = false := by rw [endsLine, hc, Bool.false_and]
    rw [List.cons_append, splitLines, hends, ih hline]
    rfl

theorem splitLines_unbroken (hne : line ≠ []) (h : ∀ c ∈ line, isLineBreak c = false) :
    splitLines line = [line] := by
  induction line with
  | nil => exact absurd rfl hne
  | cons c line ih =>
    obtain ⟨hc, hline⟩ := List.forall_mem_cons.mp h
    have hends : endsLine c line = false := by rw [endsLine, hc, Bool.false_and]
    rw [splitLines, hends]
    cases line with
    | nil => rfl
    | cons d line =>
      rw [ih (List.cons_ne_nil d line) hline]
      rfl

/-- A break ends a line, alone or together with the line feed after it. -/
theorem splitLines_break (hc : isLineBreak c = true) (rest : List Char) :
    splitLines (c :: rest) = [c] :: splitLines rest ∨
      ∃ rest', rest = '\n' :: rest' ∧ splitLines (c :: rest) = [c, '\n'] :: splitLines rest' := by
  cases hends : endsLine c rest with
  | true =>
    left
    rw [splitLines, hends]
    rfl
  | false =>
    right
    have hpair : c = '\r' ∧ rest.head? = some '\n' := by simpa [endsLine, hc] using hends
    cases rest with
    | nil => cases hpair.2
    | cons d rest =>
      obtain rfl : d = '\n' := by simpa using hpair.2
      refine ⟨rest, rfl, ?_⟩
      rw [splitLines, hends, splitLines_lineFeed]
      rfl

end Lines

end Text

namespace Lint

open Text

/-- The parts of a line that reports a finding, without the marks between them. -/
structure Parts where
  file : List Char
  line : List Char
  column : List Char
  gap : List Char
  type : List Char
  rest : List Char

namespace Parts

def chars (p : Parts) : List Char :=
  p.file ++ ':' :: (p.line ++ ':' :: (p.column ++ ':' :: (p.gap ++ (p.type ++ ':' :: p.rest))))

/-- No part is taken for the next one. -/
structure Sound (p : Parts) : Prop where
  file : ':' ∉ p.file
  line_ne_nil : p.line ≠ []
  line : ∀ c ∈ p.line, isDecimal c = true
  column_ne_nil : p.column ≠ []
  column : ∀ c ∈ p.column, isDecimal c = true
  gap : ∀ c ∈ p.gap, isBlank c = true
  type_ne_nil : p.type ≠ []
  type : ∀ c ∈ p.type, isWord c = true

def report (p : Parts) : Report where
  severity := .ofName p.type
  line := numberOf p.line
  column := numberOf p.column + 1
  message := String.ofList (trim p.rest)
  rule := .null

theorem finding_chars {p : Parts} (h : p.Sound) :
    ∃ left, finding p.chars = some (p.report, left) := by
  have hfile : ∀ c ∈ p.file, (c != ':') = true := by
    intro c hc
    have hne : c ≠ ':' := fun heq => h.file (heq ▸ hc)
    simpa using hne
  obtain ⟨t, ts, htype⟩ := List.exists_cons_of_ne_nil h.type_ne_nil
  have hgap : Scan.many isBlank (p.gap ++ (p.type ++ ':' :: p.rest)) =
      some (p.gap, p.type ++ ':' :: p.rest) := by
    have ht : isBlank t = false := by
      have hword := h.type t (by simp [htype])
      cases hblank : isBlank t with
      | false => rfl
      | true => simp [isWord_of_isBlank hblank] at hword
    rw [htype]
    exact Scan.many_stop h.gap ht
  refine ⟨p.rest.dropWhile isBlank, ?_⟩
  rw [finding, chars, Scan.bind_of_some (Scan.many_stop hfile (by decide)),
    Scan.bind_of_some (Scan.mark_cons _ _),
    Scan.bind_of_some (Scan.number_stop h.line_ne_nil h.line (by decide)),
    Scan.bind_of_some (Scan.mark_cons _ _),
    Scan.bind_of_some (Scan.number_stop h.column_ne_nil h.column (by decide)),
    Scan.bind_of_some (Scan.mark_cons _ _), Scan.bind_of_some hgap,
    Scan.bind_of_some (Scan.many1_stop h.type_ne_nil h.type (by decide)),
    Scan.bind_of_some (Scan.mark_cons _ _), report, ← trim_dropWhile p.rest]
  rfl

theorem exists_of_finding {cs : List Char} {r : Report × List Char} (h : finding cs = some r) :
    ∃ p : Parts, p.Sound ∧ cs = p.chars := by
  rw [finding] at h
  obtain ⟨file, _, hreadFile, h⟩ := Scan.bind_eq_some h
  obtain ⟨_, _, hfirst, h⟩ := Scan.bind_eq_some h
  obtain ⟨_, _, hreadLine, h⟩ := Scan.bind_eq_some h
  obtain ⟨_, _, hsecond, h⟩ := Scan.bind_eq_some h
  obtain ⟨_, _, hreadColumn, h⟩ := Scan.bind_eq_some h
  obtain ⟨_, _, hthird, h⟩ := Scan.bind_eq_some h
  obtain ⟨gap, _, hreadGap, h⟩ := Scan.bind_eq_some h
  obtain ⟨type, _, hreadType, h⟩ := Scan.bind_eq_some h
  obtain ⟨_, rest, hfourth, -⟩ := Scan.bind_eq_some h
  obtain ⟨rfl, hfile⟩ := Scan.many_eq_some hreadFile
  obtain rfl := Scan.mark_eq_some hfirst
  obtain ⟨line, rfl, hline_ne, hline⟩ := Scan.number_eq_some hreadLine
  obtain rfl := Scan.mark_eq_some hsecond
  obtain ⟨column, rfl, hcolumn_ne, hcolumn⟩ := Scan.number_eq_some hreadColumn
  obtain rfl := Scan.mark_eq_some hthird
  obtain ⟨rfl, hgap⟩ := Scan.many_eq_some hreadGap
  obtain ⟨rfl, htype_ne, htype⟩ := Scan.many1_eq_some hreadType
  obtain rfl := Scan.mark_eq_some hfourth
  have hcolon : ':' ∉ file := fun hmem => by simpa using hfile ':' hmem
  exact ⟨⟨file, line, column, gap, type, rest⟩,
    ⟨hcolon, hline_ne, hline, hcolumn_ne, hcolumn, hgap, htype_ne, htype⟩, rfl⟩

end Parts

/-- A line that has the parts of a finding, without the blanks around it. -/
def Shaped (line : List Char) : Prop := ∃ p : Parts, p.Sound ∧ trim line = p.chars

theorem finding_eq_none_iff (line : List Char) : finding (trim line) = none ↔ ¬Shaped line := by
  constructor
  · rintro hnone ⟨p, hp, hline⟩
    obtain ⟨left, hsome⟩ := Parts.finding_chars hp
    rw [hline, hsome] at hnone
    cases hnone
  · intro hshape
    cases hfinding : finding (trim line) with
    | none => rfl
    | some r => exact absurd (Parts.exists_of_finding hfinding) hshape

/-- A finding as a linter has it. Its column counts from zero. -/
structure Finding where
  file : List Char
  line : Nat
  column : Nat
  type : List Char
  message : List Char
  file_mark : ':' ∉ file
  file_lines : ∀ c ∈ file, isLineBreak c = false
  type_ne_nil : type ≠ []
  type_word : ∀ c ∈ type, isWord c = true
  message_lines : ∀ c ∈ message, isLineBreak c = false
  message_trim : trim message = message

namespace Finding

variable {f : Finding}

/-- The finding as it is printed: `file:line:column: type: message`. -/
def text (f : Finding) : List Char :=
  f.file ++ ':' :: (Nat.toDigits 10 f.line ++ ':' :: (Nat.toDigits 10 f.column ++
    ':' :: ' ' :: (f.type ++ ':' :: ' ' :: f.message)))

/-- The parts of a printed finding once the blanks around it are gone. -/
def parts (f : Finding) : Parts where
  file := f.file.dropWhile isBlank
  line := Nat.toDigits 10 f.line
  column := Nat.toDigits 10 f.column
  gap := [' ']
  type := f.type
  rest := trimEnd isBlank (' ' :: f.message)

theorem trim_text (f : Finding) : trim f.text = f.parts.chars := by
  have hmark : isBlank ':' = false := by decide
  let front := f.file.dropWhile isBlank ++ ':' :: (Nat.toDigits 10 f.line ++
    ':' :: (Nat.toDigits 10 f.column ++ ':' :: ' ' :: f.type))
  calc trim f.text
      = trimEnd isBlank (front ++ ':' :: ' ' :: f.message) := by
        rw [trim, text, dropWhile_stop _ _ hmark]
        simp [front]
    _ = front ++ ':' :: trimEnd isBlank (' ' :: f.message) := trimEnd_stop _ _ hmark
    _ = f.parts.chars := by simp [front, Parts.chars, parts]

theorem parts_sound (f : Finding) : f.parts.Sound where
  file hmem := f.file_mark ((List.dropWhile_sublist isBlank).subset hmem)
  line_ne_nil := Nat.toDigits_ne_nil
  line := isDecimal_toDigits f.line
  column_ne_nil := Nat.toDigits_ne_nil
  column := isDecimal_toDigits f.column
  gap c hc := by
    rw [List.mem_singleton.mp hc]
    decide
  type_ne_nil := f.type_ne_nil
  type := f.type_word

/-- The type is `error`, whatever the size of its letters. -/
def IsError (f : Finding) : Prop :=
  List.Forall₂ (fun c letter => c = letter ∨ c = letter.toUpper) f.type "error".toList

/-- The report of a finding. -/
structure ReportedAs (f : Finding) (r : Report) : Prop where
  severity : r.severity = .error ↔ f.IsError
  line : r.line = f.line
  column : r.column = f.column + 1
  message : r.message = String.ofList f.message

theorem toLower_eq_iff {c letter : Char} (h : letter ∈ "error".toList) :
    c.toLower = letter ↔ c = letter ∨ c = letter.toUpper := by
  by_cases hc : c.toNat < 128
  · have hall : ∀ n : Fin 128, ("error".toList.all fun letter =>
        decide ((Char.ofNat n.val).toLower = letter ↔
          Char.ofNat n.val = letter ∨ Char.ofNat n.val = letter.toUpper)) = true := by
      decide +kernel
    have hletter := of_decide_eq_true (List.all_eq_true.mp (hall ⟨c.toNat, hc⟩) letter h)
    rwa [Char.ofNat_toNat] at hletter
  · have hascii : ("error".toList.all fun letter => decide (letter.toUpper.toNat < 128)) = true :=
      by decide
    have hupper := of_decide_eq_true (List.all_eq_true.mp hascii letter h)
    have hsame : c.toLower = c := by
      refine dif_neg fun hcapital => hc ?_
      exact Nat.lt_of_le_of_lt (UInt32.le_iff_toNat_le.mp hcapital.2) (by decide)
    rw [hsame]
    constructor
    · exact .inl
    · rintro (heq | heq)
      · exact heq
      · exact absurd (heq ▸ hupper) hc

theorem map_toLower_eq_iff {letters : List Char} (h : letters ⊆ "error".toList) (cs : List Char) :
    cs.map Char.toLower = letters ↔
      List.Forall₂ (fun c letter => c = letter ∨ c = letter.toUpper) cs letters := by
  rw [← List.forall₂_eq_eq_eq, List.forall₂_map_left_iff]
  induction letters generalizing cs with
  | nil => simp
  | cons letter letters ih =>
    obtain ⟨hletter, hletters⟩ := List.cons_subset.mp h
    simp only [List.forall₂_cons_right_iff, toLower_eq_iff hletter, ih hletters]

theorem severity_eq_error_iff (f : Finding) : Severity.ofName f.type = .error ↔ f.IsError := by
  rw [IsError, ← map_toLower_eq_iff (List.Subset.refl _), Severity.ofName]
  by_cases h : f.type.map Char.toLower = "error".toList
  · simp [h]
  · have hbeq : ¬(f.type.map Char.toLower == "error".toList) = true := by simpa using h
    rw [if_neg hbeq]
    exact ⟨fun hwarning => absurd hwarning (by decide), fun herror => absurd herror h⟩

theorem finding_text (f : Finding) :
    ∃ r left, finding (trim f.text) = some (r, left) ∧ f.ReportedAs r := by
  obtain ⟨left, hfinding⟩ := Parts.finding_chars f.parts_sound
  have hmessage : trim (trimEnd isBlank (' ' :: f.message)) = f.message := by
    rw [trim_trimEnd, ← trim_dropWhile]
    exact (trim_dropWhile f.message).trans f.message_trim
  refine ⟨f.parts.report, left, f.trim_text ▸ hfinding, f.severity_eq_error_iff, ?_, ?_, ?_⟩
  · exact congrArg Int.ofNat (numberOf_toDigits f.line)
  · exact congrArg (fun n : Nat => (n : Int) + 1) (numberOf_toDigits f.column)
  · exact congrArg String.ofList hmessage

/-- A printed finding is one line. -/
theorem text_lines (f : Finding) : ∀ c ∈ f.text, isLineBreak c = false := by
  have hdigits : ∀ n, ∀ c ∈ Nat.toDigits 10 n, isLineBreak c = false := fun n c hc =>
    isLineBreak_of_isWord (isWord_of_isDigit (isDigit_toDigits n c hc))
  have htype : ∀ c ∈ f.type, isLineBreak c = false := fun c hc =>
    isLineBreak_of_isWord (f.type_word c hc)
  have hmark : isLineBreak ':' = false := by decide
  have hblank : isLineBreak ' ' = false := by decide
  simp only [text, List.forall_mem_append, List.forall_mem_cons]
  exact ⟨f.file_lines, hmark, hdigits _, hmark, hdigits _, hmark, hblank, htype, hmark, hblank,
    f.message_lines⟩

end Finding

/-- A line of an output: a finding, or something else that does not look like one. -/
inductive OutputLine where
  | finding (f : Finding)
  | other (line : List Char) (lines : ∀ c ∈ line, isLineBreak c = false) (shape : ¬Shaped line)

namespace OutputLine

def text : OutputLine → List Char
  | finding f => f.text
  | other line _ _ => line

def finding? : OutputLine → Option Finding
  | finding f => some f
  | other _ _ _ => none

theorem text_lines (l : OutputLine) : ∀ c ∈ l.text, isLineBreak c = false := by
  cases l with
  | finding f => exact f.text_lines
  | other line lines _ => exact lines

end OutputLine

/-- Some lines are printed one after the other. Every line but the last is ended by a break or by
several, so a carriage return may come with a line feed. -/
inductive Prints : List OutputLine → List Char → Prop
  | nil : Prints [] []
  | last (l : OutputLine) : Prints [l] l.text
  | line (l : OutputLine) {ls : List OutputLine} {ending rest : List Char} (hne : ending ≠ [])
      (hending : ∀ c ∈ ending, isLineBreak c = true) (hrest : Prints ls rest) :
      Prints (l :: ls) (l.text ++ (ending ++ rest))

section Reading

variable {line rest ending output : List Char} {ls : List OutputLine}

/-- What is read on one line. -/
def reportsOn (line : List Char) : List Report := ((finding (trim line)).map (·.1)).toList

theorem reportsOn_blanks {blanks : List Char} (h : ∀ c ∈ blanks, isBlank c = true) :
    reportsOn (line ++ blanks) = reportsOn line := by
  rw [reportsOn, trim_append_blanks h, reportsOn]

theorem readSolium_eq (output : List Char) :
    readSolium output = (splitLines output).flatMap reportsOn := by
  rw [readSolium, List.filterMap_eq_flatMap_toList]
  rfl

theorem readSolium_unbroken (h : ∀ c ∈ line, isLineBreak c = false) :
    readSolium line = reportsOn line := by
  by_cases hne : line = []
  · rw [hne]
    rfl
  · rw [readSolium_eq, splitLines_unbroken hne h, List.flatMap_singleton]

theorem readSolium_break {c : Char} (hline : ∀ c ∈ line, isLineBreak c = false)
    (hc : isLineBreak c = true) (rest : List Char) :
    readSolium (line ++ c :: rest) = reportsOn line ++ readSolium rest := by
  have hblank := isBlank_of_isLineBreak hc
  rw [readSolium_eq]
  rcases splitLines_break hc rest with hsplit | ⟨rest, rfl, hsplit⟩
  · rw [splitLines_append hline hsplit, List.flatMap_cons, reportsOn_blanks (by simpa using hblank),
      readSolium_eq]
  · -- the line feed that belongs to the break would be an empty line of its own
    have hempty : readSolium ('\n' :: rest) = readSolium rest := by
      rw [readSolium_eq, splitLines_lineFeed, List.flatMap_cons, readSolium_eq]
      rfl
    have hfeed : isBlank '\n' = true := by decide
    rw [splitLines_append hline hsplit, List.flatMap_cons,
      reportsOn_blanks (by simpa using ⟨hblank, hfeed⟩), hempty, readSolium_eq]

theorem readSolium_breaks (h : ∀ c ∈ ending, isLineBreak c = true) (rest : List Char) :
    readSolium (ending ++ rest) = readSolium rest := by
  induction ending with
  | nil => rfl
  | cons c ending ih =>
    obtain ⟨hc, hending⟩ := List.forall_mem_cons.mp h
    have hempty := readSolium_break (List.forall_mem_nil _) hc (ending ++ rest)
    rw [ih hending] at hempty
    exact hempty

theorem readSolium_line (hline : ∀ c ∈ line, isLineBreak c = false) (hne : ending ≠ [])
    (hending : ∀ c ∈ ending, isLineBreak c = true) (rest : List Char) :
    readSolium (line ++ (ending ++ rest)) = reportsOn line ++ readSolium rest := by
  obtain ⟨c, ending, rfl⟩ := List.exists_cons_of_ne_nil hne
  obtain ⟨hc, hending⟩ := List.forall_mem_cons.mp hending
  rw [List.cons_append, readSolium_break hline hc, readSolium_breaks hending]

/-- The diagnostic of a report starts where the finding is. -/
theorem Finding.ReportedAs.starts {f : Finding} {r : Report} (h : f.ReportedAs r) (source : String)
    (hpos : 1 ≤ r.line) (hline : r.line ≤ Position.limit + 1)
    (hcolumn : r.column ≤ Position.limit) :
    ∃ d, Diagnostic.ofReport source r = .ok d ∧ d.range.start.line + 1 = f.line ∧
      d.range.start.character = f.column := by
  obtain ⟨d, hd, hstart⟩ := exists_ofReport source hline hcolumn
  have hline_eq := h.line
  have hcolumn_eq := h.column
  refine ⟨d, hd, ?_, ?_⟩
  · rw [hstart]
    dsimp only
    omega
  · rw [hstart]
    dsimp only
    omega

/-- One report for each finding, and none for any other line. -/
theorem OutputLine.reportsOn_text (l : OutputLine) :
    List.Forall₂ Finding.ReportedAs l.finding?.toList (reportsOn l.text) := by
  cases l with
  | finding f =>
    obtain ⟨r, left, hfinding, hr⟩ := f.finding_text
    have hreports : reportsOn f.text = [r] := by rw [reportsOn, hfinding]; rfl
    rw [text, hreports]
    exact .cons hr .nil
  | other line _ hshape =>
    have hreports : reportsOn line = [] := by
      rw [reportsOn, (finding_eq_none_iff line).mpr hshape]
      rfl
    rw [text, hreports]
    exact .nil

theorem reports_of_prints (h : Prints ls output) :
    List.Forall₂ Finding.ReportedAs (ls.filterMap OutputLine.finding?) (readSolium output) := by
  rw [List.filterMap_eq_flatMap_toList]
  induction h with
  | nil => exact .nil
  | last l =>
    rw [List.flatMap_singleton, readSolium_unbroken l.text_lines]
    exact l.reportsOn_text
  | line l hne hending _ ih =>
    rw [List.flatMap_cons, readSolium_line l.text_lines hne hending]
    exact List.rel_append l.reportsOn_text ih

/-- Solium prints findings and other lines, and one report is read for each finding, in their order:
an error if its type is `error` in letters of any size, with its line, the column after its own and
its message. The diagnostic of the report starts where the finding is. -/
theorem findings_survive_printing (h : Prints ls output) :
    List.Forall₂ (fun (f : Finding) (r : Report) => f.ReportedAs r ∧
        ∀ source : String, 1 ≤ r.line → r.line ≤ Position.limit → r.column ≤ Position.limit →
          ∃ d, Diagnostic.ofReport source r = .ok d ∧ d.range.start.line + 1 = f.line ∧
            d.range.start.character = f.column)
      (ls.filterMap OutputLine.finding?) (readSolium output) := by
  refine (reports_of_prints h).imp fun f r hr => ⟨hr, fun source hpos hline hcolumn => ?_⟩
  exact hr.starts source hpos (Int.le_add_one hline) hcolumn

/-- A finding in a padded file whose message looks like another finding. -/
def nestedFinding : Finding where
  file := " b.sol".toList
  line := 4
  column := 0
  type := "eRRor".toList
  message := "see c.sol:1:2: error: x".toList
  file_mark := by decide
  file_lines := unbroken_of_any (by decide)
  type_ne_nil := by decide
  type_word := List.all_eq_true.mp (by decide)
  message_lines := unbroken_of_any (by decide)
  message_trim := by decide

/-- A finding without a file and without a message. -/
def bareFinding : Finding where
  file := []
  line := 7
  column := 12
  type := "warning".toList
  message := []
  file_mark := by decide
  file_lines := unbroken_of_any (by decide)
  type_ne_nil := by decide
  type_word := List.all_eq_true.mp (by decide)
  message_lines := unbroken_of_any (by decide)
  message_trim := by decide

theorem summary_not_shaped : ¬Shaped "2:1 findings: done".toList :=
  (finding_eq_none_iff _).mp (Option.isNone_iff_eq_none.mp (by decide +kernel))

def printedLines : List OutputLine :=
  [.finding nestedFinding,
    .other "2:1 findings: done".toList (unbroken_of_any (by decide)) summary_not_shaped,
    .finding bareFinding]

def printedOutput : List Char :=
  " b.sol:4:0: eRRor: see c.sol:1:2: error: x\r\n2:1 findings: done\n\n:7:12: warning: ".toList

theorem printedOutput_prints : Prints printedLines printedOutput := by
  have htext : printedOutput = nestedFinding.text ++ (['\r', '\n'] ++
      ("2:1 findings: done".toList ++ (['\n', '\n'] ++ bareFinding.text))) := by decide +kernel
  rw [htext]
  refine .line (.finding nestedFinding) (List.cons_ne_nil _ _) (List.all_eq_true.mp (by decide)) ?_
  exact .line (.other _ _ summary_not_shaped) (List.cons_ne_nil _ _)
    (List.all_eq_true.mp (by decide)) (.last (.finding bareFinding))

theorem findings_of_printedOutput :
    Prints printedLines printedOutput ∧ ∃ r r', readSolium printedOutput = [r, r'] ∧
      r.severity = .error ∧ r.line = 4 ∧ r.column = 1 ∧ r.message = "see c.sol:1:2: error: x" ∧
      r'.severity ≠ .error ∧ r'.line = 7 ∧ r'.column = 13 ∧ r'.message = "" ∧
      ∃ d, Diagnostic.ofReport "solium" r' = .ok d ∧ d.range.start.line + 1 = 7 ∧
        d.range.start.character = 12 := by
  have hread := findings_survive_printing printedOutput_prints
  generalize hreports : readSolium printedOutput = reports at hread ⊢
  obtain ⟨r, rest, ⟨hr, -⟩, hrest, rfl⟩ := List.forall₂_cons_left_iff.mp hread
  obtain ⟨r', rest', ⟨hr', hstarts⟩, hnil, rfl⟩ := List.forall₂_cons_left_iff.mp hrest
  obtain rfl := List.forall₂_nil_left_iff.mp hnil
  have herror : nestedFinding.IsError := nestedFinding.severity_eq_error_iff.mp (by decide)
  have hwarning : ¬bareFinding.IsError := fun h =>
    absurd (bareFinding.severity_eq_error_iff.mpr h) (by decide)
  have hline : r'.line = 7 := hr'.line
  have hcolumn : r'.column = 13 := hr'.column
  refine ⟨printedOutput_prints, r, r', rfl, hr.severity.mpr herror, hr.line, hr.column, hr.message,
    fun h => hwarning (hr'.severity.mp h), hline, hcolumn, hr'.message, ?_⟩
  exact hstarts "solium" (by rw [hline]; decide) (by rw [hline]; decide) (by rw [hcolumn]; decide)

end Reading

end Lint

end SolidityServer
