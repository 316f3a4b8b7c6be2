import SolidityServer.Syntax.SourceText

/-! Byte offsets become character offsets without changing their order, and offsets inside the
text stay inside it. -/

namespace SolidityServer.SourceText

theorem utf8ByteSize_ofList_cons (c : Char) (cs : List Char) :
    (String.ofList (c :: cs)).utf8ByteSize = c.utf8Size + (String.ofList cs).utf8ByteSize := by
  rw [String.ofList_cons, String.utf8ByteSize_append, String.utf8ByteSize_singleton]

theorem byteTable_bounds (index : Nat) (cs : List Char) :
    ∀ i ∈ byteTable index cs, index ≤ i ∧ i ≤ index + cs.length := by
  induction cs generalizing index with
  | nil => simp [byteTable]
  | cons c cs ih =>
    intro i hi
    rcases List.mem_append.mp hi with hi | hi
    · rw [(List.mem_replicate.mp hi).2]
      omega
    · have := ih (index + 1) i hi
      simp only [List.length_cons]
      omega

theorem byteTable_sorted (index : Nat) (cs : List Char) :
    (byteTable index cs).Pairwise (· ≤ ·) := by
  induction cs generalizing index with
  | nil => simp [byteTable]
  | cons c cs ih =>
    refine List.pairwise_append.mpr ⟨List.pairwise_replicate.mpr (.inr (Nat.le_refl _)), ih _, ?_⟩
    intro a ha b hb
    have := byteTable_bounds (index + 1) cs b hb
    rw [(List.mem_replicate.mp ha).2]
    omega

theorem length_ofChars (cs : List Char) : (ofChars cs).length = cs.length := by
  simp [ofChars, length]

theorem length_ofText (text : String) : (ofText text).length = text.length := by
  rw [ofText, length_ofChars, String.length_toList]

theorem utf8ByteSize_of_single {cs : List Char} (h : cs.all (·.utf8Size == 1) = true) :
    (String.ofList cs).utf8ByteSize = cs.length := by
  induction cs with
  | nil => rfl
  | cons c cs ih =>
    simp only [List.all_cons, Bool.and_eq_true, beq_iff_eq] at h
    rw [utf8ByteSize_ofList_cons, h.1, ih h.2, List.length_cons]
    omega

/-- The character of a byte, by the table: the length of the text for bytes after its end. -/
theorem charOffset_ofChars (cs : List Char) (byte : Nat) :
    (ofChars cs).charOffset byte =
      if cs.all (·.utf8Size == 1) then byte else (byteTable 0 cs).getD byte cs.length := by
  by_cases h : cs.all (·.utf8Size == 1) = true
  · simp [charOffset, ofChars, h]
  · simp [charOffset, ofChars, h, length]

theorem charOffset_mono (text : String) {a b : Nat} (h : a ≤ b) :
    (ofText text).charOffset a ≤ (ofText text).charOffset b := by
  rw [ofText, charOffset_ofChars, charOffset_ofChars]
  split
  · exact h
  · rw [List.getD_eq_getElem?_getD, List.getD_eq_getElem?_getD]
    cases hb : (byteTable 0 text.toList)[b]? with
    | none =>
      cases ha : (byteTable 0 text.toList)[a]? with
      | none => simp
      | some i =>
        have := byteTable_bounds 0 text.toList i (List.mem_of_getElem? ha)
        simpa using this.2
    | some j =>
      obtain ⟨hlt, hj⟩ := List.getElem?_eq_some_iff.mp hb
      rcases Nat.lt_or_eq_of_le h with hab | rfl
      · have hs := List.pairwise_iff_getElem.mp (byteTable_sorted 0 text.toList) a b
          (by omega) hlt hab
        rw [List.getElem?_eq_getElem (by omega), ← hj]
        exact hs
      · simp [hb]

theorem charOffset_le_length {text : String} {byte : Nat} (h : byte ≤ text.utf8ByteSize) :
    (ofText text).charOffset byte ≤ (ofText text).length := by
  rw [ofText, charOffset_ofChars, length_ofChars]
  split
  · rename_i hall
    have hs := utf8ByteSize_of_single hall
    rw [String.ofList_toList] at hs
    omega
  · rw [List.getD_eq_getElem?_getD]
    cases hb : (byteTable 0 text.toList)[byte]? with
    | none => simp
    | some i =>
      have := byteTable_bounds 0 text.toList i (List.mem_of_getElem? hb)
      simpa using this.2

end SolidityServer.SourceText
