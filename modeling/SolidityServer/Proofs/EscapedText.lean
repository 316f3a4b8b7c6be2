import SolidityServer.Uri

/-! Escaped text. What encodes a character is read back as that character, and an escaped text as
the text that it was made from. -/

namespace SolidityServer

namespace Text

variable {b low high more code taken n : Nat} {bytes : List Nat}

theorem sequel_last (hlow : low ≤ b) (hhigh : b ≤ high) :
    sequel low high 0 code taken (b :: bytes) = .inl (64 * code + (b - 0x80), taken + 1) := by
  simp [sequel, hlow, hhigh]

theorem sequel_more (hlow : low ≤ b) (hhigh : b ≤ high) :
    sequel low high (more + 1) code taken (b :: bytes) =
      sequel 0x80 0xBF more (64 * code + (b - 0x80)) (taken + 1) bytes := by
  simp [sequel, hlow, hhigh]

theorem utf8Sequence_of_continuation {first : Nat} (hfirst : 0x80 ≤ first)
    (hcontinuation : continuation? first = some (low, high, more)) :
    utf8Sequence first bytes = sequel low high more (payload first) 1 bytes := by
  rw [utf8Sequence, if_neg (by omega), hcontinuation]

theorem utf8Sequence_two (hlow : 0x80 ≤ n) (hhigh : n < 0x800) :
    utf8Sequence (0xC0 + n / 64) ((0x80 + n % 64) :: bytes) = .inl (n, 2) := by
  have hcontinuation : continuation? (0xC0 + n / 64) = some (0x80, 0xBF, 0) := by
    rw [continuation?, if_pos]
    simp only [Bool.and_eq_true, decide_eq_true_eq]
    omega
  have hpayload : payload (0xC0 + n / 64) = n / 64 := by
    rw [payload, if_neg (by omega), if_pos (by omega)]
    omega
  have hcode : 64 * (n / 64) + (0x80 + n % 64 - 0x80) = n := by omega
  rw [utf8Sequence_of_continuation (by omega) hcontinuation, sequel_last (by omega) (by omega),
    hpayload, hcode]

/-- The second byte keeps within the bounds that the first one sets: no shorter sequence would do,
and there are no characters for surrogates. -/
theorem continuation?_three (hlow : 0x800 ≤ n) (hhigh : n < 0x10000)
    (hvalid : n < 0xD800 ∨ 0xDFFF < n) :
    ∃ low high, continuation? (0xE0 + n / 4096) = some (low, high, 1) ∧
      low ≤ 0x80 + n / 64 % 64 ∧ 0x80 + n / 64 % 64 ≤ high := by
  have hother : ∀ k : Fin 16, k ≠ 0 → k ≠ 13 →
      continuation? (0xE0 + k) = some (0x80, 0xBF, 1) := by decide
  by_cases h0 : n / 4096 = 0
  · rw [h0]
    exact ⟨0xA0, 0xBF, rfl, by omega, by omega⟩
  by_cases h13 : n / 4096 = 13
  · rw [h13]
    exact ⟨0x80, 0x9F, rfl, by omega, by omega⟩
  · have hlt : n / 4096 < 16 := by omega
    refine ⟨0x80, 0xBF, hother ⟨n / 4096, hlt⟩ ?_ ?_, by omega, by omega⟩
    · exact fun h => h0 (congrArg Fin.val h)
    · exact fun h => h13 (congrArg Fin.val h)

theorem utf8Sequence_three (hlow : 0x800 ≤ n) (hhigh : n < 0x10000)
    (hvalid : n < 0xD800 ∨ 0xDFFF < n) :
    utf8Sequence (0xE0 + n / 4096) ((0x80 + n / 64 % 64) :: (0x80 + n % 64) :: bytes) =
      .inl (n, 3) := by
  obtain ⟨low, high, hcontinuation, hlow', hhigh'⟩ := continuation?_three hlow hhigh hvalid
  have hpayload : payload (0xE0 + n / 4096) = n / 4096 := by
    rw [payload, if_neg (by omega), if_neg (by omega), if_pos (by omega)]
    omega
  have hcode :
      64 * (64 * (n / 4096) + (0x80 + n / 64 % 64 - 0x80)) + (0x80 + n % 64 - 0x80) = n := by
    omega
  rw [utf8Sequence_of_continuation (by omega) hcontinuation, sequel_more hlow' hhigh',
    sequel_last (by omega) (by omega), hpayload, hcode]

theorem continuation?_four (hlow : 0x10000 ≤ n) (hhigh : n < 0x110000) :
    ∃ low high, continuation? (0xF0 + n / 262144) = some (low, high, 2) ∧
      low ≤ 0x80 + n / 4096 % 64 ∧ 0x80 + n / 4096 % 64 ≤ high := by
  have hother : ∀ k : Fin 5, k ≠ 0 → k ≠ 4 →
      continuation? (0xF0 + k) = some (0x80, 0xBF, 2) := by decide
  by_cases h0 : n / 262144 = 0
  · rw [h0]
    exact ⟨0x90, 0xBF, rfl, by omega, by omega⟩
  by_cases h4 : n / 262144 = 4
  · rw [h4]
    exact ⟨0x80, 0x8F, rfl, by omega, by omega⟩
  · have hlt : n / 262144 < 5 := by omega
    refine ⟨0x80, 0xBF, hother ⟨n / 262144, hlt⟩ ?_ ?_, by omega, by omega⟩
    · exact fun h => h0 (congrArg Fin.val h)
    · exact fun h => h4 (congrArg Fin.val h)

theorem utf8Sequence_four (hlow : 0x10000 ≤ n) (hhigh : n < 0x110000) :
    utf8Sequence (0xF0 + n / 262144)
      ((0x80 + n / 4096 % 64) :: (0x80 + n / 64 % 64) :: (0x80 + n % 64) :: bytes) =
      .inl (n, 4) := by
  obtain ⟨low, high, hcontinuation, hlow', hhigh'⟩ := continuation?_four hlow hhigh
  have hpayload : payload (0xF0 + n / 262144) = n / 262144 := by
    rw [payload, if_neg (by omega), if_neg (by omega), if_neg (by omega)]
    omega
  have hcode : 64 * (64 * (64 * (n / 262144) + (0x80 + n / 4096 % 64 - 0x80)) +
      (0x80 + n / 64 % 64 - 0x80)) + (0x80 + n % 64 - 0x80) = n := by
    omega
  rw [utf8Sequence_of_continuation (by omega) hcontinuation, sequel_more hlow' hhigh',
    sequel_more (by omega) (by omega), sequel_last (by omega) (by omega), hpayload, hcode]

theorem utf8Pieces_of_sequence {c : Char} (h : utf8Sequence b bytes = .inl (c.toNat, taken)) :
    utf8Pieces 0 (b :: bytes) = .char c :: utf8Pieces (taken - 1) bytes := by
  rw [utf8Pieces, h]
  exact congrArg (Utf8Piece.char · :: _) (Char.ofNat_toNat c)

/-- What encodes a character is read as that character. -/
theorem utf8Pieces_utf8Bytes (c : Char) (bytes : List Nat) :
    utf8Pieces 0 (utf8Bytes c ++ bytes) = .char c :: utf8Pieces 0 bytes := by
  have hvalid : c.toNat < 0xD800 ∨ (0xDFFF < c.toNat ∧ c.toNat < 0x110000) := c.valid
  unfold utf8Bytes
  dsimp only
  by_cases h1 : c.toNat < 0x80
  · have hsequence : utf8Sequence c.toNat bytes = .inl (c.toNat, 1) := if_pos h1
    rw [if_pos h1]
    exact utf8Pieces_of_sequence hsequence
  by_cases h2 : c.toNat < 0x800
  · rw [if_neg h1, if_pos h2]
    exact utf8Pieces_of_sequence (utf8Sequence_two (by omega) h2)
  by_cases h3 : c.toNat < 0x10000
  · rw [if_neg h1, if_neg h2, if_pos h3]
    exact utf8Pieces_of_sequence (utf8Sequence_three (by omega) h3 (by omega))
  · rw [if_neg h1, if_neg h2, if_neg h3]
    exact utf8Pieces_of_sequence (utf8Sequence_four (by omega) (by omega))

theorem encodeUtf8_cons (c : Char) (cs : List Char) :
    encodeUtf8 (c :: cs) = utf8Bytes c ++ encodeUtf8 cs :=
  List.flatMap_cons

theorem decodeUtf8Lossy_encodeUtf8 (cs : List Char) : decodeUtf8Lossy (encodeUtf8 cs) = cs := by
  induction cs with
  | nil => rfl
  | cons c cs ih =>
    rw [encodeUtf8_cons, decodeUtf8Lossy, utf8Pieces_utf8Bytes, List.map_cons]
    exact congrArg (c :: ·) ih

theorem charsOfPieces_encodeUtf8 (position : Nat) (cs : List Char) :
    charsOfPieces position (utf8Pieces 0 (encodeUtf8 cs)) = .ok cs := by
  induction cs generalizing position with
  | nil => rfl
  | cons c cs ih =>
    rw [encodeUtf8_cons, utf8Pieces_utf8Bytes, charsOfPieces, ih]
    rfl

theorem decodeUtf8_encodeUtf8 (cs : List Char) : decodeUtf8 (encodeUtf8 cs) = .ok cs :=
  charsOfPieces_encodeUtf8 0 cs

theorem lt_of_mem_utf8Bytes {c : Char} (h : b ∈ utf8Bytes c) : b < 256 := by
  have hvalid : c.toNat < 0xD800 ∨ (0xDFFF < c.toNat ∧ c.toNat < 0x110000) := c.valid
  unfold utf8Bytes at h
  dsimp only at h
  split at h
  · simp only [List.mem_singleton] at h
    omega
  split at h
  · simp only [List.mem_cons, List.not_mem_nil, or_false] at h
    omega
  split at h
  · simp only [List.mem_cons, List.not_mem_nil, or_false] at h
    omega
  · simp only [List.mem_cons, List.not_mem_nil, or_false] at h
    omega

/-- A byte in two capital digits. -/
theorem hex_two (h : b < 256) : ∃ x y, (hex 2 b).map Char.toUpper = [x, y] ∧
    x.isAlphanum ∧ y.isAlphanum ∧ hexValue? x = some (b / 16) ∧ hexValue? y = some (b % 16) := by
  have hdigits : ∀ b : Fin 256, (hex 2 b.val).map Char.toUpper =
      [(Nat.digitChar (b.val / 16)).toUpper, (Nat.digitChar (b.val % 16)).toUpper] := by
    decide +kernel
  have hvalue : ∀ n : Fin 16, (Nat.digitChar n.val).toUpper.isAlphanum ∧
      hexValue? (Nat.digitChar n.val).toUpper = some n.val := by decide +kernel
  have hhigh := hvalue ⟨b / 16, by omega⟩
  have hlow := hvalue ⟨b % 16, by omega⟩
  exact ⟨_, _, hdigits ⟨b, h⟩, hhigh.1, hlow.1, hhigh.2, hlow.2⟩

end Text

namespace Uri

open Text

variable {c : Char} {cs path : List Char}

theorem pieces_of_ne (hc : c ≠ '%') (hascii : isAscii c) (cs : List Char) :
    pieces (c :: cs) = .inl c.toNat :: pieces cs := by
  rw [pieces]
  · rw [if_pos hascii]
  · rintro a b rest rfl
    exact absurd rfl hc

theorem pieces_escape {b : Nat} (hb : b < 256) (cs : List Char) :
    pieces ('%' :: (hex 2 b).map Char.toUpper ++ cs) = .inl b :: pieces cs := by
  obtain ⟨x, y, hxy, -, -, hx, hy⟩ := hex_two hb
  have hvalue : 16 * (b / 16) + b % 16 = b := by omega
  rw [hxy]
  simp only [List.cons_append, List.nil_append, pieces, hx, hy, hvalue]

theorem pieces_escapes {bytes : List Nat} (h : ∀ b ∈ bytes, b < 256) (cs : List Char) :
    pieces ((bytes.flatMap fun b => '%' :: (hex 2 b).map Char.toUpper) ++ cs) =
      bytes.map .inl ++ pieces cs := by
  induction bytes with
  | nil => rfl
  | cons b bytes ih =>
    have hrest := ih fun b' hb' => h b' (List.mem_cons_of_mem b hb')
    rw [List.flatMap_cons, List.append_assoc, pieces_escape (h b List.mem_cons_self), hrest]
    rfl

theorem isAscii_of_isPlain (h : isPlain c) : isAscii c := (Bool.and_eq_true_iff.mp h).1

theorem utf8Bytes_of_isAscii (h : isAscii c) : utf8Bytes c = [c.toNat] :=
  if_pos (of_decide_eq_true h)

theorem encode_cons (c : Char) (cs : List Char) :
    encode (c :: cs) = (if isPlain c then [c]
      else (utf8Bytes c).flatMap fun b => '%' :: (hex 2 b).map Char.toUpper) ++ encode cs :=
  List.flatMap_cons

/-- An encoded text holds the bytes of its characters. -/
theorem pieces_encode (cs rest : List Char) :
    pieces (encode cs ++ rest) = (encodeUtf8 cs).map .inl ++ pieces rest := by
  induction cs with
  | nil => rfl
  | cons c cs ih =>
    rw [encode_cons, encodeUtf8_cons, List.append_assoc, List.map_append, List.append_assoc, ← ih]
    by_cases hc : isPlain c
    · have hascii := isAscii_of_isPlain hc
      have hne : c ≠ '%' := by
        rintro rfl
        exact absurd hc (by decide)
      rw [if_pos hc, utf8Bytes_of_isAscii hascii]
      exact pieces_of_ne hne hascii _
    · rw [if_neg hc]
      exact pieces_escapes (fun b hb => lt_of_mem_utf8Bytes hb) _

theorem assemble_bytes (run bytes : List Nat) :
    assemble run (bytes.map .inl) = decodeUtf8Lossy (run.reverse ++ bytes) := by
  induction bytes generalizing run with
  | nil => simp [assemble]
  | cons b bytes ih =>
    rw [List.map_cons, assemble, ih, List.reverse_cons, List.append_assoc]
    rfl

theorem decode_of_pieces (h : pieces path = (encodeUtf8 cs).map .inl) :
    decode (String.ofList path) = String.ofList cs := by
  rw [decode, String.toList_ofList, h, assemble_bytes]
  exact congrArg String.ofList (decodeUtf8Lossy_encodeUtf8 cs)

theorem decode_encode (cs : List Char) : decode (String.ofList (encode cs)) = String.ofList cs := by
  have h := pieces_encode cs []
  rw [List.append_nil] at h
  exact decode_of_pieces (h.trans (List.append_nil _))

end Uri

end SolidityServer
