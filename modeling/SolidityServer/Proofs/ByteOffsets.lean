import Mathlib.Order.Bounds.Basic
import SolidityServer.Proofs.EscapedText
import SolidityServer.Proofs.ImportOrigins

/-! Byte offsets find their characters. The character offset of a byte offset is the number of
characters that fit in front of it, with the table and without, and the text of a node is what its
bytes encode. -/

namespace SolidityServer

namespace Text

/-- The bytes of a character are those that stand for it in a string. -/
theorem utf8Bytes_eq (c : Char) : utf8Bytes c = (String.utf8EncodeChar c).map UInt8.toNat := by
  have hvalid : c.val.toNat < 0xD800 ∨ (0xDFFF < c.val.toNat ∧ c.val.toNat < 0x110000) := c.valid
  have hnat : c.toNat = c.val.toNat := rfl
  unfold utf8Bytes String.utf8EncodeChar
  rw [hnat]
  dsimp only
  by_cases h1 : c.val.toNat < 0x80
  · rw [if_pos h1, if_pos (by omega)]
    simp only [List.map_cons, List.map_nil, UInt8.toNat_ofNat', List.cons.injEq, and_true]
    omega
  by_cases h2 : c.val.toNat < 0x800
  · rw [if_neg h1, if_pos h2, if_neg (by omega), if_pos (by omega)]
    simp only [List.map_cons, List.map_nil, UInt8.toNat_ofNat', List.cons.injEq, and_true]
    omega
  by_cases h3 : c.val.toNat < 0x10000
  · rw [if_neg h1, if_neg h2, if_pos h3, if_neg (by omega), if_neg (by omega), if_pos (by omega)]
    simp only [List.map_cons, List.map_nil, UInt8.toNat_ofNat', List.cons.injEq, and_true]
    omega
  · rw [if_neg h1, if_neg h2, if_neg h3, if_neg (by omega), if_neg (by omega), if_neg (by omega)]
    simp only [List.map_cons, List.map_nil, UInt8.toNat_ofNat', List.cons.injEq, and_true]
    omega

theorem length_utf8Bytes (c : Char) : (utf8Bytes c).length = c.utf8Size := by
  rw [utf8Bytes_eq, List.length_map, String.length_utf8EncodeChar]

theorem length_encodeUtf8 (cs : List Char) :
    (encodeUtf8 cs).length = (String.ofList cs).utf8ByteSize := by
  induction cs with
  | nil => rfl
  | cons c cs ih =>
    rw [encodeUtf8_cons, List.length_append, length_utf8Bytes, ih,
      SourceText.utf8ByteSize_ofList_cons]

theorem map_toNat_toUTF8 (text : String) :
    text.toUTF8.data.toList.map UInt8.toNat = encodeUtf8 text.toList := by
  have hbytes : text.toUTF8 = text.toList.utf8Encode := String.utf8Encode_toList.symm
  rw [hbytes, List.utf8Encode, List.data_toByteArray, List.map_flatMap, encodeUtf8]
  exact congrArg (List.flatMap · _) (funext fun c => (utf8Bytes_eq c).symm)

theorem map_toNat_toUTF8_extract (text : String) (start stop : Nat) :
    (text.toUTF8.extract start stop).data.toList.map UInt8.toNat =
      (encodeUtf8 text.toList).extract start stop := by
  rw [ByteArray.data_extract, Array.toList_extract, List.extract_eq_take_drop,
    List.extract_eq_take_drop, List.map_take, List.map_drop, map_toNat_toUTF8]

end Text

namespace SourceText

variable {cs : List Char} {text : String} {b i j k : Nat}

/-- The number of bytes that the first `k` characters take. -/
def prefixSize (cs : List Char) (k : Nat) : Nat := (String.ofList (cs.take k)).utf8ByteSize

/-- How many characters can be taken from the front with no more than `b` bytes. -/
def fitting (cs : List Char) (b : Nat) : Set Nat := {k | k ≤ cs.length ∧ prefixSize cs k ≤ b}

@[simp] theorem prefixSize_zero (cs : List Char) : prefixSize cs 0 = 0 := rfl

@[simp] theorem prefixSize_cons_succ (c : Char) (cs : List Char) (k : Nat) :
    prefixSize (c :: cs) (k + 1) = c.utf8Size + prefixSize cs k :=
  utf8ByteSize_ofList_cons c (cs.take k)

theorem prefixSize_length (cs : List Char) :
    prefixSize cs cs.length = (String.ofList cs).utf8ByteSize := by
  rw [prefixSize, List.take_length]

theorem prefixSize_lt (hij : i < j) (hj : j ≤ cs.length) : prefixSize cs i < prefixSize cs j := by
  induction cs generalizing i j with
  | nil =>
    have hzero : j ≤ 0 := hj
    omega
  | cons c cs ih =>
    have hc := c.utf8Size_pos
    obtain _ | j := j
    · omega
    obtain _ | i := i
    · simp only [prefixSize_zero, prefixSize_cons_succ]
      omega
    · have hrest := ih (by omega : i < j) (by simpa using hj)
      simp only [prefixSize_cons_succ]
      omega

theorem prefixSize_le_size (h : k ≤ cs.length) :
    prefixSize cs k ≤ (String.ofList cs).utf8ByteSize := by
  rw [← prefixSize_length]
  rcases Nat.lt_or_eq_of_le h with hlt | rfl
  · exact Nat.le_of_lt (prefixSize_lt hlt (Nat.le_refl _))
  · exact Nat.le_refl _

/-- Between two characters, those in front are all that fit. -/
theorem isGreatest_fitting_prefixSize (h : k ≤ cs.length) :
    IsGreatest (fitting cs (prefixSize cs k)) k := by
  refine ⟨⟨h, Nat.le_refl _⟩, fun j hj => ?_⟩
  obtain ⟨hlength, hsize⟩ := hj
  by_contra hkj
  have hlt := prefixSize_lt (Nat.lt_of_not_le hkj) hlength
  omega

theorem isGreatest_fitting_zero {c : Char} (h : b < c.utf8Size) :
    IsGreatest (fitting (c :: cs) b) 0 := by
  refine ⟨⟨Nat.zero_le _, Nat.zero_le _⟩, fun k hk => ?_⟩
  obtain _ | k := k
  · exact Nat.le_refl _
  · have hsize := hk.2
    rw [prefixSize_cons_succ] at hsize
    omega

theorem isGreatest_fitting_succ {c : Char} (hb : c.utf8Size ≤ b)
    (h : IsGreatest (fitting cs (b - c.utf8Size)) k) :
    IsGreatest (fitting (c :: cs) b) (k + 1) := by
  obtain ⟨⟨hk, hsize⟩, hmax⟩ := h
  refine ⟨⟨Nat.succ_le_succ hk, ?_⟩, fun j hj => ?_⟩
  · rw [prefixSize_cons_succ]
    omega
  · obtain _ | j := j
    · exact Nat.zero_le _
    · obtain ⟨hlength, hj⟩ := hj
      rw [prefixSize_cons_succ] at hj
      exact Nat.succ_le_succ (hmax ⟨Nat.le_of_succ_le_succ hlength, by omega⟩)

/-- Every byte offset inside the text has an entry, also the end. -/
theorem byteTable_getElem? (index : Nat) (h : b ≤ (String.ofList cs).utf8ByteSize) :
    ∃ k, IsGreatest (fitting cs b) k ∧ (byteTable index cs)[b]? = some (index + k) := by
  induction cs generalizing index b with
  | nil =>
    obtain rfl : b = 0 := Nat.le_zero.mp h
    exact ⟨0, isGreatest_fitting_prefixSize (Nat.le_refl _), rfl⟩
  | cons c cs ih =>
    rw [utf8ByteSize_ofList_cons] at h
    -- the entry is one of the copies for `c`, or an entry of the rest, which counts from one more
    by_cases hb : b < c.utf8Size
    · refine ⟨0, isGreatest_fitting_zero hb, ?_⟩
      rw [byteTable, List.getElem?_append_left (by simpa using hb), List.getElem?_replicate,
        if_pos hb]
      rfl
    · obtain ⟨k, hk, hentry⟩ := ih (index + 1) (b := b - c.utf8Size) (by omega)
      refine ⟨k + 1, isGreatest_fitting_succ (by omega) hk, ?_⟩
      rw [byteTable, List.getElem?_append_right (by simpa using hb), List.length_replicate, hentry,
        Nat.add_right_comm, Nat.add_assoc]

theorem isGreatest_fitting_of_single (hall : cs.all (·.utf8Size == 1) = true)
    (h : b ≤ (String.ofList cs).utf8ByteSize) : IsGreatest (fitting cs b) b := by
  rw [utf8ByteSize_of_single hall] at h
  have hsize : prefixSize cs b = b := by
    have htake : (cs.take b).all (·.utf8Size == 1) = true :=
      List.all_eq_true.mpr fun c hc => List.all_eq_true.mp hall c (List.mem_of_mem_take hc)
    rw [prefixSize, utf8ByteSize_of_single htake, List.length_take_of_le h]
  have hmax := isGreatest_fitting_prefixSize h
  rwa [hsize] at hmax

theorem isGreatest_charOffset (h : b ≤ (String.ofList cs).utf8ByteSize) :
    IsGreatest (fitting cs b) ((ofChars cs).charOffset b) := by
  rw [charOffset_ofChars]
  split
  · rename_i hall
    exact isGreatest_fitting_of_single hall h
  · obtain ⟨k, hk, hentry⟩ := byteTable_getElem? 0 h
    rw [List.getD_eq_getElem?_getD, hentry]
    simpa using hk

/-- The table agrees with the offsets of a text that does without it. -/
theorem byteTable_eq_charOffset (h : b ≤ (String.ofList cs).utf8ByteSize) :
    (byteTable 0 cs)[b]? = some ((ofChars cs).charOffset b) := by
  obtain ⟨k, hk, hentry⟩ := byteTable_getElem? 0 h
  rw [hentry, (isGreatest_charOffset h).unique hk, Nat.zero_add]

theorem charOffset_prefixSize (h : k ≤ cs.length) :
    (ofChars cs).charOffset (prefixSize cs k) = k :=
  (isGreatest_charOffset (prefixSize_le_size h)).unique (isGreatest_fitting_prefixSize h)

theorem length_le_utf8ByteSize (cs : List Char) :
    cs.length ≤ (String.ofList cs).utf8ByteSize := by
  induction cs with
  | nil => exact Nat.zero_le _
  | cons c cs ih =>
    have hc := c.utf8Size_pos
    rw [utf8ByteSize_ofList_cons, List.length_cons]
    omega

theorem all_single_iff (cs : List Char) :
    cs.all (·.utf8Size == 1) = true ↔ (String.ofList cs).utf8ByteSize = cs.length := by
  refine ⟨utf8ByteSize_of_single, fun h => ?_⟩
  induction cs with
  | nil => rfl
  | cons c cs ih =>
    have hc := c.utf8Size_pos
    have hcs := length_le_utf8ByteSize cs
    rw [utf8ByteSize_ofList_cons, List.length_cons] at h
    rw [List.all_cons, ih (by omega), Bool.and_true]
    exact beq_iff_eq.mpr (by omega)

/-- There is a table iff there are more bytes than characters. -/
theorem table_ofChars (cs : List Char) : (ofChars cs).table =
    if (String.ofList cs).utf8ByteSize = cs.length then none else some (byteTable 0 cs).toArray :=
  if_congr (all_single_iff cs) rfl rfl

theorem exists_prefixSize_of_isValid (h : (⟨b⟩ : String.Pos.Raw).IsValid text) :
    ∃ k ≤ text.toList.length, b = prefixSize text.toList k := by
  obtain ⟨front, rest, rfl, hb⟩ := String.Pos.Raw.isValid_iff_exists_append.mp h
  refine ⟨front.toList.length, by simp, ?_⟩
  rw [prefixSize, String.toList_append, List.take_left, String.ofList_toList]
  exact congrArg String.Pos.Raw.byteIdx hb

theorem length_encodeUtf8_take (cs : List Char) (k : Nat) :
    (Text.encodeUtf8 (cs.take k)).length = prefixSize cs k :=
  Text.length_encodeUtf8 (cs.take k)

theorem encodeUtf8_take_append_drop (cs : List Char) (k : Nat) :
    Text.encodeUtf8 (cs.take k) ++ Text.encodeUtf8 (cs.drop k) = Text.encodeUtf8 cs := by
  rw [Text.encodeUtf8, Text.encodeUtf8, Text.encodeUtf8, ← List.flatMap_append,
    List.take_append_drop]

theorem take_encodeUtf8 (cs : List Char) (k : Nat) :
    (Text.encodeUtf8 cs).take (prefixSize cs k) = Text.encodeUtf8 (cs.take k) := by
  rw [← encodeUtf8_take_append_drop cs k, List.take_left' (length_encodeUtf8_take cs k)]

theorem drop_encodeUtf8 (cs : List Char) (k : Nat) :
    (Text.encodeUtf8 cs).drop (prefixSize cs k) = Text.encodeUtf8 (cs.drop k) := by
  rw [← encodeUtf8_take_append_drop cs k, List.drop_left' (length_encodeUtf8_take cs k)]

/-- The bytes from one character to another encode what stands between them. -/
theorem extract_encodeUtf8 (h : i ≤ cs.length) :
    (Text.encodeUtf8 cs).extract (prefixSize cs i) (prefixSize cs j) =
      Text.encodeUtf8 (cs.extract i j) := by
  rw [List.extract_eq_take_drop, List.extract_eq_take_drop, ← List.drop_take, ← List.drop_take,
    take_encodeUtf8]
  by_cases hij : i ≤ j
  · have hsize : prefixSize cs i = prefixSize (cs.take j) i := by
      rw [prefixSize, prefixSize, List.take_take, Nat.min_eq_left hij]
    rw [hsize, drop_encodeUtf8]
  · -- an end in front of the start leaves neither bytes nor characters
    have hlt := prefixSize_lt (Nat.lt_of_not_le hij) h
    have hlength := length_encodeUtf8_take cs j
    rw [List.drop_of_length_le (by omega),
      List.drop_of_length_le (by rw [List.length_take]; omega)]
    rfl

theorem text_site {c : Concrete} (hi : i ≤ text.toList.length) (hj : j ≤ text.toList.length)
    (hstart : c.label.start = prefixSize text.toList i)
    (hstop : c.label.stop = prefixSize text.toList j) :
    (c.site (ofText text)).text = text.toList.extract i j := by
  have hs : (ofText text).charOffset c.label.start = i := by
    rw [hstart]
    exact charOffset_prefixSize hi
  have he : (ofText text).charOffset c.label.stop = j := by
    rw [hstop]
    exact charOffset_prefixSize hj
  change (ofText text).slice (Site.spanOf (ofText text) c.label) = _
  rw [Concrete.slice_ofText, Site.spanOf, hs, he, List.extract_eq_take_drop]

theorem textOf_read (source : SourceText) (c : Concrete) {s : Site} (h : s.source = source) :
    s.textOf (some (c.read source)) = (c.site source).text := by
  cases c
  rw [Site.textOf, h]
  rfl

/-- The character offset of a byte offset is the largest number of characters that fit in front of
it, by the table and, where there are as many bytes as characters, without it. So character offsets
keep the order of byte offsets, and the size of each prefix leads back to its length. The text of a
node between characters is the decoding of its bytes. -/
theorem byte_offsets_find_characters (text : String) :
    let source := ofText text
    source.table = (if text.utf8ByteSize = text.length then none
      else some (byteTable 0 text.toList).toArray) ∧
    (∀ b ≤ text.utf8ByteSize, IsGreatest (fitting text.toList b) (source.charOffset b) ∧
      (byteTable 0 text.toList)[b]? = some (source.charOffset b)) ∧
    (∀ a b, a ≤ b → b ≤ text.utf8ByteSize → source.charOffset a ≤ source.charOffset b) ∧
    (∀ k ≤ text.length, source.charOffset (prefixSize text.toList k) = k) ∧
    ∀ c : Concrete, (⟨c.label.start⟩ : String.Pos.Raw).IsValid text →
      (⟨c.label.stop⟩ : String.Pos.Raw).IsValid text →
      Text.decodeUtf8
          ((text.toUTF8.extract c.label.start c.label.stop).data.toList.map UInt8.toNat) =
        .ok (c.site source).text ∧
      ∀ s : Site, s.source = source → s.textOf (some (c.read source)) = (c.site source).text := by
  intro source
  refine ⟨?_, fun b hb => ?_, fun a b hab _ => charOffset_mono text hab, fun k hk => ?_,
    fun c hstart hstop => ⟨?_, fun s hs => textOf_read source c hs⟩⟩
  · have htable := table_ofChars text.toList
    rwa [String.ofList_toList, String.length_toList] at htable
  · rw [← String.ofList_toList (s := text)] at hb
    exact ⟨isGreatest_charOffset hb, byteTable_eq_charOffset hb⟩
  · exact charOffset_prefixSize (by rwa [String.length_toList])
  · obtain ⟨i, hi, hstart⟩ := exists_prefixSize_of_isValid hstart
    obtain ⟨j, hj, hstop⟩ := exists_prefixSize_of_isValid hstop
    rw [text_site hi hj hstart hstop, Text.map_toNat_toUTF8_extract, hstart, hstop,
      extract_encodeUtf8 hi, Text.decodeUtf8_encodeUtf8]

/-- The name after a character of two bytes and one of four. -/
theorem byte_offsets_after_wide :
    let text := "é😀A"
    let source := ofText text
    let name : Concrete := .node { kind := "identifier", named := true, start := 6, stop := 7 } []
    let site : Site := { source, label := default, children := [] }
    (5 ≤ text.utf8ByteSize ∧ source.charOffset 5 = 1 ∧
      IsGreatest (fitting text.toList 5) (source.charOffset 5) ∧
      (byteTable 0 text.toList)[5]? = some (source.charOffset 5)) ∧
    source.charOffset 3 ≤ source.charOffset 5 ∧
    (2 ≤ text.length ∧ source.charOffset (prefixSize text.toList 2) = 2) ∧
    (⟨6⟩ : String.Pos.Raw).IsValid text ∧ (⟨7⟩ : String.Pos.Raw).IsValid text ∧
    Text.decodeUtf8 ((text.toUTF8.extract 6 7).data.toList.map UInt8.toNat) =
      .ok (name.site source).text ∧
    site.textOf (some (name.read source)) = ['A'] := by
  intro text source name site
  obtain ⟨-, hoffset, hmono, hsize, hnode⟩ := byte_offsets_find_characters text
  have hstart : (⟨6⟩ : String.Pos.Raw).IsValid text :=
    String.Pos.Raw.isValid_iff_exists_append.mpr ⟨"é😀", "A", by decide, rfl⟩
  have hstop : (⟨7⟩ : String.Pos.Raw).IsValid text :=
    String.Pos.Raw.isValid_iff_exists_append.mpr ⟨text, "", by decide, rfl⟩
  obtain ⟨hdecode, htext⟩ := hnode name hstart hstop
  have hname : (name.site source).text = ['A'] := by decide
  exact ⟨⟨by decide, by decide, hoffset 5 (by decide)⟩, hmono 3 5 (by decide) (by decide),
    ⟨by decide, hsize 2 (by decide)⟩, hstart, hstop, hdecode, (htext site rfl).trans hname⟩

end SourceText

end SolidityServer
