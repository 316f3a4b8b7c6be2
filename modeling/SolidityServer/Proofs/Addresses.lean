import Mathlib.Data.List.TakeWhile
import SolidityServer.Proofs.EscapedText
import SolidityServer.Proofs.NormalPaths

/-! Addresses of files. The path that the address of a file stands for has that same address. -/

namespace SolidityServer

namespace Uri

open Text

variable {c : Char} {cs authority path : List Char}

/-- A path with a small letter for its drive. -/
def lowerDrive (path : List Char) : List Char :=
  match path with
  | slash :: letter :: colon :: rest =>
    if hasDrive path then slash :: letter.toLower :: colon :: rest else path
  | _ => path

theorem hasDrive_iff (path : List Char) : hasDrive path ↔
    ∃ letter rest, path = '/' :: letter :: ':' :: rest ∧ letter.isAlpha := by
  constructor
  · intro h
    unfold hasDrive at h
    split at h
    next letter rest => exact ⟨letter, rest, rfl, h⟩
    · cases h
  · rintro ⟨letter, rest, rfl, h⟩
    exact h

theorem lowerDrive_of_not (h : ¬hasDrive path) : lowerDrive path = path := by
  unfold lowerDrive
  split
  · rw [if_neg h]
  · rfl

theorem encodePath_of_not (h : ¬hasDrive path) : encodePath path = encode path := by
  unfold encodePath
  split
  · rw [if_neg h]
  · rfl

theorem isAscii_of_isAlpha (h : c.isAlpha) : isAscii c := by
  have hle : c.val ≤ 'z'.val := by
    rcases Bool.or_eq_true_iff.mp h with hupper | hlower
    · have hcapital : c.val ≥ 'A'.val ∧ c.val ≤ 'Z'.val := of_decide_eq_true hupper
      exact UInt32.le_trans hcapital.2 (by decide)
    · have hsmall : decide (c.val ≥ 'a'.val) = true ∧ decide (c.val ≤ 'z'.val) = true :=
        Bool.and_eq_true_iff.mp hlower
      exact of_decide_eq_true hsmall.2
  exact decide_eq_true (Nat.lt_of_le_of_lt (UInt32.le_iff_toNat_le.mp hle) (by decide))

theorem toLower_of_isAlpha (h : c.isAlpha) : c.toLower.isAlpha ∧ c.toLower.toLower = c.toLower := by
  have hall : ∀ n : Fin 128, (Char.ofNat n.val).isAlpha →
      (Char.ofNat n.val).toLower.isAlpha ∧
        (Char.ofNat n.val).toLower.toLower = (Char.ofNat n.val).toLower := by decide +kernel
  have hc := hall ⟨c.toNat, of_decide_eq_true (isAscii_of_isAlpha h)⟩
  rw [Char.ofNat_toNat] at hc
  exact hc h

theorem lowerDrive_of_drive {letter : Char} (h : letter.isAlpha) (rest : List Char) :
    lowerDrive ('/' :: letter :: ':' :: rest) = '/' :: letter.toLower :: ':' :: rest := if_pos h

theorem encodePath_of_drive {letter : Char} (h : letter.isAlpha) (rest : List Char) :
    encodePath ('/' :: letter :: ':' :: rest) = '/' :: letter.toLower :: ':' :: encode rest :=
  if_pos h

theorem encodePath_lowerDrive (path : List Char) :
    encodePath (lowerDrive path) = encodePath path := by
  by_cases hdrive : hasDrive path
  · obtain ⟨letter, rest, rfl, hletter⟩ := (hasDrive_iff path).mp hdrive
    obtain ⟨halpha, hlower⟩ := toLower_of_isAlpha hletter
    rw [lowerDrive_of_drive hletter, encodePath_of_drive halpha, encodePath_of_drive hletter,
      hlower]
  · rw [lowerDrive_of_not hdrive]

theorem decode_encodePath (path : List Char) :
    decode (String.ofList (encodePath path)) = String.ofList (lowerDrive path) := by
  by_cases hdrive : hasDrive path
  · obtain ⟨letter, rest, rfl, hletter⟩ := (hasDrive_iff path).mp hdrive
    rw [lowerDrive_of_drive hletter, encodePath_of_drive hletter]
    have hascii := isAscii_of_isAlpha (toLower_of_isAlpha hletter).1
    have hne : letter.toLower ≠ '%' := by
      intro heq
      have halpha := (toLower_of_isAlpha hletter).1
      rw [heq] at halpha
      exact absurd halpha (by decide)
    have hrest := pieces_encode rest []
    rw [List.append_nil] at hrest
    refine decode_of_pieces ?_
    rw [pieces_of_ne (by decide) (by decide), pieces_of_ne hne hascii,
      pieces_of_ne (by decide) (by decide), hrest]
    simp only [encodeUtf8, List.flatMap_cons, utf8Bytes_of_isAscii hascii, List.map_append]
    exact congrArg (fun bytes => _ :: _ :: _ :: bytes) (List.append_nil _)
  · rw [encodePath_of_not hdrive, lowerDrive_of_not hdrive, decode_encode]

theorem mem_encode (h : c ∈ encode cs) : (c ∈ cs ∧ isPlain c) ∨ c = '%' ∨ c.isAlphanum := by
  obtain ⟨c', hc', hmem⟩ := List.mem_flatMap.mp h
  by_cases hplain : isPlain c'
  · rw [if_pos hplain, List.mem_singleton] at hmem
    subst hmem
    exact .inl ⟨hc', hplain⟩
  · rw [if_neg hplain] at hmem
    obtain ⟨b, hb, hescape⟩ := List.mem_flatMap.mp hmem
    obtain ⟨x, y, hxy, hx, hy, -, -⟩ := hex_two (lt_of_mem_utf8Bytes hb)
    rw [hxy] at hescape
    simp only [List.mem_cons, List.not_mem_nil, or_false] at hescape
    rcases hescape with rfl | rfl | rfl
    · exact .inr (.inl rfl)
    · exact .inr (.inr hx)
    · exact .inr (.inr hy)

/-- The characters that mean something in an address are escaped. -/
theorem not_mem_encode (hplain : isPlain c = false) (hpercent : c ≠ '%')
    (halphanum : c.isAlphanum = false) (cs : List Char) : c ∉ encode cs := by
  intro h
  rcases mem_encode h with ⟨-, hc⟩ | hc | hc
  · cases hplain.symm.trans hc
  · exact hpercent hc
  · cases halphanum.symm.trans hc

theorem not_mem_encodePath (hplain : isPlain c = false) (hpercent : c ≠ '%')
    (halphanum : c.isAlphanum = false) (hcolon : c ≠ ':') (path : List Char) :
    c ∉ encodePath path := by
  by_cases hdrive : hasDrive path
  · obtain ⟨letter, rest, rfl, hletter⟩ := (hasDrive_iff path).mp hdrive
    rw [encodePath_of_drive hletter]
    have hslash : c ≠ '/' := by
      rintro rfl
      exact absurd hplain (by decide)
    have hlower : c ≠ letter.toLower := by
      rintro rfl
      have halpha := (toLower_of_isAlpha hletter).1
      rw [Char.isAlphanum, halpha] at halphanum
      cases halphanum
    simp [hslash, hlower, hcolon, not_mem_encode hplain hpercent halphanum rest]
  · rw [encodePath_of_not hdrive]
    exact not_mem_encode hplain hpercent halphanum path

theorem exists_encodePath (rest : List Char) :
    ∃ body, encodePath ('/' :: rest) = '/' :: body := by
  by_cases hdrive : hasDrive ('/' :: rest)
  · obtain ⟨letter, rest, hpath, hletter⟩ := (hasDrive_iff _).mp hdrive
    rw [hpath, encodePath_of_drive hletter]
    exact ⟨_, rfl⟩
  · rw [encodePath_of_not hdrive]
    exact ⟨encode rest, rfl⟩

/-- The address of a path on a host, the empty one for the local machine. -/
def address (authority path : List Char) : String :=
  String.ofList ("file://".toList ++ encode authority ++ encodePath path)

theorem address_lowerDrive (authority path : List Char) :
    address authority (lowerDrive path) = address authority path :=
  congrArg (fun body => String.ofList ("file://".toList ++ encode authority ++ body))
    (encodePath_lowerDrive path)

theorem clean_of_not_mem (h : ∀ c ∈ ['\t', '\r', '\n'], c ∉ cs) :
    clean ('f' :: cs) = 'f' :: cs := by
  have hkeep : ∀ c ∈ 'f' :: cs, (!(c == '\t' || c == '\r' || c == '\n')) = true := by
    intro c hc
    by_cases hdrop : c ∈ ['\t', '\r', '\n']
    · rcases List.mem_cons.mp hc with rfl | hc
      · exact absurd hdrop (by decide)
      · exact absurd hc (h c hdrop)
    · simp only [List.mem_cons, List.not_mem_nil, or_false, not_or] at hdrop
      simp [hdrop]
  have hfirst : ('f' :: cs).dropWhile (·.toNat ≤ 0x20) = 'f' :: cs := rfl
  rw [clean, hfirst]
  exact List.filter_eq_self.mpr hkeep

theorem divideScheme_file (cs : List Char) :
    divideScheme ('f' :: 'i' :: 'l' :: 'e' :: ':' :: cs) = (['f', 'i', 'l', 'e'], cs) := rfl

theorem divideAuthority_of_slash (h : ∀ c ∈ ['/', '?', '#'], c ∉ cs) (rest : List Char) :
    divideAuthority ('/' :: '/' :: (cs ++ '/' :: rest)) = (cs, '/' :: rest) := by
  have hkeep : ∀ c ∈ cs, (!(c == '/' || c == '?' || c == '#')) = true := by
    intro c hc
    have hne : c ∉ ['/', '?', '#'] := fun hends => h c hends hc
    simp only [List.mem_cons, List.not_mem_nil, or_false, not_or] at hne
    simp [hne]
  refine Prod.ext ?_ ?_
  · exact (List.takeWhile_append_of_pos hkeep).trans (List.append_nil _)
  · exact List.dropWhile_append_of_pos hkeep

theorem takeWhile_of_not_mem (h : c ∉ cs) : cs.takeWhile (· != c) = cs := by
  refine List.takeWhile_eq_self_iff.mpr fun c' hc' => ?_
  have hne : c' ≠ c := fun heq => h (heq ▸ hc')
  simpa using hne

theorem special_not_mem (h : c ∈ ['\t', '\r', '\n', '?', '#']) (authority path : List Char) :
    c ∉ encode authority ∧ c ∉ encodePath path := by
  have hspecial : ['\t', '\r', '\n', '?', '#'].all fun c =>
      !isPlain c && c != '%' && !c.isAlphanum && c != ':' := by decide
  have hc := List.all_eq_true.mp hspecial c h
  simp only [Bool.and_eq_true, Bool.not_eq_true', bne_iff_ne] at hc
  obtain ⟨⟨⟨hplain, hpercent⟩, halphanum⟩, hcolon⟩ := hc
  exact ⟨not_mem_encode hplain hpercent halphanum _,
    not_mem_encodePath hplain hpercent halphanum hcolon _⟩

theorem clean_address (authority path : List Char) :
    clean (address authority path).toList =
      'f' :: 'i' :: 'l' :: 'e' :: ':' :: '/' :: '/' :: (encode authority ++ encodePath path) := by
  have hchars : (address authority path).toList =
      'f' :: (['i', 'l', 'e', ':', '/', '/'] ++ (encode authority ++ encodePath path)) := by
    have hscheme : "file://".toList = ['f', 'i', 'l', 'e', ':', '/', '/'] := by decide
    calc (address authority path).toList
        = "file://".toList ++ encode authority ++ encodePath path := String.toList_ofList
      _ = _ := by rw [hscheme, List.append_assoc, List.cons_append]
  rw [hchars]
  refine clean_of_not_mem fun c hc hmem => ?_
  have hfile : ∀ c ∈ ['\t', '\r', '\n'], c ∉ ['i', 'l', 'e', ':', '/', '/'] := by simp
  obtain ⟨hauthority, hpath⟩ := special_not_mem (List.mem_append_left ['?', '#'] hc) authority path
  rcases List.mem_append.mp hmem with h | h
  · exact hfile c hc h
  rcases List.mem_append.mp h with h | h
  · exact hauthority h
  · exact hpath h

/-- The parts of an address are read back. -/
theorem parse_address (hauthority : '/' ∉ authority) (rest : List Char) :
    parse (address authority ('/' :: rest)) =
      { scheme := "file", authority := String.ofList authority,
        path := String.ofList (lowerDrive ('/' :: rest)) } := by
  obtain ⟨body, hbody⟩ := exists_encodePath rest
  have hslash : '/' ∉ encode authority := by
    intro h
    rcases mem_encode h with ⟨h, -⟩ | h | h
    · exact hauthority h
    · exact absurd h (by decide)
    · exact absurd h (by decide)
  have hends : ∀ c ∈ ['/', '?', '#'], c ∉ encode authority := by
    intro c hc
    rcases List.mem_cons.mp hc with rfl | hc
    · exact hslash
    · exact (special_not_mem (List.mem_append_right ['\t', '\r', '\n'] hc) authority []).1
  have hnumber := (special_not_mem (c := '#') (by decide) [] ('/' :: rest)).2
  have hquestion := (special_not_mem (c := '?') (by decide) [] ('/' :: rest)).2
  have hscheme : parameterSchemes.contains (String.ofList ['f', 'i', 'l', 'e']) = false := by decide
  rw [parse, clean_address, divideScheme_file]
  rw [hbody] at hnumber hquestion ⊢
  simp only [divideAuthority_of_slash hends, takeWhile_of_not_mem hnumber,
    takeWhile_of_not_mem hquestion, hscheme, Bool.false_eq_true, if_false]
  rw [← hbody, decode_encodePath, decode_encode]
  exact congrArg (fun scheme => Uri.mk scheme _ _) (by decide)

theorem documentPath_share (hne : authority ≠ []) (hauthority : '/' ∉ authority)
    (rest : List Char) :
    documentPath (address authority ('/' :: rest)) =
      String.ofList ('/' :: '/' :: (authority ++ lowerDrive ('/' :: rest))) := by
  have hhost : (String.ofList authority).isEmpty = false := by simpa using hne
  have hpath : lowerDrive ('/' :: rest) ≠ [] := by
    by_cases hdrive : hasDrive ('/' :: rest)
    · obtain ⟨letter, rest, hrest, hletter⟩ := (hasDrive_iff _).mp hdrive
      rw [hrest, lowerDrive_of_drive hletter]
      exact List.cons_ne_nil _ _
    · rw [lowerDrive_of_not hdrive]
      exact List.cons_ne_nil _ _
  have htext : "//" ++ String.ofList authority ++ String.ofList (lowerDrive ('/' :: rest)) =
      String.ofList ('/' :: '/' :: (authority ++ lowerDrive ('/' :: rest))) := by
    have hslashes : "//" = String.ofList ['/', '/'] := rfl
    rw [hslashes, ← String.ofList_append, ← String.ofList_append]
    rfl
  unfold documentPath toPath?
  rw [parse_address hauthority]
  simp only [String.toList_ofList, hhost, htext]
  simp [hpath]

theorem documentPath_local (rest : List Char) :
    documentPath (address [] ('/' :: rest)) = String.ofList
      (if hasDrive ('/' :: rest) then (lowerDrive ('/' :: rest)).tail else '/' :: rest) := by
  unfold documentPath toPath?
  rw [parse_address List.not_mem_nil]
  simp only [String.toList_ofList]
  by_cases hdrive : hasDrive ('/' :: rest)
  · obtain ⟨letter, tail, hrest, hletter⟩ := (hasDrive_iff _).mp hdrive
    obtain ⟨halpha, hlower⟩ := toLower_of_isAlpha hletter
    have hdrive' : hasDrive ('/' :: letter.toLower :: ':' :: tail) := halpha
    rw [if_pos hdrive, hrest, lowerDrive_of_drive hletter]
    simp [hdrive', hlower]
  · rw [if_neg hdrive, lowerDrive_of_not hdrive]
    cases rest with
    | nil => simp
    | cons letter rest => simp [hdrive]

theorem head_encode (h : cs.head? ≠ some '/') : (encode cs).head? ≠ some '/' := by
  cases cs with
  | nil => exact h
  | cons c cs =>
    rw [encode_cons]
    by_cases hc : isPlain c
    · rw [if_pos hc]
      exact h
    · obtain ⟨b, bytes, hbytes⟩ : ∃ b bytes, utf8Bytes c = b :: bytes := by
        unfold utf8Bytes
        dsimp only
        split
        · exact ⟨_, _, rfl⟩
        split
        · exact ⟨_, _, rfl⟩
        split
        · exact ⟨_, _, rfl⟩
        · exact ⟨_, _, rfl⟩
      rw [if_neg hc, hbytes]
      exact fun heq => absurd (Option.some.inj heq) (by decide)

theorem isPrefixOf_encodePath (h : path.head? ≠ some '/') :
    ['/', '/'].isPrefixOf (encodePath ('/' :: path)) = false := by
  by_cases hdrive : hasDrive ('/' :: path)
  · obtain ⟨letter, rest, hpath, hletter⟩ := (hasDrive_iff _).mp hdrive
    have hne : ('/' == letter.toLower) = false := by
      refine beq_false_of_ne fun heq => ?_
      have halpha := (toLower_of_isAlpha hletter).1
      rw [← heq] at halpha
      exact absurd halpha (by decide)
    rw [hpath, encodePath_of_drive hletter]
    simp [List.isPrefixOf, hne]
  · have hhead := head_encode h
    have hencode : encode ('/' :: path) = '/' :: encode path := encode_cons _ _
    rw [encodePath_of_not hdrive, hencode]
    cases hrest : encode path with
    | nil => rfl
    | cons c cs =>
      rw [hrest] at hhead
      have hne : ('/' == c) = false := beq_false_of_ne fun heq => hhead (congrArg some heq.symm)
      simp [List.isPrefixOf, hne]

theorem ofPath?_of_divide {p : String} {rest : List Char}
    (hdivide : divideShare? p.toList = some (authority, path))
    (hpath : (if path.head? == some '/' then path else '/' :: path) = '/' :: rest)
    (hhost : authority ≠ [] ∨ rest.head? ≠ some '/') :
    ofPath? p = some (address authority ('/' :: rest)) := by
  have hbody : (authority.isEmpty && ['/', '/'].isPrefixOf (encodePath ('/' :: rest))) = false := by
    rcases hhost with hne | hhead
    · simp [hne]
    · rw [isPrefixOf_encodePath hhead, Bool.and_false]
  rw [ofPath?, hdivide, Option.map_some]
  simp only [hpath, hbody, Bool.false_eq_true, if_false]
  rfl

theorem ofPath?_share (hne : authority ≠ []) (hauthority : '/' ∉ authority) (rest : List Char) :
    ofPath? (String.ofList ('/' :: '/' :: (authority ++ '/' :: rest))) =
      some (address authority ('/' :: rest)) := by
  have htake : (authority ++ '/' :: rest).takeWhile (· != '/') = authority := by
    rw [List.takeWhile_append_of_pos, List.takeWhile_cons_of_neg (by simp), List.append_nil]
    intro c hc
    have hslash : c ≠ '/' := fun heq => hauthority (heq ▸ hc)
    simpa using hslash
  have hdivide : divideShare? (String.ofList ('/' :: '/' :: (authority ++ '/' :: rest))).toList =
      some (authority, '/' :: rest) := by
    rw [String.toList_ofList]
    simp only [divideShare?, htake, List.drop_left]
  exact ofPath?_of_divide hdivide rfl (.inl hne)

theorem ofPath?_host (hauthority : '/' ∉ authority) :
    ofPath? (String.ofList ('/' :: '/' :: authority)) = none := by
  have hdivide : divideShare? (String.ofList ('/' :: '/' :: authority)).toList = none := by
    rw [String.toList_ofList]
    simp only [divideShare?, takeWhile_of_not_mem hauthority, List.drop_length]
  rw [ofPath?, hdivide, Option.map_none]

theorem divideShare?_of_head (h : path.head? ≠ some '/') :
    divideShare? ('/' :: path) = some ([], '/' :: path) ∧ divideShare? path = some ([], path) := by
  cases path with
  | nil => exact ⟨rfl, rfl⟩
  | cons c path =>
    have hc : c ≠ '/' := fun heq => h (congrArg some heq)
    simp [divideShare?, hc]

/-- A path that starts with no slash counts from the root. -/
theorem ofPath?_local (h : path.head? ≠ some '/') :
    ofPath? (String.ofList ('/' :: path)) = some (address [] ('/' :: path)) ∧
      ofPath? (String.ofList path) = some (address [] ('/' :: path)) := by
  obtain ⟨hrooted, hloose⟩ := divideShare?_of_head h
  have hrooted' : divideShare? (String.ofList ('/' :: path)).toList = some ([], '/' :: path) := by
    rw [String.toList_ofList, hrooted]
  have hloose' : divideShare? (String.ofList path).toList = some ([], path) := by
    rw [String.toList_ofList, hloose]
  exact ⟨ofPath?_of_divide hrooted' rfl (.inr h),
    ofPath?_of_divide hloose' (if_neg (by simpa using h)) (.inr h)⟩

end Uri

namespace Path

theorem unite_cons_head (c : Char) (part : List Char) (parts : List (List Char)) :
    unite ((c :: part) :: parts) = c :: unite (part :: parts) := by
  cases parts with
  | nil => rw [unite_singleton, unite_singleton]
  | cons second parts => rfl

/-- The letter of a drive is the first of a name. -/
theorem exists_names_lowerDrive {names : List (List Char)} (h : ∀ part ∈ names, IsName part) :
    ∃ names', Uri.lowerDrive ('/' :: unite names) = '/' :: unite names' ∧
      (∀ part ∈ names', IsName part) ∧ names'.length = names.length := by
  by_cases hdrive : Uri.hasDrive ('/' :: unite names)
  · obtain ⟨letter, rest, hpath, hletter⟩ := (Uri.hasDrive_iff _).mp hdrive
    -- the names are the segments of the path, so the letter and the colon begin the first of them
    have hunite : unite names = letter :: ':' :: rest := List.cons.inj hpath |>.2
    have hne : names ≠ [] := by
      rintro rfl
      cases hunite
    have halpha := (Uri.toLower_of_isAlpha hletter).1
    have hslash : ∀ {c : Char}, c.isAlpha → c ≠ '/' := by
      rintro c hc rfl
      exact absurd hc (by decide)
    obtain ⟨part, parts, hrest⟩ : ∃ part parts, segments rest = part :: parts := by
      cases hsegments : segments rest with
      | nil => exact absurd hsegments (segments_ne_nil rest)
      | cons part parts => exact ⟨part, parts, rfl⟩
    have hnames : names = (letter :: ':' :: part) :: parts := by
      have hsegments := segments_unite hne fun part hpart => (h part hpart).slash
      rw [hunite, segments_cons (hslash hletter) (segments_cons (by decide) hrest)] at hsegments
      exact hsegments.symm
    subst hnames
    have hfirst := h _ List.mem_cons_self
    refine ⟨(letter.toLower :: ':' :: part) :: parts, ?_, ?_, rfl⟩
    · rw [unite_cons_head, unite_cons_head, Uri.lowerDrive_of_drive hletter, unite_cons_head,
        unite_cons_head]
    · intro name hname
      rcases List.mem_cons.mp hname with rfl | hname
      · have hpart : '/' ∉ part := fun hmem =>
          hfirst.slash (List.mem_cons_of_mem _ (List.mem_cons_of_mem _ hmem))
        refine ⟨List.cons_ne_nil _ _, ?_, ?_, ?_⟩
        · simp [here]
        · simp [above]
        · simp [(hslash halpha).symm, hpart]
      · exact h name (List.mem_cons_of_mem _ hname)
  · exact ⟨names, Uri.lowerDrive_of_not hdrive, h, rfl⟩

variable {names : List (List Char)}

theorem sound_of_names {slashes : Nat} (hslashes : slashes ≤ 2) (h : ∀ part ∈ names, IsName part)
    (hne : slashes = 0 → names ≠ []) : Form.Sound ⟨slashes, 0, names⟩ :=
  ⟨hslashes, h, fun _ => rfl, hne⟩

theorem head_unite_names (h : ∀ part ∈ names, IsName part) : (unite names).head? ≠ some '/' :=
  (sound_of_names (Nat.le_succ 1) h nofun).head_unite

theorem documentPath_names (h : ∀ part ∈ names, IsName part) :
    let uri := Uri.address [] ('/' :: unite names)
    IsNormal (Uri.documentPath uri) ∧ Uri.ofPath? (Uri.documentPath uri) = some uri := by
  intro uri
  have hrooted : Form.Sound ⟨1, 0, names⟩ := sound_of_names (Nat.le_succ 1) h nofun
  obtain ⟨names', hlower, hnames', hlength⟩ := exists_names_lowerDrive h
  by_cases hdrive : Uri.hasDrive ('/' :: unite names)
  · have hne : names' ≠ [] := by
      intro hnil
      obtain rfl : names = [] := List.length_eq_zero_iff.mp (by rw [← hlength, hnil]; rfl)
      exact absurd hdrive (by decide)
    have hloose : Form.Sound ⟨0, 0, names'⟩ :=
      sound_of_names (Nat.zero_le 2) hnames' fun _ => hne
    have hpath : Uri.documentPath uri = String.ofList (unite names') := by
      rw [Uri.documentPath_local, if_pos hdrive, hlower, List.tail_cons]
    rw [hpath]
    refine ⟨hloose.isNormal, ?_⟩
    rw [(Uri.ofPath?_local (head_unite_names hnames')).2, ← hlower, Uri.address_lowerDrive]
  · have hpath : Uri.documentPath uri = String.ofList ('/' :: unite names) := by
      rw [Uri.documentPath_local, if_neg hdrive]
    rw [hpath]
    exact ⟨hrooted.isNormal, (Uri.ofPath?_local (head_unite_names h)).1⟩

theorem documentPath_host_names {host : List Char} (hhost : IsName host)
    (h : ∀ part ∈ names, IsName part) (hne : names ≠ []) :
    let uri := Uri.address host ('/' :: unite names)
    IsNormal (Uri.documentPath uri) ∧ Uri.ofPath? (Uri.documentPath uri) = some uri := by
  intro uri
  obtain ⟨names', hlower, hnames', hlength⟩ := exists_names_lowerDrive h
  have hpath : Uri.documentPath uri =
      String.ofList ('/' :: '/' :: (host ++ '/' :: unite names')) := by
    rw [Uri.documentPath_share hhost.ne_nil hhost.slash, hlower]
  have hne' : names' ≠ [] := by
    intro hnil
    rw [hnil] at hlength
    exact hne (List.length_eq_zero_iff.mp hlength.symm)
  have hform : Form.Sound ⟨2, 0, host :: names'⟩ := by
    refine sound_of_names (Nat.le_refl 2) (fun part hpart => ?_) nofun
    rcases List.mem_cons.mp hpart with rfl | hpart
    · exact hhost
    · exact hnames' part hpart
  have hunite : unite (host :: names') = host ++ '/' :: unite names' := by
    cases names' with
    | nil => exact absurd rfl hne'
    | cons part parts => exact unite_cons_cons host part parts
  have hnormal : IsNormal (String.ofList ('/' :: '/' :: unite (host :: names'))) := hform.isNormal
  rw [hunite] at hnormal
  rw [hpath]
  refine ⟨hnormal, ?_⟩
  rw [Uri.ofPath?_share hhost.ne_nil hhost.slash, ← hlower, Uri.address_lowerDrive]

/-- The path that the address of a file stands for is in normal form and has that address. It is
another path only if there is the letter of a drive in it. -/
theorem documentPath_ofPath? {p uri : String} (hp : IsNormal p) (habs : isAbsolute p)
    (huri : Uri.ofPath? p = some uri) :
    IsNormal (Uri.documentPath uri) ∧ Uri.ofPath? (Uri.documentPath uri) = some uri := by
  obtain ⟨⟨slashes, ups, names⟩, hf, hchars, hroot, hparts⟩ := exists_form_of_normal hp habs
  have hnames : ∀ part ∈ names, IsName part := hf.names
  have hpath : p = String.ofList (List.replicate slashes '/' ++ unite names) := by
    rw [← String.ofList_toList (s := p), hchars, Form.chars, hparts]
  have hslashes : slashes ≤ 2 := hf.slashes
  -- one slash for the local machine, two before the name of a host
  obtain rfl | rfl : slashes = 1 ∨ slashes = 2 := by
    change slashes ≠ 0 at hroot
    omega
  · have haddress := (Uri.ofPath?_local (head_unite_names hnames)).1
    have heq : uri = Uri.address [] ('/' :: unite names) :=
      Option.some.inj (huri.symm.trans ((congrArg Uri.ofPath? hpath).trans haddress))
    rw [heq]
    exact documentPath_names hnames
  · cases names with
    | nil =>
      have hnone := (congrArg Uri.ofPath? hpath).trans (Uri.ofPath?_host List.not_mem_nil)
      cases huri.symm.trans hnone
    | cons host names =>
      have hhost := hnames host List.mem_cons_self
      cases names with
      | nil =>
        rw [unite_singleton] at hpath
        have hnone := (congrArg Uri.ofPath? hpath).trans (Uri.ofPath?_host hhost.slash)
        cases huri.symm.trans hnone
      | cons part parts =>
        have hrest : ∀ name ∈ part :: parts, IsName name := fun name hname =>
          hnames name (List.mem_cons_of_mem host hname)
        have haddress := Uri.ofPath?_share hhost.ne_nil hhost.slash (unite (part :: parts))
        have heq : uri = Uri.address host ('/' :: unite (part :: parts)) :=
          Option.some.inj (huri.symm.trans ((congrArg Uri.ofPath? hpath).trans haddress))
        rw [heq]
        exact documentPath_host_names hhost hrest (List.cons_ne_nil _ _)

end Path

end SolidityServer
