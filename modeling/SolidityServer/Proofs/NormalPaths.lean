import Mathlib.Data.List.TakeWhile
import SolidityServer.Project

/-! Paths in normal form. The parts of a normal path are steps upwards followed by names, and going
along such parts leads nowhere else; so making a path normal twice changes nothing. -/

namespace SolidityServer.Path

def IsNormal (p : String) : Prop := normalize p = p

/-- A part that leads from a directory into something in it. -/
structure IsName (part : List Char) : Prop where
  ne_nil : part ≠ []
  ne_here : part ≠ here
  ne_above : part ≠ above
  slash : '/' ∉ part

theorem slash_not_mem_above : '/' ∉ above := by decide

section Parts

variable {part : List Char} {parts names : List (List Char)} {rooted : Bool} {ups slashes : Nat}

theorem unite_cons_cons (first second : List Char) (parts : List (List Char)) :
    unite (first :: second :: parts) = first ++ '/' :: unite (second :: parts) := rfl

theorem unite_singleton (part : List Char) : unite [part] = part := List.intercalate_singleton

theorem segments_ne_nil (p : List Char) : segments p ≠ [] := by
  cases p with
  | nil => simp [segments]
  | cons c cs =>
    rw [segments]
    split
    · simp
    · split <;> simp

theorem segments_slash (p : List Char) : segments ('/' :: p) = [] :: segments p := by
  rw [segments]
  cases h : segments p with
  | nil => exact absurd h (segments_ne_nil p)
  | cons part parts => rfl

theorem segments_cons {c : Char} (hc : c ≠ '/') {p : List Char} (h : segments p = part :: parts) :
    segments (c :: p) = (c :: part) :: parts := by
  rw [segments, h]
  exact if_neg (by simpa using hc)

theorem slash_not_mem_segments (p : List Char) : ∀ part ∈ segments p, '/' ∉ part := by
  induction p with
  | nil => simp [segments]
  | cons c p ih =>
    cases h : segments p with
    | nil => exact absurd h (segments_ne_nil p)
    | cons first parts =>
      rw [h] at ih
      by_cases hc : c = '/'
      · subst hc
        rw [segments_slash, h]
        intro part hpart
        rcases List.mem_cons.mp hpart with rfl | hpart
        · simp
        · exact ih part hpart
      · rw [segments_cons hc h]
        intro part hpart
        rcases List.mem_cons.mp hpart with rfl | hpart
        · have hfirst := ih first List.mem_cons_self
          simpa [Ne.symm hc] using hfirst
        · exact ih part (List.mem_cons_of_mem first hpart)

theorem segments_append_slash (h : '/' ∉ part) (p : List Char) :
    segments (part ++ '/' :: p) = part :: segments p := by
  induction part with
  | nil => exact segments_slash p
  | cons c part ih =>
    obtain ⟨hc, hpart⟩ := not_or.mp (mt List.mem_cons.mpr h)
    exact segments_cons (Ne.symm hc) (ih hpart)

theorem segments_of_slash_not_mem (h : '/' ∉ part) : segments part = [part] := by
  induction part with
  | nil => rfl
  | cons c part ih =>
    obtain ⟨hc, hpart⟩ := not_or.mp (mt List.mem_cons.mpr h)
    exact segments_cons (Ne.symm hc) (ih hpart)

theorem segments_unite (hne : parts ≠ []) (h : ∀ part ∈ parts, '/' ∉ part) :
    segments (unite parts) = parts := by
  induction parts with
  | nil => exact absurd rfl hne
  | cons first parts ih =>
    cases parts with
    | nil => rw [unite_singleton, segments_of_slash_not_mem (h first List.mem_cons_self)]
    | cons second parts =>
      have hrest := ih (by simp) fun part hpart => h part (List.mem_cons_of_mem first hpart)
      rw [unite_cons_cons, segments_append_slash (h first List.mem_cons_self), hrest]

theorem segments_slashes (slashes : Nat) (p : List Char) :
    segments (List.replicate slashes '/' ++ p) = List.replicate slashes [] ++ segments p := by
  induction slashes with
  | zero => rfl
  | succ slashes ih =>
    rw [List.replicate_succ, List.cons_append, segments_slash, ih]
    rfl

theorem enter_nil (rooted : Bool) (parts : List (List Char)) : enter rooted parts [] = parts := rfl

theorem enter_name (h : IsName part) (parts : List (List Char)) :
    enter rooted parts part = part :: parts := by
  simp [enter, h.ne_nil, h.ne_here, h.ne_above]

theorem foldl_enter_names (h : ∀ part ∈ names, IsName part) (parts : List (List Char)) :
    names.foldl (enter rooted) parts = names.reverse ++ parts := by
  induction names generalizing parts with
  | nil => rfl
  | cons part names ih =>
    rw [List.foldl_cons, enter_name (h part List.mem_cons_self),
      ih fun other hother => h other (List.mem_cons_of_mem part hother)]
    simp

theorem foldl_enter_nils (slashes : Nat) (parts : List (List Char)) :
    (List.replicate slashes []).foldl (enter rooted) parts = parts := by
  induction slashes with
  | zero => rfl
  | succ slashes ih => rw [List.replicate_succ, List.foldl_cons, enter_nil, ih]

theorem foldl_enter_above (ups : Nat) :
    (List.replicate ups above).foldl (enter false) [] = List.replicate ups above := by
  have hgo : ∀ done, (List.replicate ups above).foldl (enter false) (List.replicate done above) =
      List.replicate (ups + done) above := by
    induction ups with
    | zero => simp
    | succ ups ih =>
      intro done
      have henter : enter false (List.replicate done above) above =
          List.replicate (done + 1) above := by
        cases done with
        | zero => rfl
        | succ done => rfl
      rw [List.replicate_succ, List.foldl_cons, henter, ih, Nat.add_right_comm, Nat.add_assoc]
  exact hgo 0

/-- Where one can stand, the way read backwards: below some names, which stand below some steps
upwards if the way does not start at the root. -/
def Stands (rooted : Bool) (parts : List (List Char)) : Prop :=
  ∃ names ups, parts = names ++ List.replicate ups above ∧ (∀ part ∈ names, IsName part) ∧
    (rooted → ups = 0)

theorem Stands.enter (h : Stands rooted parts) (hslash : '/' ∉ part) :
    Stands rooted (enter rooted parts part) := by
  obtain ⟨names, ups, rfl, hnames, hups⟩ := h
  by_cases hnil : part = []
  · subst hnil
    exact ⟨names, ups, rfl, hnames, hups⟩
  by_cases hhere : part = here
  · subst hhere
    exact ⟨names, ups, rfl, hnames, hups⟩
  by_cases habove : part = above
  · subst habove
    cases names with
    | cons top names =>
      have htop := hnames top List.mem_cons_self
      have henter : Path.enter rooted (top :: names ++ List.replicate ups above) above =
          names ++ List.replicate ups above := by
        have hne : ¬(top == above) := by simpa using htop.ne_above
        exact if_neg hne
      rw [henter]
      exact ⟨names, ups, rfl, fun other hother => hnames other (List.mem_cons_of_mem top hother),
        hups⟩
    | nil =>
      cases rooted with
      | true =>
        rw [hups rfl]
        exact ⟨[], 0, rfl, by simp, fun _ => rfl⟩
      | false =>
        refine ⟨[], ups + 1, ?_, by simp, by simp⟩
        cases ups with
        | zero => rfl
        | succ ups => rfl
  · have hname : IsName part := ⟨hnil, hhere, habove, hslash⟩
    rw [enter_name hname]
    refine ⟨part :: names, ups, rfl, fun other hother => ?_, hups⟩
    rcases List.mem_cons.mp hother with rfl | hother
    · exact hname
    · exact hnames other hother

theorem stands_foldl (hparts : ∀ part ∈ parts, '/' ∉ part) {way : List (List Char)}
    (h : Stands rooted way) : Stands rooted (parts.foldl (enter rooted) way) := by
  induction parts generalizing way with
  | nil => exact h
  | cons part parts ih =>
    exact ih (fun other hother => hparts other (List.mem_cons_of_mem part hother))
      (h.enter (hparts part List.mem_cons_self))

end Parts

/-- What the characters of a path in normal form are: slashes, steps upwards, names. -/
structure Form where
  slashes : Nat
  ups : Nat
  names : List (List Char)

namespace Form

variable {f : Form}

def parts (f : Form) : List (List Char) := List.replicate f.ups above ++ f.names

def chars (f : Form) : List Char := List.replicate f.slashes '/' ++ unite f.parts

/-- There is nothing above the root, and a path that does not start there has some part. -/
structure Sound (f : Form) : Prop where
  slashes : f.slashes ≤ 2
  names : ∀ part ∈ f.names, IsName part
  rooted : f.slashes ≠ 0 → f.ups = 0
  loose : f.slashes = 0 → f.parts ≠ []

theorem Sound.slash_not_mem (h : f.Sound) : ∀ part ∈ f.parts, '/' ∉ part := by
  intro part hpart
  rcases List.mem_append.mp hpart with hup | hname
  · rw [List.eq_of_mem_replicate hup]
    exact slash_not_mem_above
  · exact (h.names part hname).slash

theorem Sound.ne_nil_of_mem (h : f.Sound) : ∀ part ∈ f.parts, part ≠ [] := by
  intro part hpart
  rcases List.mem_append.mp hpart with hup | hname
  · rw [List.eq_of_mem_replicate hup]
    simp [above]
  · exact (h.names part hname).ne_nil

/-- The first character after the slashes is none. -/
theorem Sound.head_unite (h : f.Sound) : (unite f.parts).head? ≠ some '/' := by
  have hslash := h.slash_not_mem
  have hne := h.ne_nil_of_mem
  generalize f.parts = parts at hslash hne
  cases parts with
  | nil => simp [unite]
  | cons first parts =>
    cases first with
    | nil => exact absurd rfl (hne [] List.mem_cons_self)
    | cons c first =>
      have hc := (not_or.mp (mt List.mem_cons.mpr (hslash _ List.mem_cons_self))).1
      cases parts with
      | nil =>
        rw [unite_singleton]
        simpa using Ne.symm hc
      | cons second parts =>
        rw [unite_cons_cons]
        simpa using Ne.symm hc

theorem rootSlashes_append {p : List Char} {slashes : Nat} (hslashes : slashes ≤ 2)
    (hp : p.head? ≠ some '/') : rootSlashes (List.replicate slashes '/' ++ p) = slashes := by
  obtain rfl | rfl | rfl : slashes = 0 ∨ slashes = 1 ∨ slashes = 2 := by omega
  all_goals
    cases p with
    | nil => rfl
    | cons c p =>
      have hc : c ≠ '/' := by simpa using hp
      simp [rootSlashes, hc, List.replicate]

theorem Sound.rootSlashes_eq (h : f.Sound) : rootSlashes f.chars = f.slashes :=
  rootSlashes_append h.slashes h.head_unite

theorem Sound.normalParts_eq (h : f.Sound) : normalParts f.chars = f.parts := by
  unfold normalParts
  rw [h.rootSlashes_eq, chars, segments_slashes, List.foldl_append, foldl_enter_nils]
  by_cases hparts : f.parts = []
  · rw [hparts]
    rfl
  rw [segments_unite hparts h.slash_not_mem, parts, List.foldl_append]
  by_cases hroot : f.slashes = 0
  · have hloose : (f.slashes != 0) = false := by simp [hroot]
    rw [hloose, foldl_enter_above, foldl_enter_names h.names]
    simp
  · rw [h.rooted hroot, List.replicate_zero, List.foldl_nil, foldl_enter_names h.names]
    simp

theorem Sound.chars_ne_nil (h : f.Sound) : f.chars ≠ [] := by
  intro hnil
  obtain ⟨hslashes, hunite⟩ := List.append_eq_nil_iff.mp hnil
  have hroot : f.slashes = 0 := by simpa using hslashes
  have hne := h.loose hroot
  have hsegments := segments_unite hne h.slash_not_mem
  rw [hunite] at hsegments
  exact h.ne_nil_of_mem [] (hsegments ▸ List.mem_cons_self) rfl

theorem Sound.normalChars_eq (h : f.Sound) : normalChars f.chars = f.chars := by
  unfold normalChars
  rw [h.rootSlashes_eq, h.normalParts_eq]
  have hfold : List.replicate f.slashes '/' ++ unite f.parts = f.chars := rfl
  rw [hfold]
  cases hchars : f.chars with
  | nil => exact absurd hchars h.chars_ne_nil
  | cons c cs => rfl

theorem Sound.isNormal (h : f.Sound) : IsNormal (String.ofList f.chars) := by
  rw [IsNormal, normalize, String.toList_ofList, h.normalChars_eq]

end Form

theorem rootSlashes_le (p : List Char) : rootSlashes p ≤ 2 := by
  unfold rootSlashes
  split <;> omega

theorem rootSlashes_ne_zero_iff (p : List Char) : rootSlashes p ≠ 0 ↔ p.head? = some '/' := by
  cases p with
  | nil => simp [rootSlashes]
  | cons c p =>
    by_cases hc : c = '/'
    · subst hc
      have hone : rootSlashes ('/' :: p) ≠ 0 := by
        unfold rootSlashes
        split
        · omega
        · omega
        · omega
        · next h => exact absurd rfl (h p)
      simpa using hone
    · simp [rootSlashes, hc]

/-- A path is the current directory in disguise, or has a normal form that says where it leads. -/
theorem normalChars_cases (p : List Char) :
    (normalChars p = here ∧ p.head? ≠ some '/') ∨
      ∃ f : Form, f.Sound ∧ normalChars p = f.chars ∧ f.slashes = rootSlashes p := by
  have hstands : Stands (rootSlashes p != 0)
      ((segments p).foldl (enter (rootSlashes p != 0)) []) :=
    stands_foldl (slash_not_mem_segments p) ⟨[], 0, rfl, by simp, fun _ => rfl⟩
  obtain ⟨names, ups, hway, hnames, hups⟩ := hstands
  have hparts : normalParts p = List.replicate ups above ++ names.reverse := by
    rw [normalParts, hway]
    simp
  let f : Form := ⟨rootSlashes p, ups, names.reverse⟩
  have hchars : List.replicate (rootSlashes p) '/' ++ unite (normalParts p) = f.chars := by
    rw [hparts]
    rfl
  by_cases hempty : f.slashes = 0 ∧ f.parts = []
  · have hnil : f.chars = [] := by rw [Form.chars, hempty.1, hempty.2]; rfl
    refine .inl ⟨?_, ?_⟩
    · rw [normalChars, hchars, hnil]
    · intro hhead
      exact (rootSlashes_ne_zero_iff p).mpr hhead hempty.1
  · have hsound : f.Sound := by
      refine ⟨rootSlashes_le p, fun part hpart => hnames part (List.mem_reverse.mp hpart), ?_, ?_⟩
      · intro hroot
        exact hups (by simpa using hroot)
      · intro hroot hnil
        exact hempty ⟨hroot, hnil⟩
    refine .inr ⟨f, hsound, ?_, rfl⟩
    rw [normalChars, hchars]
    cases hf : f.chars with
    | nil => exact absurd hf hsound.chars_ne_nil
    | cons c cs => rfl

theorem isNormal_normalize (p : String) : IsNormal (normalize p) := by
  rcases normalChars_cases p.toList with ⟨hhere, -⟩ | ⟨f, hf, hchars, -⟩
  · rw [normalize, hhere]
    rfl
  · rw [normalize, hchars]
    exact hf.isNormal

theorem isNormal_join (first : String) (rest : List String) : IsNormal (join first rest) :=
  isNormal_normalize _

theorem isAbsolute_iff (p : String) : isAbsolute p = true ↔ p.toList.head? = some '/' := by
  simp [isAbsolute]

/-- A path from the root in normal form is one or two slashes with names after them. -/
theorem exists_form_of_normal {p : String} (hp : IsNormal p) (habs : isAbsolute p) :
    ∃ f : Form, f.Sound ∧ p.toList = f.chars ∧ f.slashes ≠ 0 ∧ f.parts = f.names := by
  have hhead := (isAbsolute_iff p).mp habs
  have hnormal : normalChars p.toList = p.toList := by
    have h := congrArg String.toList hp
    rwa [normalize, String.toList_ofList] at h
  rcases normalChars_cases p.toList with ⟨-, hloose⟩ | ⟨f, hf, hchars, hslashes⟩
  · exact absurd hhead hloose
  · have hroot : f.slashes ≠ 0 := by
      rw [hslashes]
      exact (rootSlashes_ne_zero_iff _).mpr hhead
    refine ⟨f, hf, hnormal.symm.trans hchars, hroot, ?_⟩
    rw [Form.parts, hf.rooted hroot]
    rfl

theorem isAbsolute_normalize {p : String} (h : isAbsolute p) : isAbsolute (normalize p) := by
  have hhead := (isAbsolute_iff p).mp h
  rcases normalChars_cases p.toList with ⟨-, hloose⟩ | ⟨f, -, hchars, hslashes⟩
  · exact absurd hhead hloose
  · have hroot : f.slashes ≠ 0 := by
      rw [hslashes]
      exact (rootSlashes_ne_zero_iff _).mpr hhead
    obtain ⟨slashes, hs⟩ := Nat.exists_eq_succ_of_ne_zero hroot
    rw [isAbsolute_iff, normalize, String.toList_ofList, hchars, Form.chars, hs,
      List.replicate_succ]
    rfl

theorem isAbsolute_append {p : String} (h : isAbsolute p) (q : String) :
    isAbsolute (append p q) := by
  have hhead := (isAbsolute_iff p).mp h
  unfold append
  split
  · assumption
  · rw [isAbsolute_iff] at *
    cases hp : p.toList with
    | nil => simp [hp] at hhead
    | cons c cs =>
      rw [hp] at hhead
      split
      · simpa [hp] using hhead
      · simpa [hp] using hhead

theorem isAbsolute_parent {p : String} (h : isAbsolute p) : isAbsolute (parent p) := by
  rw [isAbsolute_iff] at h
  -- read backwards, the path ends with the slash at the root, which neither cut goes past
  obtain ⟨cs, hcs⟩ : ∃ cs, p.toList.reverse = cs ++ ['/'] := by
    cases hp : p.toList with
    | nil => simp [hp] at h
    | cons c cs =>
      rw [hp] at h
      obtain rfl : c = '/' := by simpa using h
      exact ⟨cs.reverse, by simp⟩
  have hcut : ∃ ds, p.toList.reverse.dropWhile (· != '/') = ds ++ ['/'] := by
    rw [hcs, List.dropWhile_append]
    split
    · exact ⟨[], rfl⟩
    · exact ⟨_, rfl⟩
  obtain ⟨ds, hds⟩ := hcut
  rw [isAbsolute_iff, parent, hds]
  by_cases hall : (ds ++ ['/']).all (· == '/')
  · simp [hall]
  · have hkept : ∃ es, (ds ++ ['/']).dropWhile (· == '/') = es ++ ['/'] := by
      rw [List.dropWhile_append]
      split
      · next hempty =>
        refine absurd ?_ hall
        have hslashes := List.dropWhile_eq_nil_iff.mp (List.isEmpty_iff.mp hempty)
        simpa using hslashes
      · exact ⟨_, rfl⟩
    obtain ⟨es, hes⟩ := hkept
    simp [hall, hes]

end SolidityServer.Path

namespace SolidityServer.Project

variable {p : Project} {specifier importer : String}

/-- Only an absolute specifier can lead to a path that is not in normal form: it is kept as it is
written. -/
theorem importTarget_cases (p : Project) (specifier importer : String) :
    (Path.isAbsolute specifier ∧ p.importTarget specifier importer = specifier) ∨
      Path.IsNormal (p.importTarget specifier importer) := by
  unfold importTarget
  by_cases habs : Path.isAbsolute specifier
  · exact .inl ⟨habs, if_pos habs⟩
  · refine .inr ?_
    rw [if_neg habs]
    split
    · exact Path.isNormal_join _ _
    · exact Path.isNormal_join _ _

theorem isNormal_importTarget (h : Path.isAbsolute specifier → Path.IsNormal specifier) :
    Path.IsNormal (p.importTarget specifier importer) := by
  rcases p.importTarget_cases specifier importer with ⟨habs, htarget⟩ | hnormal
  · rw [htarget]
    exact h habs
  · exact hnormal

theorem isAbsolute_importTarget (hroot : Path.isAbsolute p.root)
    (himporter : Path.isAbsolute importer) :
    Path.isAbsolute (p.importTarget specifier importer) := by
  unfold importTarget
  split
  · assumption
  · split
    · exact Path.isAbsolute_normalize (Path.isAbsolute_append (Path.isAbsolute_parent himporter) _)
    · exact Path.isAbsolute_normalize (Path.isAbsolute_append (Path.isAbsolute_append hroot _) _)

theorem isAbsolute_rootedAt (root dependencyDirectory : String) :
    Path.isAbsolute (rootedAt root dependencyDirectory).root :=
  Path.isAbsolute_normalize (Path.isAbsolute_append rfl root)

end SolidityServer.Project
