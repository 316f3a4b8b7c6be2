import SolidityServer.Proofs.NormalPaths
import SolidityServer.Proofs.OpenedFiles

/-! Where an import leads. A link goes from the path of the document as it is given, and the module
loader from its normal form; both come to the same file, since only the directory counts and the
normal form stays in it. -/

namespace SolidityServer

namespace Path

variable {dir name rest : List Char} {p q : String}

theorem segments_append (a b : List Char) :
    segments (a ++ '/' :: b) = segments a ++ segments b := by
  induction a with
  | nil => exact segments_slash b
  | cons c a ih =>
    obtain ⟨part, parts, ha⟩ := List.exists_cons_of_ne_nil (segments_ne_nil a)
    have hwhole : segments (a ++ '/' :: b) = part :: (parts ++ segments b) := by rw [ih, ha]; rfl
    by_cases hc : c = '/'
    · rw [hc, List.cons_append, segments_slash, segments_slash, hwhole, ha]
      rfl
    · rw [List.cons_append, segments_cons hc hwhole, segments_cons hc ha]
      rfl

theorem unite_append_singleton {parts : List (List Char)} (h : parts ≠ []) (part : List Char) :
    unite (parts ++ [part]) = unite parts ++ '/' :: part := by
  induction parts with
  | nil => exact absurd rfl h
  | cons first parts ih =>
    cases parts with
    | nil => rw [List.singleton_append, unite_cons_cons, unite_singleton, unite_singleton]
    | cons second parts =>
      rw [List.cons_append, List.cons_append, unite_cons_cons, unite_cons_cons,
        ← List.cons_append, ih (List.cons_ne_nil second parts), List.append_assoc]
      rfl

/-- Where a path from the root leads, the way read backwards. -/
def way (p : List Char) : List (List Char) := (segments p).foldl (enter true) []

theorem way_append (a b : List Char) :
    way (a ++ '/' :: b) = (segments b).foldl (enter true) (way a) := by
  rw [way, segments_append, List.foldl_append, way]

theorem way_name (h : IsName name) (dir : List Char) :
    way (dir ++ '/' :: name) = name :: way dir := by
  rw [way_append, segments_of_slash_not_mem h.slash]
  exact enter_name h (way dir)

theorem way_slashes (dir : List Char) (slashes : Nat) :
    way (dir ++ List.replicate slashes '/') = way dir := by
  cases slashes with
  | zero => rw [List.replicate_zero, List.append_nil]
  | succ slashes =>
    have hnils := segments_slashes slashes []
    rw [List.append_nil] at hnils
    rw [List.replicate_succ, way_append, hnils, List.foldl_append, foldl_enter_nils]
    rfl

theorem normalParts_of_rooted {p : List Char} (h : p.head? = some '/') :
    normalParts p = (way p).reverse := by
  have hrooted : (rootSlashes p != 0) = true := by
    simpa using (rootSlashes_ne_zero_iff p).mpr h
  rw [normalParts, hrooted, way]

/-- The form of a path from the root, read off the path itself. -/
def rootedForm (p : List Char) : Form := ⟨rootSlashes p, 0, normalParts p⟩

theorem rootedForm_sound {p : List Char} (h : p.head? = some '/') : (rootedForm p).Sound := by
  obtain ⟨names, ups, hway, hnames, hups⟩ : Stands true (way p) :=
    stands_foldl (slash_not_mem_segments p) ⟨[], 0, rfl, by simp, fun _ => rfl⟩
  rw [hups rfl, List.replicate_zero, List.append_nil] at hway
  refine ⟨rootSlashes_le p, fun part hpart => ?_, fun _ => rfl, fun hzero => ?_⟩
  · refine hnames part ?_
    have hmem : part ∈ normalParts p := hpart
    rwa [normalParts_of_rooted h, List.mem_reverse, hway] at hmem
  · exact absurd hzero ((rootSlashes_ne_zero_iff p).mpr h)

theorem normalChars_of_rooted {p : List Char} (h : p.head? = some '/') :
    normalChars p = (rootedForm p).chars := by
  have hchars : List.replicate (rootSlashes p) '/' ++ unite (normalParts p) =
      (rootedForm p).chars := rfl
  rw [normalChars, hchars]
  cases hcs : (rootedForm p).chars with
  | nil => exact absurd hcs (rootedForm_sound h).chars_ne_nil
  | cons c cs => rfl

/-- How many slashes a normal path starts with depends on how many there are, not on what follows
them. -/
theorem rootSlashes_replicate {a b : List Char} (ha : a.head? ≠ some '/') (hb : b.head? ≠ some '/')
    (slashes : Nat) : rootSlashes (List.replicate slashes '/' ++ a) =
      rootSlashes (List.replicate slashes '/' ++ b) := by
  by_cases hfew : slashes ≤ 2
  · rw [Form.rootSlashes_append hfew ha, Form.rootSlashes_append hfew hb]
  · obtain ⟨more, rfl⟩ : ∃ more, slashes = more + 3 := ⟨slashes - 3, by omega⟩
    rfl

/-- Every path is the slashes that it starts with and then a rest that does not go on with one. -/
theorem exists_slashes (p : List Char) :
    ∃ slashes rest, p = List.replicate slashes '/' ++ rest ∧ rest.head? ≠ some '/' := by
  refine ⟨(p.takeWhile (· == '/')).length, p.dropWhile (· == '/'), ?_, ?_⟩
  · have htaken : p.takeWhile (· == '/') =
        List.replicate (p.takeWhile (· == '/')).length '/' :=
      List.eq_replicate_of_mem fun c hc => by simpa using List.mem_takeWhile_imp hc
    rw [← htaken, List.takeWhile_append_dropWhile]
  · have hhead := List.head?_dropWhile_not (· == '/') p
    intro heq
    rw [heq] at hhead
    simp at hhead

/-- A directory without the slashes at its end, unless there is nothing else. -/
structure Trims (dir short : List Char) : Prop where
  slashes : ∃ k, dir = short ++ List.replicate k '/'
  bare : (∀ c ∈ short, c = '/') → dir = short

theorem Trims.way_eq {short : List Char} (h : Trims dir short) : way short = way dir := by
  obtain ⟨k, rfl⟩ := h.slashes
  exact (way_slashes short k).symm

theorem Trims.rootSlashes_eq {short a b : List Char} (h : Trims dir short)
    (ha : a.head? ≠ some '/') (hb : b.head? ≠ some '/') :
    rootSlashes (short ++ '/' :: a) = rootSlashes (dir ++ '/' :: b) := by
  obtain ⟨k, hk⟩ := h.slashes
  obtain ⟨n, tail, hshort, htail⟩ := exists_slashes short
  cases tail with
  | nil =>
    rw [List.append_nil] at hshort
    have hone : ∀ more,
        List.replicate n '/' ++ '/' :: more = List.replicate (n + 1) '/' ++ more := by
      intro more
      rw [List.replicate_succ', List.append_assoc]
      rfl
    rw [h.bare fun c hc => List.eq_of_mem_replicate (hshort ▸ hc), hshort, hone, hone]
    exact rootSlashes_replicate ha hb (n + 1)
  | cons c tail =>
    have hc : ∀ more : List Char, (c :: tail ++ more).head? ≠ some '/' := fun more => htail
    rw [hk, hshort, List.append_assoc, List.append_assoc, List.append_assoc]
    exact rootSlashes_replicate (hc _) (hc _) n

theorem trims_dropWhile (hdir : ∃ c ∈ dir, c ≠ '/') :
    Trims dir (dir.reverse.dropWhile (· == '/')).reverse ∧
      (dir.reverse.dropWhile (· == '/')).head? ≠ some '/' ∧
      dir.reverse.dropWhile (· == '/') ≠ [] := by
  obtain ⟨k, rest, hreverse, hrest⟩ := exists_slashes dir.reverse
  have hdrop : dir.reverse.dropWhile (· == '/') = rest := by
    have hslashes : ∀ c ∈ List.replicate k '/', (c == '/') = true := by
      intro c hc
      rw [List.eq_of_mem_replicate hc]
      rfl
    rw [hreverse, List.dropWhile_append_of_pos hslashes]
    cases rest with
    | nil => rfl
    | cons c rest =>
      have hc : ¬(c == '/') = true := by simpa using hrest
      exact List.dropWhile_cons_of_neg hc
  have hwhole : dir = rest.reverse ++ List.replicate k '/' := by
    rw [← List.reverse_reverse dir, hreverse, List.reverse_append, List.reverse_replicate]
  have hne : rest ≠ [] := by
    rintro rfl
    obtain ⟨c, hc, hslash⟩ := hdir
    rw [hwhole] at hc
    exact hslash (List.eq_of_mem_replicate hc)
  rw [hdrop]
  refine ⟨⟨⟨k, hwhole⟩, fun hall => ?_⟩, hrest, hne⟩
  cases rest with
  | nil => exact absurd rfl hne
  | cons c rest =>
    exact absurd (congrArg some (hall c (List.mem_reverse.mpr List.mem_cons_self))) hrest

/-- Going on from the directory of a file replaces its name. -/
theorem append_parent (hp : p.toList = dir ++ '/' :: name) (hname : '/' ∉ name)
    (hq : ¬isAbsolute q) :
    ∃ short, Trims dir short ∧ (append (parent p) q).toList = short ++ '/' :: q.toList := by
  have hcut : p.toList.reverse.dropWhile (· != '/') = '/' :: dir.reverse := by
    have hall : ∀ c ∈ name.reverse, (c != '/') = true := by
      intro c hc
      have hne : c ≠ '/' := fun heq => hname (heq ▸ List.mem_reverse.mp hc)
      simpa using hne
    rw [hp, List.reverse_append, List.reverse_cons, List.append_assoc,
      List.dropWhile_append_of_pos hall]
    rfl
  rw [append, if_neg hq, parent, hcut]
  by_cases hdir : ∃ c ∈ dir, c ≠ '/'
  · obtain ⟨htrims, hhead, hne⟩ := trims_dropWhile hdir
    have hall : ¬('/' :: dir.reverse).all (· == '/') = true := by
      obtain ⟨c, hc, hslash⟩ := hdir
      simpa using ⟨c, hc, hslash⟩
    have hdrop : ('/' :: dir.reverse).dropWhile (· == '/') = dir.reverse.dropWhile (· == '/') :=
      List.dropWhile_cons_of_pos rfl
    refine ⟨_, htrims, ?_⟩
    rw [if_neg hall, hdrop]
    rw [if_neg]
    · simp
    · simpa [hne] using hhead
  · have hslashes : ∀ c ∈ dir, c = '/' := by simpa using hdir
    have hall : ('/' :: dir.reverse).all (· == '/') = true := by simpa using hslashes
    refine ⟨dir, ⟨⟨0, by simp⟩, fun _ => rfl⟩, ?_⟩
    rw [if_pos hall, if_pos]
    · simp
    · simp

theorem head_ne_slash_of_not_mem {part : List Char} (h : '/' ∉ part) :
    part.head? ≠ some '/' := fun heq => h (List.mem_of_mem_head? heq)

/-- What goes on from the directory of a file depends on the root and the parts of the file. -/
theorem join_parent (hp : p.toList = dir ++ '/' :: name) (habs : isAbsolute p) (hname : IsName name)
    (hq : ¬isAbsolute q) :
    join (parent p) [q] = String.ofList (List.replicate (rootSlashes p.toList) '/' ++ unite
      ((segments q.toList).foldl (enter true) (normalParts p.toList).reverse.tail).reverse) := by
  obtain ⟨short, htrims, happend⟩ := append_parent hp hname.slash hq
  have hhead := (isAbsolute_iff p).mp habs
  have hslashes : rootSlashes (short ++ '/' :: q.toList) = rootSlashes p.toList := by
    have hqhead : q.toList.head? ≠ some '/' := mt (isAbsolute_iff q).mpr hq
    rw [hp]
    exact htrims.rootSlashes_eq hqhead (head_ne_slash_of_not_mem hname.slash)
  have hrooted : (short ++ '/' :: q.toList).head? = some '/' := by
    rw [← rootSlashes_ne_zero_iff, hslashes, rootSlashes_ne_zero_iff]
    exact hhead
  have hdir : (normalParts p.toList).reverse.tail = way short := by
    rw [normalParts_of_rooted hhead, List.reverse_reverse, hp, way_name hname, List.tail_cons,
      htrims.way_eq]
  calc join (parent p) [q]
      = String.ofList (normalChars (short ++ '/' :: q.toList)) := by
        rw [← happend]
        rfl
    _ = String.ofList (List.replicate (rootSlashes (short ++ '/' :: q.toList)) '/' ++
          unite (normalParts (short ++ '/' :: q.toList))) := by
        rw [normalChars_of_rooted hrooted]
        rfl
    _ = _ := by rw [hslashes, normalParts_of_rooted hrooted, way_append, hdir]

/-- The normal form of a file has its name. -/
theorem normalize_name (hp : p.toList = dir ++ '/' :: name) (habs : isAbsolute p)
    (hname : IsName name) : ∃ dir', (normalize p).toList = dir' ++ '/' :: name := by
  have hhead := (isAbsolute_iff p).mp habs
  have hparts : normalParts p.toList = (way dir).reverse ++ [name] := by
    rw [normalParts_of_rooted hhead, hp, way_name hname, List.reverse_cons]
  obtain ⟨slashes, hslashes⟩ : ∃ slashes, rootSlashes p.toList = slashes + 1 :=
    Nat.exists_eq_succ_of_ne_zero ((rootSlashes_ne_zero_iff p.toList).mpr hhead)
  have hchars : (normalize p).toList =
      List.replicate (slashes + 1) '/' ++ unite ((way dir).reverse ++ [name]) := by
    rw [normalize, String.toList_ofList, normalChars_of_rooted hhead, ← hparts, ← hslashes]
    rfl
  rw [hchars]
  by_cases hdir : (way dir).reverse = []
  · refine ⟨List.replicate slashes '/', ?_⟩
    rw [hdir, List.nil_append, unite_singleton, List.replicate_succ', List.append_assoc]
    rfl
  · exact ⟨List.replicate (slashes + 1) '/' ++ unite (way dir).reverse, by
      rw [unite_append_singleton hdir, List.append_assoc]⟩

theorem join_parent_normalize (hp : p.toList = dir ++ '/' :: name) (habs : isAbsolute p)
    (hname : IsName name) (hq : ¬isAbsolute q) :
    join (parent (normalize p)) [q] = join (parent p) [q] := by
  have hhead := (isAbsolute_iff p).mp habs
  have hsound := rootedForm_sound hhead
  have hchars : (normalize p).toList = (rootedForm p.toList).chars := by
    rw [normalize, String.toList_ofList, normalChars_of_rooted hhead]
  obtain ⟨dir', hnormal⟩ := normalize_name hp habs hname
  rw [join_parent hnormal (isAbsolute_normalize habs) hname hq, join_parent hp habs hname hq,
    hchars, hsound.rootSlashes_eq, hsound.normalParts_eq]
  rfl

theorem exists_dir (habs : isAbsolute p) : ∃ dir, p.toList = dir ++ '/' :: (lastName p).toList := by
  have hslash : '/' ∈ p.toList.reverse :=
    List.mem_reverse.mpr (List.mem_of_mem_head? ((isAbsolute_iff p).mp habs))
  have hsplit : p.toList.reverse.takeWhile (· != '/') ++ p.toList.reverse.dropWhile (· != '/') =
    p.toList.reverse := List.takeWhile_append_dropWhile
  cases hrest : p.toList.reverse.dropWhile (· != '/') with
  | nil =>
    have hnone := List.dropWhile_eq_nil_iff.mp hrest '/' hslash
    simp at hnone
  | cons c rest =>
    have hc : c = '/' := by
      have hhead := List.head?_dropWhile_not (· != '/') p.toList.reverse
      rw [hrest] at hhead
      simpa using hhead
    rw [hrest, hc] at hsplit
    have hwhole := congrArg List.reverse hsplit
    rw [List.reverse_reverse, List.reverse_append, List.reverse_cons, List.append_assoc] at hwhole
    refine ⟨rest.reverse, ?_⟩
    rw [lastName, String.toList_ofList]
    exact hwhole.symm

end Path

/-- An import means the same file from a path and from its normal form. -/
theorem Project.importTarget_normalize (p : Project) (specifier : String) {path : String}
    (habs : Path.isAbsolute path) (hname : Path.IsName (Path.lastName path).toList) :
    p.importTarget specifier (Path.normalize path) = p.importTarget specifier path := by
  obtain ⟨dir, hdir⟩ := Path.exists_dir habs
  unfold importTarget
  by_cases hspecifier : Path.isAbsolute specifier
  · rw [if_pos hspecifier, if_pos hspecifier]
  · rw [if_neg hspecifier, if_neg hspecifier, Path.join_parent_normalize hdir habs hname hspecifier]

namespace Query

variable {w : World} {c : Context} {b : Buffer} {n : Node} {offset : Int} {path specifier : String}

/-- The import statement of a document at an offset. -/
def importAt? (w : World) (b : Buffer) (offset : Int) : Option Node :=
  ((parseProgram w.trees b.text).bind fun program =>
    nodeAt? (program.get .body).nodes offset).filter (·.kind == .importStatement)

/-- The specifier of an import statement. -/
def specifierOf (n : Node) : String := (n.get .source).text?.getD ""

theorem run_definition_import (h : importAt? w b offset = some n) :
    ∃ c, (definition b offset).run w {} = (resolveImport b n).run w c := by
  obtain ⟨hnode, hkind⟩ := Option.filter_eq_some_iff.mp h
  obtain ⟨program, hprogram, hn⟩ := Option.bind_eq_some_iff.mp hnode
  obtain ⟨c, hrun, -⟩ := (statements_yields (w := w) (c := .start b) 0).run_eq
  rw [Context.statements_start, hprogram] at hrun
  refine ⟨c, ?_⟩
  rw [definition, run_bind_ok (run_ofBuffer w b), run_bind_ok hrun]
  simp only [Option.map_some, hn, hkind, if_true]

/-- An import is a link to its target if that is a file with an address. -/
theorem resolveImport_links {target : String}
    (htarget : w.project.importTarget (specifierOf n) (b.path.getD "") = target) :
    ((∃ ls d, (resolveImport b n).run w c = (.ok ls, d) ∧ ls ≠ []) ↔
      w.workspace.disk.isFile target = .ok true ∧ (Uri.ofPath? target).isSome) ∧
    ∀ ls d l, (resolveImport b n).run w c = (.ok ls, d) → l ∈ ls →
      Uri.ofPath? target = some l.uri := by
  unfold specifierOf at htarget
  rw [resolveImport, run_bind_ok run_read, htarget, run_bind, run_isFile]
  cases hfile : w.workspace.disk.isFile target with
  | error e => simp
  | ok found =>
    cases found with
    | false =>
      constructor
      · constructor
        · rintro ⟨ls, d, hrun, hne⟩
          cases hrun
          exact absurd rfl hne
        · rintro ⟨hfound, -⟩
          cases hfound
      · intro ls d l hrun hl
        cases hrun
        cases hl
    | true =>
      simp only [if_true, true_and]
      cases huri : Uri.ofPath? target with
      | none =>
        constructor
        · constructor
          · rintro ⟨ls, d, hrun, -⟩
            cases hrun
          · intro haddress
            cases haddress
        · intro ls d l hrun
          cases hrun
      | some uri =>
        constructor
        · exact ⟨fun _ => rfl, fun _ => ⟨_, _, rfl, List.cons_ne_nil _ _⟩⟩
        · intro ls d l hrun hl
          cases hrun
          rw [List.mem_singleton.mp hl]
          rfl

/-- A file other than the document is loaded under its target. -/
theorem load_start
    (htarget : w.project.importTarget specifier path ≠ Path.normalize (b.path.getD "")) :
    let target := w.project.importTarget specifier path
    ((∃ m d, (load specifier path).run w (.start b) = (.ok (some m), d)) ↔
      w.workspace.disk.isFile target = .ok true) ∧
    ∀ m d, (load specifier path).run w (.start b) = (.ok (some m), d) →
      (d.moduleOf m).path = target := by
  intro target
  have hunknown : ∀ {k}, (Context.start b).known? target ≠ some k := fun hk =>
    htarget (Context.known?_start hk).1
  obtain ⟨r, d, hrun, hloads⟩ := load_run (w := w) (c := .start b) specifier path
  have hfiled := hloads.filed (Context.valid_start b) (Context.filed_start b)
  rw [hrun]
  cases hloads with
  | known h => exact absurd h hunknown
  | failed h hf => simp [target, hf]
  | missing h hf log => simp [target, hf]
  | added h hf =>
    refine ⟨⟨fun _ => hf, fun _ => ⟨_, _, rfl⟩⟩, ?_⟩
    rintro m d ⟨⟩
    exact hfiled _ _ (by rw [Context.known?_add h, if_pos rfl])

/-- An import means the same file to a query on it and to the module loader. So where that file is
not the document itself, the query finds a location if and only if the loader finds a module whose
path has an address, and that is the address of the location. -/
theorem import_link_follows_load (hpath : b.path = some path) (habs : Path.isAbsolute path)
    (hname : Path.IsName (Path.lastName path).toList) :
    (∀ (p : Project) (specifier : String),
      p.importTarget specifier path = p.importTarget specifier (Path.normalize path)) ∧
    ∀ w offset n, importAt? w b offset = some n →
      w.project.importTarget (specifierOf n) (Path.normalize path) ≠ Path.normalize path →
      ((∃ ls c, (definition b offset).run w {} = (.ok ls, c) ∧ ls ≠ []) ↔
        ∃ m d, (load (specifierOf n) (Path.normalize path)).run w (.start b) = (.ok (some m), d) ∧
          (Uri.ofPath? (d.moduleOf m).path).isSome) ∧
      ∀ ls c l m d, (definition b offset).run w {} = (.ok ls, c) → l ∈ ls →
        (load (specifierOf n) (Path.normalize path)).run w (.start b) = (.ok (some m), d) →
        Uri.ofPath? (d.moduleOf m).path = some l.uri := by
  have hsame : ∀ (p : Project) (specifier : String),
      p.importTarget specifier path = p.importTarget specifier (Path.normalize path) :=
    fun p specifier => (p.importTarget_normalize specifier habs hname).symm
  refine ⟨hsame, fun w offset n hn hother => ?_⟩
  have hforeign : w.project.importTarget (specifierOf n) (Path.normalize path) ≠
      Path.normalize (b.path.getD "") := by
    rw [hpath]
    exact hother
  have htarget : w.project.importTarget (specifierOf n) (b.path.getD "") =
      w.project.importTarget (specifierOf n) (Path.normalize path) := by
    rw [hpath]
    exact hsame w.project (specifierOf n)
  obtain ⟨c, hrun⟩ := run_definition_import hn
  obtain ⟨hlinked, huri⟩ := resolveImport_links (c := c) htarget
  obtain ⟨hloaded, hmodule⟩ := load_start hforeign
  rw [hrun]
  constructor
  · rw [hlinked, ← hloaded]
    constructor
    · rintro ⟨⟨m, d, hload⟩, haddress⟩
      exact ⟨m, d, hload, hmodule m d hload ▸ haddress⟩
    · rintro ⟨m, d, hload, haddress⟩
      exact ⟨⟨m, d, hload⟩, hmodule m d hload ▸ haddress⟩
  · intro ls c' l m d hlocations hl hload
    rw [hmodule m d hload]
    exact huri ls c' l hlocations hl

/-- A document under a path that goes to and fro. -/
def detouredDocument : Buffer where
  uri := "file:///work/./src//x/../a.sol"
  path := some "/work/./src//x/../a.sol"
  text := "import './b.sol';"
  encoding := .utf8

def detouredWorld : World := .ofFiles "/work" [("/work/src/b.sol", "")]

theorem import_link_of_detouredDocument :
    Path.IsName (Path.lastName "/work/./src//x/../a.sol").toList ∧
      ∃ n, importAt? detouredWorld detouredDocument 3 = some n ∧ specifierOf n = "./b.sol" ∧
        detouredWorld.project.importTarget "./b.sol" "/work/src/a.sol" ≠ "/work/src/a.sol" ∧
        ∃ l ls c, (definition detouredDocument 3).run detouredWorld {} = (.ok (l :: ls), c) ∧
          l.uri = "file:///work/src/b.sol" := by
  have hname : Path.IsName (Path.lastName "/work/./src//x/../a.sol").toList := by
    constructor <;> decide
  obtain ⟨hnode, hother, hloads, hdirect⟩ :
      (importAt? detouredWorld detouredDocument 3).map specifierOf = some "./b.sol" ∧
      detouredWorld.project.importTarget "./b.sol" "/work/src/a.sol" ≠ "/work/src/a.sol" ∧
      ((load "./b.sol" "/work/src/a.sol").run detouredWorld (.start detouredDocument)).1 =
        .ok (some 1) ∧
      Uri.ofPath? (((load "./b.sol" "/work/src/a.sol").run detouredWorld
        (.start detouredDocument)).2.moduleOf 1).path = some "file:///work/src/b.sol" := by
    decide +kernel
  have hnormal : Path.normalize "/work/./src//x/../a.sol" = "/work/src/a.sol" := by decide +kernel
  obtain ⟨n, hn, hspecifier⟩ := Option.map_eq_some_iff.mp hnode
  have hload := run_of_fst hloads
  obtain ⟨hlinked, huri⟩ := (import_link_follows_load (b := detouredDocument) rfl rfl hname).2
    detouredWorld 3 n hn (by rw [hspecifier, hnormal]; exact hother)
  rw [hspecifier, hnormal] at hlinked huri
  obtain ⟨ls, c, hrun, hne⟩ := hlinked.mpr ⟨1, _, hload, by rw [hdirect]; rfl⟩
  obtain ⟨l, ls, rfl⟩ := List.exists_cons_of_ne_nil hne
  have haddress := huri _ c l 1 _ hrun List.mem_cons_self hload
  exact ⟨hname, n, hn, hspecifier, hother, l, ls, c, hrun,
    Option.some.inj (haddress.symm.trans hdirect)⟩

/-- An import of a file whose path has no address. -/
def unaddressedDocument : Buffer where
  uri := "file:///work/a.sol"
  path := some "/work/a.sol"
  text := "import \"//b.sol\";\n"
  encoding := .utf8

def unaddressedWorld : World := .ofFiles "/work" [("//b.sol", "")]

theorem loaded_import_without_link :
    Path.isAbsolute "/work/a.sol" ∧ Path.IsName (Path.lastName "/work/a.sol").toList ∧
      (importAt? unaddressedWorld unaddressedDocument 3).map specifierOf = some "//b.sol" ∧
      unaddressedWorld.project.importTarget "//b.sol" "/work/a.sol" ≠ "/work/a.sol" ∧
      ((load "//b.sol" "/work/a.sol").run unaddressedWorld (.start unaddressedDocument)).1 =
        .ok (some 1) ∧
      ¬∃ ls c, (definition unaddressedDocument 3).run unaddressedWorld {} = (.ok ls, c) ∧
        ls ≠ [] := by
  obtain ⟨hnode, hother, hload, hfails⟩ :
      (importAt? unaddressedWorld unaddressedDocument 3).map specifierOf = some "//b.sol" ∧
      unaddressedWorld.project.importTarget "//b.sol" "/work/a.sol" ≠ "/work/a.sol" ∧
      ((load "//b.sol" "/work/a.sol").run unaddressedWorld (.start unaddressedDocument)).1 =
        .ok (some 1) ∧
      ((definition unaddressedDocument 3).run unaddressedWorld {}).1.toOption.isNone := by
    decide +kernel
  refine ⟨rfl, by constructor <;> decide, hnode, hother, hload, ?_⟩
  rintro ⟨ls, c, hrun, -⟩
  rw [hrun] at hfails
  cases hfails

end Query

end SolidityServer
