import SolidityServer.Proofs.Addresses
import SolidityServer.Proofs.DocumentOutlook
import SolidityServer.Proofs.TwinRuns

/-! Unsaved content. What stands in the editor wins over the disk: a query gives the same answer
whatever the disk holds at the paths of open documents. -/

namespace SolidityServer

namespace Workspace

variable {w w' : Workspace} {path : String}

/-- Whether the document at the address of a path is open. -/
def isOpenAt (w : Workspace) (path : String) : Bool :=
  ((Uri.ofPath? path).bind w.document?).isSome

/-- The same files, with contents that differ at most where a document is open. -/
structure DiffersWhereOpen (w w' : Workspace) : Prop where
  documents : w'.documents = w.documents
  encoding : w'.encoding = w.encoding
  broken : w'.disk.broken = w.disk.broken
  files : ∀ path, (w'.disk.file? path).isSome = (w.disk.file? path).isSome
  contents : ∀ path, Path.IsNormal path → w'.disk.file? path ≠ w.disk.file? path → w.isOpenAt path

theorem DiffersWhereOpen.isFile (h : w.DiffersWhereOpen w') (path : String) :
    w'.disk.isFile path = w.disk.isFile path := by
  rw [Disk.isFile, Disk.isFile, h.broken, h.files]

theorem bufferAt_congr (hdocuments : w'.documents = w.documents)
    (hencoding : w'.encoding = w.encoding)
    (hread : ∀ uri, Uri.ofPath? path = some uri → w.document? uri = none →
      w'.disk.file? (Uri.documentPath uri) = w.disk.file? (Uri.documentPath uri)) :
    w'.bufferAt path = w.bufferAt path := by
  unfold bufferAt
  cases huri : Uri.ofPath? path with
  | none => rfl
  | some uri =>
    have hdocument : w'.document? uri = w.document? uri := by
      rw [document?, document?, hdocuments]
    dsimp only
    rw [Workspace.read, Workspace.read, hdocument, hencoding]
    cases hd : w.document? uri with
    | some d => rfl
    | none => rw [Disk.read, Disk.read, hread uri huri hd]

/-- A file that is not open is read at a path that has its address, so at one that is not open. -/
theorem DiffersWhereOpen.bufferAt (h : w.DiffersWhereOpen w') (hpath : Path.IsCanonical path) :
    w'.bufferAt path = w.bufferAt path := by
  refine bufferAt_congr h.documents h.encoding fun uri huri hnone => ?_
  obtain ⟨hnormal, haddress⟩ := Path.documentPath_ofPath? hpath.2 hpath.1 huri
  by_contra hne
  have hopen := h.contents _ hnormal hne
  rw [isOpenAt, haddress, Option.bind_some, hnone] at hopen
  cases hopen

theorem DiffersWhereOpen.nowhere (h : w.DiffersWhereOpen w') : w'.bufferAt "" = w.bufferAt "" := by
  refine bufferAt_congr h.documents h.encoding fun uri huri _ => ?_
  have hroot : (Uri.ofPath? "").map Uri.documentPath = some "/" := by decide +kernel
  rw [huri] at hroot
  rw [Option.some.inj hroot]
  rfl

/-- Saving over a file that is open. -/
theorem differsWhereOpen_write (hnormal : Path.IsNormal path) (hfile : (w.disk.file? path).isSome)
    (hopen : w.isOpenAt path) (bytes : ByteArray) :
    w.DiffersWhereOpen { w with disk := w.disk.write path bytes } := by
  have hlookup : (w.disk.files.lookup path).isSome := by
    unfold Disk.file? at hfile
    split at hfile
    · cases hfile
    · rwa [hnormal] at hfile
  have hwrite : ∀ key, (w.disk.write path bytes).files.lookup key =
      if key = path then some bytes else w.disk.files.lookup key := by
    intro key
    rw [Disk.write, List.lookup_cons, lookup_filter_ne]
    by_cases hkey : key = path
    · simp [hkey]
    · have hne : (key == path) = false := by simpa using hkey
      simp [hne, hkey]
  refine ⟨rfl, rfl, rfl, fun p => ?_, fun p hp hne => ?_⟩
  · unfold Disk.file?
    split
    · rfl
    · dsimp only
      rw [hwrite]
      split
      next hkey => rw [hkey, hlookup]; rfl
      next => rfl
  · have hp' : p = path := by
      by_contra hother
      refine hne ?_
      unfold Disk.file?
      split
      · rfl
      · dsimp only
        rw [hwrite, hp, if_neg hother]
    rw [hp']
    exact hopen

end Workspace

namespace Query

variable {w w' : Workspace} {b : Buffer} {path : String}

/-- Unsaved content wins over the disk. Where two disks have the same files and differ only at paths
that are open in the editor, a query gives the same result and learns the same, whichever document
it is about. -/
theorem definition_ignores_saved_content (h : w.DiffersWhereOpen w') (trees : Trees)
    (root dependencyDirectory : String) (hpath : b.path = some path)
    (habsolute : Path.isAbsolute path) (hnormal : Path.IsNormal path)
    (hspecifiers : ∀ program, parseProgram trees b.text = some program →
      ∀ specifier ∈ importsOf (program.get .body).nodes,
        Path.isAbsolute specifier → Path.IsNormal specifier) (offset : Int) :
    let project := Project.rootedAt root dependencyDirectory
    (definition b offset).run { project, workspace := w', trees } {} =
      (definition b offset).run { project, workspace := w, trees } {} ∧
    w'.bufferAt path = w.bufferAt path := by
  intro project
  have htwins :
      World.Twins { project, workspace := w, trees } { project, workspace := w', trees } :=
    ⟨rfl, rfl, h.isFile, fun _ => h.bufferAt, h.nowhere⟩
  refine ⟨?_, h.bufferAt ⟨habsolute, hnormal⟩⟩
  exact run_definition_twin htwins (Project.isAbsolute_rootedAt root dependencyDirectory)
    hspecifiers hpath ⟨habsolute, hnormal⟩ offset

/-- A base contract that the editor has in one file and the disk in another. -/
def unsavedWorkspace : Workspace :=
  derivedWorld.workspace.put ⟨"file:///src/b.sol", "contract C \x7b \x7d"⟩

theorem definition_of_unsaved_base :
    let w := unsavedWorkspace
    let w' := { w with disk := w.disk.write "/src/b.sol" "contract X \x7b \x7d".toUTF8 }
    let project := Project.rootedAt "/" "lib"
    w.DiffersWhereOpen w' ∧ w'.disk.read "/src/b.sol" ≠ w.disk.read "/src/b.sol" ∧
      ((definition derivedDocument 68).run { project, workspace := w', trees := .grammar } {}).1.map
        (List.map Location.uri) = .ok ["file:///src/b.sol"] := by
  intro w w' project
  obtain ⟨hnormal, hnormal', hfile, hopen, hread, hspecifiers, hresult⟩ :
      Path.normalize "/src/a.sol" = "/src/a.sol" ∧ Path.normalize "/src/b.sol" = "/src/b.sol" ∧
      (w.disk.file? "/src/b.sol").isSome ∧ w.isOpenAt "/src/b.sol" ∧
      w'.disk.read "/src/b.sol" ≠ w.disk.read "/src/b.sol" ∧
      ((parseProgram .grammar derivedDocument.text).all fun program =>
        (importsOf (program.get .body).nodes).all fun specifier => !Path.isAbsolute specifier) ∧
      ((definition derivedDocument 68).run { project, workspace := w, trees := .grammar } {}).1.map
        (List.map Location.uri) = .ok ["file:///src/b.sol"] := by
    decide +kernel
  have hdiffers : w.DiffersWhereOpen w' := Workspace.differsWhereOpen_write hnormal' hfile hopen _
  refine ⟨hdiffers, hread, ?_⟩
  have hrelative : ∀ program, parseProgram .grammar derivedDocument.text = some program →
      ∀ specifier ∈ importsOf (program.get .body).nodes,
        Path.isAbsolute specifier → Path.IsNormal specifier := by
    intro program hprogram specifier hmem habsolute
    rw [hprogram, Option.all_some, List.all_eq_true] at hspecifiers
    have hnot := hspecifiers specifier hmem
    rw [habsolute] at hnot
    cases hnot
  obtain ⟨hrun, -⟩ := definition_ignores_saved_content hdiffers .grammar "/" "lib" rfl rfl
    hnormal hrelative 68
  rw [hrun, hresult]

end Query

end SolidityServer
