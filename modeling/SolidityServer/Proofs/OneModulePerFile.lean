import SolidityServer.Proofs.NormalPaths
import SolidityServer.Proofs.OpenedFiles

/-! Modules and files. The modules of a set are told apart by their paths, and two paths in normal
form that lead to one file are the same. An absolute specifier is taken as it is written, so it can
bring in a file for a second time. -/

namespace SolidityServer.Query

variable {w : World} {c d : Context} {m k : ModuleId} {modules rest : List ModuleId}

theorem filed_of_moduleSet (hv : c.Valid) (hf : c.Filed)
    (h : (moduleSet m).run w c = (.ok modules, d)) : d.Filed := by
  obtain ⟨own, found, c', -, hs, -, hload, -⟩ := moduleSet_eq_ok h
  have hkept : d.Valid ∧ d.Filed := loadAll_keeps (P := fun c => c.Valid ∧ c.Filed)
    (fun hl hc => ⟨hl.valid hc.1, hl.filed hc.1 hc.2⟩) hload ⟨hv.of_scene hs, hf.of_scene hs⟩
  exact hkept.2

theorem Ready.paths_nodup (h : Ready w m (m :: rest) d d) :
    ((m :: rest).map fun k => (d.moduleOf k).path).Nodup := by
  rw [List.map_cons, List.nodup_cons]
  constructor
  · intro hmem
    obtain ⟨k, hk, heq⟩ := List.mem_map.mp hmem
    exact h.path_ne hk heq
  · obtain ⟨-, own, found, -, -, hmodules⟩ := h.settled
    obtain ⟨-, rfl⟩ := List.cons.inj hmodules
    exact (distinct_paths d _ _).1

/-- A module of the set of `m` whose path is not in normal form: `m` itself, or one that some of the
specifiers names by just that path. -/
def OutOfForm (d : Context) (m : ModuleId) (specifiers : List String) (k : ModuleId) : Prop :=
  ¬Path.IsNormal (d.moduleOf k).path ∧
    (k = m ∨ ∃ specifier ∈ specifiers, Path.isAbsolute specifier ∧ (d.moduleOf k).path = specifier)

theorem Ready.normal_or_outOfForm (h : Ready w m (m :: rest) d d) (hf : d.Filed)
    {own : Option (List Node)} (hown : (d.viewOf w m).statements = .ok own) (hk : k ∈ m :: rest) :
    Path.IsNormal (d.moduleOf k).path ∨ OutOfForm d m (importsOf (own.getD [])) k := by
  by_cases hnormal : Path.IsNormal (d.moduleOf k).path
  · exact .inl hnormal
  refine .inr ⟨hnormal, ?_⟩
  rcases List.mem_cons.mp hk with rfl | hk
  · exact .inl rfl
  obtain ⟨own', hown', specifier, hspecifier, hknown⟩ := h.imported hk
  rw [hown, Except.ok.injEq] at hown'
  subst hown'
  have hpath := hf _ _ hknown
  rcases w.project.importTarget_cases specifier (d.moduleOf m).path with ⟨habs, htarget⟩ | htarget
  · exact .inr ⟨specifier, hspecifier, habs, hpath.trans htarget⟩
  · exact absurd (hpath ▸ htarget) hnormal

/-- No two modules of a set are the same file, unless the path of one of them is not in normal form;
and only the module that the set is built for, or an absolute specifier, can have such a path. -/
theorem moduleSet_files_distinct (hv : c.Valid) (hf : c.Filed) (hm : m < c.modules.size)
    (h : (moduleSet m).run w c = (.ok modules, d)) :
    ∃ specifiers, ((imports m).run w c).1 = .ok specifiers ∧
      modules.Pairwise fun j k =>
        Path.normalize (d.moduleOf j).path = Path.normalize (d.moduleOf k).path →
          OutOfForm d m specifiers j ∨ OutOfForm d m specifiers k := by
  have hready := (Ready.of_moduleSet hv hm h)
  have hfiled := filed_of_moduleSet hv hf h
  obtain ⟨-, own, found, hown, -, hmodules⟩ := hready.settled
  subst hmodules
  have himports := (imports_yields (w := w) (c := c) m).result
  rw [hready.view, hown] at himports
  refine ⟨importsOf (own.getD []), himports, ?_⟩
  have hnodup := hready.settle.paths_nodup
  refine (List.pairwise_map.mp hnodup).imp_of_mem fun {j k} hj hk hne heq => ?_
  rcases hready.settle.normal_or_outOfForm hfiled hown hj with hj | hj
  · rcases hready.settle.normal_or_outOfForm hfiled hown hk with hk | hk
    -- both paths are what their normal forms are
    · exact absurd (hj.symm.trans (heq.trans hk)) hne
    · exact .inr hk
  · exact .inl hj

/-- A file that imports itself by a path with a detour. -/
def detourDocument : Buffer where
  uri := "file:///a.sol"
  path := some "/a.sol"
  text := "import '/./a.sol'; import './a.sol'; import './b.sol'; import '/b.sol';"
  encoding := .utf8

def detourWorld : World := .ofFiles "/" [("/a.sol", detourDocument.text), ("/b.sol", "")]

theorem detour_files_distinct :
    ∃ d, (moduleSet 0).run detourWorld (.start detourDocument) = (.ok [0, 1, 2], d) ∧
      Path.normalize (d.moduleOf 0).path ≠ Path.normalize (d.moduleOf 2).path ∧
      ∃ specifiers, ((imports 0).run detourWorld (.start detourDocument)).1 = .ok specifiers ∧
        OutOfForm d 0 specifiers 1 := by
  obtain ⟨hmodules, hsame, hother, hnormal⟩ :
      ((moduleSet 0).run detourWorld (.start detourDocument)).1 = .ok [0, 1, 2] ∧
      Path.normalize (((moduleSet 0).run detourWorld (.start detourDocument)).2.moduleOf 0).path =
        Path.normalize (((moduleSet 0).run detourWorld (.start detourDocument)).2.moduleOf 1).path ∧
      Path.normalize (((moduleSet 0).run detourWorld (.start detourDocument)).2.moduleOf 0).path ≠
        Path.normalize (((moduleSet 0).run detourWorld (.start detourDocument)).2.moduleOf 2).path ∧
      Path.normalize (((moduleSet 0).run detourWorld (.start detourDocument)).2.moduleOf 0).path =
        (((moduleSet 0).run detourWorld (.start detourDocument)).2.moduleOf 0).path := by
    decide +kernel
  have hset := run_of_fst hmodules
  obtain ⟨specifiers, himports, hpairwise⟩ := moduleSet_files_distinct
    (Context.valid_start detourDocument) (Context.filed_start detourDocument) Nat.zero_lt_one hset
  refine ⟨_, hset, hother, specifiers, himports, ?_⟩
  rcases (List.pairwise_cons.mp hpairwise).1 1 (by simp) hsame with hzero | hone
  · exact absurd hnormal hzero.1
  · exact hone

/-- The file stands twice in the set of a document that imports itself by a detour. -/
theorem detour_file_twice :
    ((moduleSetOf detourDocument).run detourWorld {}).1 = .ok [0, 1, 2] ∧
      ([0, 1, 2].map fun m =>
        Path.normalize (((moduleSetOf detourDocument).run detourWorld {}).2.moduleOf m).path) =
        ["/a.sol", "/a.sol", "/b.sol"] := by
  decide +kernel

end SolidityServer.Query
