import SolidityServer.Proofs.DistinctPlaces

/-! What a scan of all members finds. The places that are reported are those of the declarations
with the name and a fitting kind, each of them once, and a place that an earlier module has comes
before one that only later modules have. -/

namespace SolidityServer

namespace Location

theorem samePlace_iff {l l' : Location} : l.samePlace l' = true ↔ l.place = l'.place := by
  simp [samePlace, place]

/-- Only repetitions are dropped. -/
theorem place_mem_unique (ls : List Location) (key : String × Range) :
    key ∈ (unique ls).map place ↔ key ∈ ls.map place := by
  induction ls with
  | nil => rfl
  | cons l ls ih =>
    rw [unique, List.map_cons, List.map_cons, List.mem_cons, List.mem_cons]
    by_cases hkey : key = l.place
    · simp [hkey]
    · have hkept : key ∈ ((unique ls).filter (!l.samePlace ·)).map place ↔
          key ∈ (unique ls).map place := by
        constructor
        · exact fun h => (List.filter_sublist.map place).subset h
        · intro h
          obtain ⟨l', hl', rfl⟩ := List.mem_map.mp h
          have hother : ¬l.samePlace l' = true := fun hsame => hkey (samePlace_iff.mp hsame).symm
          exact List.mem_map.mpr ⟨l', List.mem_filter.mpr ⟨hl', by simpa using hother⟩, rfl⟩
      rw [hkept, ih]

theorem unique_sublist (ls : List Location) : (unique ls).Sublist ls := by
  induction ls with
  | nil => exact .slnil
  | cons l ls ih => exact (List.filter_sublist.trans ih).cons_cons l

/-- What comes later is kept in its order, less the places that came before. -/
theorem unique_append (ls ls' : List Location) :
    ∃ rest, unique (ls ++ ls') = unique ls ++ rest ∧ rest.Sublist ls' ∧
      ∀ l ∈ rest, l.place ∉ ls.map place := by
  induction ls with
  | nil => exact ⟨unique ls', rfl, unique_sublist ls', by simp⟩
  | cons l ls ih =>
    obtain ⟨rest, hrest, hsub, hnew⟩ := ih
    refine ⟨rest.filter (!l.samePlace ·), ?_, List.filter_sublist.trans hsub, ?_⟩
    · rw [List.cons_append, unique, unique, hrest, List.filter_append, List.cons_append]
    · intro l' hl' hmem
      obtain ⟨hkept, hother⟩ := List.mem_filter.mp hl'
      rcases List.mem_cons.mp hmem with hsame | hmem
      · simp [samePlace_iff.mpr hsame.symm] at hother
      · exact hnew l' hkept hmem

end Location

namespace Query

variable {α β : Type} {w : World} {c : Context} {m : ModuleId} {modules : List ModuleId}
  {extract : Node → List Node}

theorem Yields.mapM {f : α → Query β} {g : α → β} {as : List α}
    (h : ∀ a ∈ as, ∀ d : Context, d.scene w = c.scene w → Yields w d (f a) (.ok (g a))) :
    Yields w c (as.mapM f) (.ok (as.map g)) := by
  induction as generalizing c with
  | nil => exact .pure []
  | cons a as ih =>
    have hfirst := h a List.mem_cons_self c rfl
    have hrest : ∀ d : Context, d.scene w = c.scene w → Yields w d (as.mapM f) (.ok (as.map g)) :=
      fun d hd => ih fun a' ha' e he => h a' (List.mem_cons_of_mem a ha') e (he.trans hd)
    rw [List.mapM_cons]
    refine hfirst.bind (g := fun b => .ok (b :: as.map g)) fun b d _ hd => ?_
    exact (hrest d hd).bind (g := fun bs => .ok (b :: bs)) fun bs _ _ _ => .pure (b :: bs)

/-- What `extract` picks from the contracts and libraries among some statements. -/
def picked (extract : Node → List Node) (statements : List Node) : List Node :=
  (statements.filter (memberScopes.contains ·.kind)).flatMap extract

/-- The locations that a scan finds in a module that can be opened. -/
def findings (w : World) (c : Context) (extract : Node → List Node) (m : ModuleId) :
    List Location :=
  match (c.viewOf w m).source, (c.viewOf w m).statements with
  | .ok b, .ok found => (picked extract (found.getD [])).map (Location.ofNode b)
  | _, _ => []

/-- The module can be opened. -/
def Opens (w : World) (c : Context) (m : ModuleId) : Prop :=
  ∃ b, ((buffer m).run w c).1 = .ok b

theorem Opens.views (h : Opens w c m) (extract : Node → List Node) : ∃ b found,
    (c.viewOf w m).source = .ok b ∧ (c.viewOf w m).statements = .ok found ∧
      findings w c extract m = (picked extract (found.getD [])).map (Location.ofNode b) := by
  obtain ⟨b, hb⟩ := h
  rw [(buffer_yields m).result] at hb
  obtain ⟨found, hfound⟩ : ∃ found, (c.viewOf w m).statements = .ok found :=
    Module.View.statements_ok_of_source hb
  refine ⟨b, found, hb, hfound, ?_⟩
  rw [findings, hb, hfound]

theorem findings_congr {d : Context} (hd : d.scene w = c.scene w) :
    findings w d extract m = findings w c extract m := by
  rw [findings, findings, Context.viewOf_congr hd]

theorem opens_congr {d : Context} (hd : d.scene w = c.scene w) : Opens w d m ↔ Opens w c m := by
  rw [Opens, Opens, (buffer_yields m).result, (buffer_yields m).result, Context.viewOf_congr hd]

theorem scan_yields (h : Opens w c m) :
    Yields w c (scan extract m) (.ok (findings w c extract m)) := by
  obtain ⟨b, found, hb, hfound, hfindings⟩ := h.views extract
  have hread := statements_yields (w := w) (c := c) m
  rw [hfound] at hread
  rw [hfindings]
  refine hread.bind (g := fun found => .ok
    ((picked extract (found.getD [])).map (Location.ofNode b))) fun found d _ hd => ?_
  have hopen := buffer_yields (w := w) (c := d) m
  rw [Context.viewOf_congr hd, hb] at hopen
  dsimp only
  rw [picked]
  split
  next hnone =>
    rw [hnone]
    exact .pure []
  next => exact hopen.map fun b => List.map (Location.ofNode b) _

theorem members_yields (h : ∀ m ∈ modules, Opens w c m) : Yields w c (members modules extract)
    (.ok (Location.unique (modules.flatMap (findings w c extract)))) := by
  have hscans : Yields w c (modules.mapM (scan extract))
      (.ok (modules.map (findings w c extract))) := by
    refine Yields.mapM fun m hm d hd => ?_
    rw [← findings_congr hd]
    exact scan_yields ((opens_congr hd).mpr (h m hm))
  rw [members_eq, List.flatMap_def]
  exact hscans.map fun found => Location.unique found.flatten

/-- A member with a name, of one of some kinds, of a contract or library. -/
def IsMember (kinds : List Kind) (name : Option String) (statements : List Node) (n : Node) :
    Prop :=
  ∃ owner ∈ statements, (owner.kind = .contract ∨ owner.kind = .library) ∧ n ∈ body owner ∧
    n.kind ∈ kinds ∧ n.name? = name

/-- Something to call by a name: a member, or a contract. -/
def IsCallee (name : Option String) (statements : List Node) (n : Node) : Prop :=
  IsMember calleeKinds name statements n ∨ (n ∈ statements ∧ n.kind = .contract ∧ n.name? = name)

theorem mem_picked {statements : List Node} {n : Node} : n ∈ picked extract statements ↔
    ∃ owner ∈ statements, (owner.kind = .contract ∨ owner.kind = .library) ∧
      n ∈ extract owner := by
  simp [picked, memberScopes, and_assoc]

theorem mem_picked_membersNamed {kinds : List Kind} {name : Option String}
    (statements : List Node) (n : Node) :
    n ∈ picked (membersNamed kinds name) statements ↔ IsMember kinds name statements n := by
  simp [mem_picked, membersNamed, IsMember]

theorem mem_picked_calleesNamed {name : Option String} (statements : List Node) (n : Node) :
    n ∈ picked (calleesNamed name) statements ↔ IsCallee name statements n := by
  rw [IsCallee, ← mem_picked_membersNamed, mem_picked, mem_picked]
  constructor
  · rintro ⟨owner, howner, hkind, hn⟩
    rcases List.mem_append.mp hn with hmember | hself
    · exact .inl ⟨owner, howner, hkind, hmember⟩
    · have hnamed : (owner.kind = .contract ∧ owner.name? = name) ∧ n = owner := by
        simpa using hself
      obtain ⟨⟨hcontract, hname⟩, rfl⟩ := hnamed
      exact .inr ⟨howner, hcontract, hname⟩
  · rintro (⟨owner, howner, hkind, hmember⟩ | ⟨hn, hcontract, hname⟩)
    · exact ⟨owner, howner, hkind, List.mem_append_left _ hmember⟩
    · exact ⟨n, hn, .inl hcontract, List.mem_append_right _ (by simp [hcontract, hname])⟩

/-- The place of a fitting declaration of a module that has a usable tree. -/
def OccursIn (w : World) (c : Context) (fits : List Node → Node → Prop) (modules : List ModuleId)
    (key : String × Range) : Prop :=
  ∃ m ∈ modules, ∃ b found n, ((buffer m).run w c).1 = .ok b ∧
    ((statements m).run w c).1 = .ok (some found) ∧ fits found n ∧
    key = (Location.ofNode b n).place

/-- The places of all fitting declarations, each of them once, and those of earlier modules
first. -/
structure Inventory (w : World) (c : Context) (fits : List Node → Node → Prop)
    (modules : List ModuleId) (ls : List Location) : Prop where
  distinct : (ls.map Location.place).Nodup
  complete : ∀ key, key ∈ ls.map Location.place ↔ OccursIn w c fits modules key
  ordered : ∀ before after key key', modules = before ++ after → OccursIn w c fits before key →
    ¬OccursIn w c fits before key' → OccursIn w c fits after key' →
    [key, key'].Sublist (ls.map Location.place)

theorem place_mem_findings {fits : List Node → Node → Prop}
    (hfits : ∀ found n, n ∈ picked extract found ↔ fits found n)
    (h : ∀ m ∈ modules, Opens w c m) (key : String × Range) :
    key ∈ (modules.flatMap (findings w c extract)).map Location.place ↔
      OccursIn w c fits modules key := by
  have hmodule : ∀ m ∈ modules, (key ∈ (findings w c extract m).map Location.place ↔
      ∃ b found n, ((buffer m).run w c).1 = .ok b ∧
        ((statements m).run w c).1 = .ok (some found) ∧ fits found n ∧
        key = (Location.ofNode b n).place) := by
    intro m hm
    obtain ⟨b, found, hb, hfound, hfindings⟩ := (h m hm).views extract
    rw [(buffer_yields m).result, (statements_yields m).result, hb, hfound, hfindings]
    cases found with
    | none => simp [picked]
    | some found => simp [hfits, eq_comm]
  rw [List.map_flatMap, List.mem_flatMap]
  exact exists_congr fun m => and_congr_right fun hm => hmodule m hm

theorem inventory_unique {fits : List Node → Node → Prop}
    (hfits : ∀ found n, n ∈ picked extract found ↔ fits found n)
    (h : ∀ m ∈ modules, Opens w c m) :
    Inventory w c fits modules (Location.unique (modules.flatMap (findings w c extract))) := by
  refine ⟨Location.unique_places_nodup _, fun key => ?_, ?_⟩
  · rw [Location.place_mem_unique, place_mem_findings hfits h]
  · rintro before after key key' rfl hkey hkey' hafter
    have hplaces := place_mem_findings hfits fun m hm => h m (List.mem_append_left after hm)
    obtain ⟨rest, hrest, -, -⟩ := Location.unique_append (before.flatMap (findings w c extract))
      (after.flatMap (findings w c extract))
    have hall : key' ∈ (Location.unique
        ((before ++ after).flatMap (findings w c extract))).map Location.place := by
      obtain ⟨m, hm, hoccurs⟩ := hafter
      rw [Location.place_mem_unique, place_mem_findings hfits h]
      exact ⟨m, List.mem_append_right before hm, hoccurs⟩
    rw [List.flatMap_append, hrest, List.map_append] at hall ⊢
    -- what only the later modules have is not among the places of the earlier ones
    have hfirst := (Location.place_mem_unique _ key).mpr ((hplaces key).mpr hkey)
    have hsecond := (List.mem_append.mp hall).resolve_left fun hearly =>
      hkey' ((hplaces key').mp ((Location.place_mem_unique _ key').mp hearly))
    exact (List.singleton_sublist.mpr hfirst).append (List.singleton_sublist.mpr hsecond)

/-- Where all modules can be opened, a scan for something to call and a scan for a variable list
exactly the places of the fitting declarations with the name. -/
theorem member_scans_complete (modules : List ModuleId) (name : Option String)
    (h : ∀ m ∈ modules, Opens w c m) :
    (∃ ls d, (resolveCallee modules name).run w c = (.ok ls, d) ∧
      Inventory w c (IsCallee name) modules ls) ∧
    ∃ ls d, (resolveVariable modules name).run w c = (.ok ls, d) ∧
      Inventory w c (IsMember [.stateVariable] name) modules ls := by
  constructor
  · exact ⟨_, _, run_of_fst (members_yields h).result, inventory_unique mem_picked_calleesNamed h⟩
  · exact ⟨_, _, run_of_fst (members_yields h).result, inventory_unique mem_picked_membersNamed h⟩

/-- A contract with the name of its members, a file without a tree, and an event of that name. -/
def overloadedWorld : World :=
  .ofFiles "/" [
    ("/a.sol", "contract f \x7b uint f; function f() \x7b\x7d "
      ++ "function f(int x) \x7b\x7d \x7d"),
    ("/b.sol", "(("), ("/c.sol", "library L \x7b event f(); \x7d")]

/-- The three files, none of them open yet. -/
def overloadedModules : Context where
  modules := #[{ path := "/a.sol" }, { path := "/b.sol" }, { path := "/c.sol" }]

theorem member_scans_of_overloads :
    let modules := [0, 1, 2, 0]
    (∀ m ∈ modules, Opens overloadedWorld overloadedModules m) ∧
      (∃ ls d, (resolveCallee modules (some "f")).run overloadedWorld overloadedModules =
          (.ok ls, d) ∧
        ls.map Location.uri = List.replicate 3 "file:///a.sol" ++ ["file:///c.sol"] ∧
        Inventory overloadedWorld overloadedModules (IsCallee (some "f")) modules ls) ∧
      ∃ ls d, (resolveVariable modules (some "f")).run overloadedWorld overloadedModules =
          (.ok ls, d) ∧
        ls.map Location.uri = ["file:///a.sol"] ∧
        Inventory overloadedWorld overloadedModules (IsMember [.stateVariable] (some "f"))
          modules ls := by
  intro modules
  obtain ⟨hbuffers, hcallees, hvariables⟩ :
      (∀ m ∈ modules, ((buffer m).run overloadedWorld overloadedModules).1.toOption.isSome) ∧
      ((resolveCallee modules (some "f")).run overloadedWorld overloadedModules).1.toOption.map
        (List.map Location.uri) =
          some (List.replicate 3 "file:///a.sol" ++ ["file:///c.sol"]) ∧
      ((resolveVariable modules (some "f")).run overloadedWorld overloadedModules).1.toOption.map
        (List.map Location.uri) = some ["file:///a.sol"] := by decide +kernel
  have hopen : ∀ m ∈ modules, Opens overloadedWorld overloadedModules m := by
    intro m hm
    have hsome := hbuffers m hm
    cases hb : ((buffer m).run overloadedWorld overloadedModules).1 with
    | error e =>
      rw [hb] at hsome
      cases hsome
    | ok b => exact ⟨b, hb⟩
  obtain ⟨⟨ls, d, hrun, hls⟩, ls', d', hrun', hls'⟩ :=
    member_scans_complete modules (some "f") hopen
  rw [hrun] at hcallees
  rw [hrun'] at hvariables
  exact ⟨hopen, ⟨ls, d, hrun, Option.some.inj hcallees, hls⟩,
    ls', d', hrun', Option.some.inj hvariables, hls'⟩

end Query

end SolidityServer
