import SolidityServer.Proofs.OneModulePerFile
import SolidityServer.Proofs.PositionOrder

/-! The places that a definition query reports. Each scan of the modules drops the places that came
before; a name after a dot is looked up by two scans, and these find declarations of different
kinds. -/

namespace SolidityServer

/-- What tells two locations apart. -/
def Location.place (l : Location) : String × Range := (l.uri, l.range)

theorem Location.place_ne_of_not_samePlace {l l' : Location} (h : l.samePlace l' = false) :
    l.place ≠ l'.place := by
  intro heq
  obtain ⟨huri, hrange⟩ := Prod.mk.inj heq
  simp [samePlace, huri, hrange] at h

theorem Location.unique_places_nodup (ls : List Location) :
    ((Location.unique ls).map Location.place).Nodup := by
  induction ls with
  | nil => exact List.nodup_nil
  | cons l ls ih =>
    rw [Location.unique, List.map_cons, List.nodup_cons]
    constructor
    · intro hmem
      obtain ⟨l', hl', heq⟩ := List.mem_map.mp hmem
      have hnot : l.samePlace l' = false := by simpa using (List.mem_filter.mp hl').2
      exact place_ne_of_not_samePlace hnot heq.symm
    · exact ih.sublist (List.filter_sublist.map _)

namespace Query

variable {α β : Type} {w : World} {b : Buffer} {offset : Int} {d : Context} {m : ModuleId}
  {rest : List ModuleId}

/-- Every answer that the query gives has a property. -/
def Ensures (q : Query α) (P : α → Prop) : Prop :=
  ∀ (w : World) (c : Context) (a : α) (d : Context), q.run w c = (.ok a, d) → P a

namespace Ensures

variable {q : Query α} {f : α → Query β} {P : β → Prop}

protected theorem pure {b : β} (h : P b) : Ensures (pure b) P := by
  intro w c a d hrun
  cases hrun
  exact h

theorem bind (h : ∀ a, Ensures (f a) P) : Ensures (q >>= f) P := by
  intro w c a d hrun
  obtain ⟨a', c', -, hrest⟩ := run_bind_eq_ok hrun
  exact h a' w c' a d hrest

end Ensures

theorem Walks.ensuring {pre : List ModuleId → Prop} {q : Query α}
    {post : α → List ModuleId → Prop} {P : α → Prop} (hq : Walks w d m rest pre q post)
    (h : Ensures q P) : Walks w d m rest pre q fun a done => P a ∧ post a done := by
  intro c done hstage hpre
  have hends := hq c done hstage hpre
  rcases hrun : q.run w c with ⟨e | a, c'⟩
  · rw [hrun] at hends
    exact hends
  · rw [hrun] at hends
    obtain ⟨done', hstage', hpost⟩ := hends
    exact ⟨done', hstage', h w c a c' hrun, hpost⟩

/-- Locations at places that all differ. -/
def PlacesDiffer (ls : List Location) : Prop := (ls.map Location.place).Nodup

theorem placesDiffer_nil : PlacesDiffer [] := List.nodup_nil

theorem placesDiffer_singleton (l : Location) : PlacesDiffer [l] := List.nodup_singleton _

theorem placesDiffer_append {ls ls' : List Location} (h : PlacesDiffer ls) (h' : PlacesDiffer ls')
    (hne : ∀ l ∈ ls, ∀ l' ∈ ls', l.place ≠ l'.place) : PlacesDiffer (ls ++ ls') := by
  rw [PlacesDiffer, List.map_append, List.nodup_append]
  refine ⟨h, h', fun place hplace place' hplace' => ?_⟩
  obtain ⟨l, hl, rfl⟩ := List.mem_map.mp hplace
  obtain ⟨l', hl', rfl⟩ := List.mem_map.mp hplace'
  exact hne l hl l' hl'

theorem members_places (modules : List ModuleId) (extract : Node → List Node) :
    Ensures (members modules extract) PlacesDiffer :=
  .bind fun _ => .pure (Location.unique_places_nodup _)

theorem resolveTop_places (m : ModuleId) (name : Option String) (kinds : List Kind) :
    Ensures (resolveTop m name kinds) PlacesDiffer := by
  induction kinds with
  | nil => exact .pure placesDiffer_nil
  | cons kind kinds ih =>
    refine .bind fun found => ?_
    cases found.location with
    | some l => exact .pure (placesDiffer_singleton l)
    | none => exact ih

theorem resolveSimpleType_places (m : ModuleId) (statements : List Node) (name : Option String)
    (start : Int) (modules : List ModuleId) (fileLevel : Bool) :
    Ensures (resolveSimpleType m statements name start modules fileLevel) PlacesDiffer := by
  unfold resolveSimpleType
  cases findType (typeScopes statements start fileLevel) name with
  | some n => exact .bind fun b => .pure (placesDiffer_singleton _)
  | none => exact members_places modules _

theorem ownedType_places (modules : List ModuleId) (member : String) (x : DirectImport) :
    Ensures (ownedType modules member x) PlacesDiffer := by
  unfold ownedType
  cases x.node with
  | none => exact .pure placesDiffer_nil
  | some n => exact resolveSimpleType_places _ _ _ _ modules false

theorem resolveType_places (m : ModuleId) (statements : List Node) (ref : TypeRef)
    (modules : List ModuleId) (fileLevel : Bool) :
    Ensures (resolveType m statements ref modules fileLevel) PlacesDiffer := by
  unfold resolveType
  cases ref.members with
  | nil => exact resolveSimpleType_places m statements _ _ modules fileLevel
  | cons member _ =>
    refine .bind fun asContract => ?_
    by_cases hnode : asContract.node.isSome
    · simp only [hnode, if_true]
      exact ownedType_places modules member asContract
    · simp only [hnode]
      exact .bind (ownedType_places modules member)

theorem resolveImport_places (b : Buffer) (n : Node) :
    Ensures (resolveImport b n) PlacesDiffer := by
  refine .bind fun w => .bind fun isFile => ?_
  cases isFile with
  | false => exact .bind fun _ => .pure placesDiffer_nil
  | true =>
    simp only [if_true]
    split
    · intro w c a d hrun
      cases hrun
    · exact .pure (placesDiffer_singleton _)

/-- The top-level statements of a file and the members of its contracts and libraries. -/
def declarations (statements : List Node) : List Node :=
  statements ++ (statements.filter (memberScopes.contains ·.kind)).flatMap body

/-- The declarations of a file lie in its text, and no two of them at the same characters. -/
structure TellsApart (statements : List Node) (length : Nat) : Prop where
  inside : ∀ n ∈ declarations statements, (0 ≤ n.start ∧ n.start ≤ n.stop) ∧ n.stop ≤ length
  apart : ((declarations statements).map fun n => (n.start, n.stop)).Nodup

instance (statements : List Node) (length : Nat) : Decidable (TellsApart statements length) :=
  decidable_of_iff (_ ∧ _) ⟨fun h => ⟨h.1, h.2⟩, fun h => ⟨h.inside, h.apart⟩⟩

theorem TellsApart.eq_of_rangeOf {statements : List Node} {source : Buffer} {n n' : Node}
    (h : TellsApart statements source.text.length) (hn : n ∈ declarations statements)
    (hn' : n' ∈ declarations statements)
    (hrange : source.rangeOf n.start n.stop = source.rangeOf n'.start n'.stop) : n = n' := by
  have hlength : source.chars.length = source.text.length := String.length_toList
  obtain ⟨hstart, hstop⟩ := h.inside n hn
  obtain ⟨hstart', hstop'⟩ := h.inside n' hn'
  rw [← hlength] at hstop hstop'
  obtain ⟨hfirst, hlast⟩ := Buffer.rangeOf_injective hstart hstop hstart' hstop' hrange
  exact List.inj_on_of_nodup_map h.apart hn hn' (Prod.ext hfirst hlast)

/-- The files that a query on a document looks at, by path: the document, and its imports as they
are opened. -/
inductive Sees (w : World) (b : Buffer) : String → Buffer → Prop
  | document : Sees w b (Path.normalize (b.path.getD "")) b
  | imported {program : Node} {specifier : String} {source : Buffer}
      (hprogram : parseProgram w.trees b.text = some program)
      (hspecifier : specifier ∈ importsOf (body program))
      (hother : w.project.importTarget specifier (Path.normalize (b.path.getD "")) ≠
        Path.normalize (b.path.getD ""))
      (hsource : w.workspace.bufferAt (w.project.importTarget specifier
        (Path.normalize (b.path.getD ""))) = .ok source) :
      Sees w b (w.project.importTarget specifier (Path.normalize (b.path.getD ""))) source

/-- The declarations of each file that a query looks at are told apart by their spans, and the files
by their addresses. -/
structure DistinctlyPlaced (w : World) (b : Buffer) : Prop where
  spans : ∀ path source program, Sees w b path source →
    parseProgram w.trees source.text = some program → TellsApart (body program) source.text.length
  addresses : ∀ path source path' source', Sees w b path source → Sees w b path' source' →
    path ≠ path' → source.uri ≠ source'.uri

/-- A module of the set is seen as its file, and its tree is that of its text. -/
theorem sees_of_mem {modules : List ModuleId} (h : (moduleSetOf b).run w {} = (.ok modules, d))
    {k : ModuleId} (hk : k ∈ modules) :
    (d.viewOf w k).tree = (d.viewOf w k).source.map (fun s => parseProgram w.trees s.text) ∧
      ∀ source, (d.viewOf w k).source = .ok source → Sees w b (d.moduleOf k).path source := by
  obtain ⟨-, hown, himported⟩ := paths_of_moduleSetOf h
  obtain ⟨rest, rfl, hready, -, hview⟩ := ready_of_moduleSetOf h
  rcases List.mem_cons.mp hk with rfl | hk
  · have hpath : (d.moduleOf 0).path = Path.normalize (b.path.getD "") :=
      congrArg Module.View.path hview
    rw [hview, hpath]
    refine ⟨rfl, fun source hsource => ?_⟩
    cases hsource
    exact .document
  · have huntouched : (Context.start b).Untouched d := by
      have huntouched := moduleSet_untouched (w := w) (m := 0) (Context.isOpen_start b 0)
      rw [run_moduleSetOf] at h
      rwa [h] at huntouched
    have hclosed : d.isOpen k = false := by
      have hne : k ≠ 0 := fun h0 => hready.path_ne hk (h0 ▸ rfl)
      simp [huntouched.isOpen, Context.isOpen_start, hne]
    have hbuffer : (d.moduleOf k).buffer = none := by simpa [Context.isOpen] using hclosed
    have hprogram : (d.moduleOf k).program = none := by
      cases hp : (d.moduleOf k).program with
      | none => rfl
      | some program =>
        have hopen := huntouched.sound (Context.sound_start b) k (by simp [hp])
        simp [hclosed] at hopen
    refine ⟨by simp [Context.viewOf, Module.view, Module.tree, hprogram], fun source hsource => ?_⟩
    have hread : w.workspace.bufferAt (d.moduleOf k).path = .ok source := by
      simpa [Context.viewOf, Module.view, Module.source, hbuffer] using hsource
    have hmem : (d.moduleOf k).path ∈ ((0 :: rest).map fun m => (d.moduleOf m).path).tail :=
      List.mem_map.mpr ⟨k, hk, rfl⟩
    obtain ⟨program, hparse, specifier, hspecifier, hpath⟩ := himported _ hmem
    rw [hpath] at hmem hread ⊢
    exact .imported hparse hspecifier (fun heq => hown (heq ▸ hmem)) hread

theorem kind_of_membersNamed {kinds : List Kind} {name : Option String} {scope n : Node}
    (h : n ∈ membersNamed kinds name scope) : n.kind ∈ kinds := by
  have hfits := (List.mem_filter.mp h).2
  simp only [Bool.and_eq_true, List.contains_iff_mem] at hfits
  exact hfits.1

theorem kind_of_calleesNamed {name : Option String} {scope n : Node}
    (h : n ∈ calleesNamed name scope) : n.kind ∈ calleeKinds ∨ n.kind = .contract := by
  rcases List.mem_append.mp h with h | h
  · exact .inl (kind_of_membersNamed h)
  · split at h
    next hscope =>
      simp only [Bool.and_eq_true, beq_iff_eq] at hscope
      obtain rfl := List.mem_singleton.mp h
      exact .inr hscope.1
    next => cases h

theorem mem_declarations {statements : List Node} {scope n : Node} (hscope : scope ∈ statements)
    (hkind : scope.kind ∈ memberScopes) (hn : n ∈ body scope ∨ n = scope) :
    n ∈ declarations statements := by
  rcases hn with hn | rfl
  · refine List.mem_append_right _ (List.mem_flatMap.mpr ⟨scope, ?_, hn⟩)
    exact List.mem_filter.mpr ⟨hscope, by simpa using hkind⟩
  · exact List.mem_append_left _ hscope

/-- A variable and something to call are at different places, in one module because they are
different declarations, and in two because their files have different addresses. -/
theorem place_ne_of_picked {modules : List ModuleId} {name : Option String} {l l' : Location}
    (hset : (moduleSetOf b).run w {} = (.ok modules, d))
    (hplaced : DistinctlyPlaced w b)
    (hl : PickedFrom w d (membersNamed [.stateVariable] name) modules l)
    (hl' : PickedFrom w d (calleesNamed name) modules l') : l.place ≠ l'.place := by
  obtain ⟨j, hj, found, source, scope, n, hfound, hsource, hscope, hkind, hn, rfl⟩ := hl
  obtain ⟨k, hk, found', source', scope', n', hfound', hsource', hscope', hkind', hn', rfl⟩ := hl'
  obtain ⟨htree, hsees⟩ := sees_of_mem hset hj
  have hsees' := (sees_of_mem hset hk).2
  intro heq
  obtain ⟨huri, hrange⟩ := Prod.mk.inj heq
  by_cases hpath : (d.moduleOf j).path = (d.moduleOf k).path
  · obtain ⟨rest, rfl, hready, -⟩ := ready_of_moduleSetOf hset
    obtain rfl : j = k := List.inj_on_of_nodup_map hready.paths_nodup hj hk hpath
    obtain rfl : source = source' := Except.ok.inj (hsource.symm.trans hsource')
    obtain rfl : found = found' := Option.some.inj (Except.ok.inj (hfound.symm.trans hfound'))
    have hspan : TellsApart found source.text.length := by
      rw [Module.View.statements, htree, hsource] at hfound
      obtain ⟨program, hprogram, rfl⟩ := Option.map_eq_some_iff.mp (Except.ok.inj hfound)
      exact hplaced.spans _ source program (hsees source hsource) hprogram
    -- one declaration cannot be both a variable and something to call
    have hsame : n = n' := hspan.eq_of_rangeOf
      (mem_declarations hscope hkind (.inl (mem_membersNamed hn).2))
      (mem_declarations hscope' hkind' (mem_calleesNamed hn').2) hrange
    have hvariable := List.mem_singleton.mp (kind_of_membersNamed hn)
    rcases kind_of_calleesNamed (hsame ▸ hn') with hcallee | hcallee
    · rw [hvariable] at hcallee
      exact absurd hcallee (by decide)
    · rw [hvariable] at hcallee
      cases hcallee
  · exact hplaced.addresses _ _ _ _ (hsees source hsource) (hsees' source' hsource') hpath huri

theorem resolve_places {modules : List ModuleId} {statements : List Node}
    (hset : (moduleSetOf b).run w {} = (.ok modules, d))
    (hplaced : DistinctlyPlaced w b)
    (hstatements : (d.viewOf w 0).statements = .ok (some statements)) (ref : Reference) :
    Walks w d 0 modules.tail (fun _ => True) (resolve 0 statements modules ref) fun ls _ =>
      PlacesDiffer ls := by
  obtain ⟨rest, rfl, hready, -⟩ := ready_of_moduleSetOf hset
  have hplain : Ensures (resolve 0 statements (0 :: rest) ref) PlacesDiffer →
      Walks w d 0 rest (fun _ => True) (resolve 0 statements (0 :: rest) ref) fun ls _ =>
        PlacesDiffer ls := fun h =>
    ((resolve_walks hready hstatements ref).ensuring h).mono (fun _ => id) fun _ _ hls => hls.1
  cases ref with
  | nothing => exact hplain (.pure placesDiffer_nil)
  | ancestor name | library name => exact hplain (resolveTop_places 0 name _)
  | type ref => exact hplain (resolveType_places 0 statements ref _ true)
  | callee name => exact hplain (members_places _ _)
  | «variable» name => exact hplain (members_places _ _)
  | member name =>
    have hscan : ∀ extract : Node → List Node,
        Walks w d 0 rest (fun _ => True) (members (0 :: rest) extract) fun ls _ =>
          PlacesDiffer ls ∧ ∀ l ∈ ls, PickedFrom w d extract (0 :: rest) l := fun extract =>
      (members_walk hready.nodup hready.lt_size).ensuring (members_places _ extract)
    refine ((hscan _).mono (fun _ => id) fun _ _ hls => ⟨hls, trivial⟩).bind fun found =>
      Walks.assuming fun hfound => ?_
    refine (hscan _).bind fun callees => .pure fun _ hcallees => ?_
    exact placesDiffer_append hfound.1 hcallees.1 fun l hl l' hl' =>
      place_ne_of_picked hset hplaced (hfound.2 l hl) (hcallees.2 l' hl')

/-- Outside of a container there is at most the file of an import. -/
theorem definition_outside_places {locations : List Location} {c : Context}
    (hat : containerAt? w b offset = none)
    (hrun : (definition b offset).run w {} = (.ok locations, c)) : PlacesDiffer locations := by
  rw [definition, run_bind_ok (run_ofBuffer w b)] at hrun
  obtain ⟨found, c', hfound, hrest⟩ := run_bind_eq_ok hrun
  have hparsed := (statements_yields (w := w) (c := .start b) 0).result
  rw [hfound, Context.statements_start, Except.ok.injEq] at hparsed
  subst hparsed
  cases hprogram : parseProgram w.trees b.text with
  | none =>
    rw [hprogram] at hrest
    exact (Ensures.bind fun _ => .pure placesDiffer_nil) w c' locations c hrest
  | some program =>
    rw [hprogram] at hrest
    simp only [Option.map_some] at hrest
    cases hn : nodeAt? (program.get .body).nodes offset with
    | none =>
      rw [hn] at hrest
      cases hrest
      exact placesDiffer_nil
    | some n =>
      have hkind : containerKinds.contains n.kind = false := by
        simpa [containerAt?, hprogram, hn] using hat
      simp only [hn, hkind] at hrest
      split at hrest
      · exact resolveImport_places b n w c' locations c hrest
      · cases hrest
        exact placesDiffer_nil

/-- A definition query never reports the same place twice. -/
theorem definition_places_distinct {locations : List Location} {c : Context}
    (hplaced : DistinctlyPlaced w b)
    (hrun : (definition b offset).run w {} = (.ok locations, c)) :
    (locations.map Location.place).Nodup := by
  cases hat : containerAt? w b offset with
  | none => exact definition_outside_places hat hrun
  | some container =>
    rcases hset : (moduleSetOf b).run w {} with ⟨e | modules, d⟩
    · have hfails := (definition_of_failure hat hset).1
      rw [hrun] at hfails
      cases hfails
    · have hends := definition_ends hat hset fun statements hstatements =>
        resolve_places hset hplaced hstatements _
      rw [hrun] at hends
      obtain ⟨done, -, hplaces⟩ := hends
      exact hplaces

/-- A name after a dot that is a variable here and a function of an imported library. -/
def dottedDocument : Buffer where
  uri := "file:///src/a.sol"
  path := some "/src/a.sol"
  text := "import './b.sol'; contract A \x7b uint x; function f() \x7b g.x; \x7d \x7d"
  encoding := .utf8

def libraryDocument : Buffer where
  uri := "file:///src/b.sol"
  path := some "/src/b.sol"
  text := "library L \x7b function x() \x7b \x7d \x7d"
  encoding := .utf8

def dottedWorld : World := .ofFiles "/" [("/src/b.sol", libraryDocument.text)]

theorem dottedDocument_sees {path : String} {source : Buffer}
    (h : Sees dottedWorld dottedDocument path source) :
    (path = "/src/a.sol" ∧ source = dottedDocument) ∨
      (path = "/src/b.sol" ∧ source = libraryDocument) := by
  obtain ⟨himports, hown, htarget, hread⟩ :
      ((parseProgram dottedWorld.trees dottedDocument.text).all fun program =>
        (importsOf (body program)).all (· == "./b.sol")) ∧
      Path.normalize (dottedDocument.path.getD "") = "/src/a.sol" ∧
      dottedWorld.project.importTarget "./b.sol" "/src/a.sol" = "/src/b.sol" ∧
      dottedWorld.workspace.bufferAt "/src/b.sol" = .ok libraryDocument := by decide +kernel
  cases h with
  | document => exact .inl ⟨hown, rfl⟩
  | imported hprogram hspecifier _ hsource =>
    rw [hprogram, Option.all_some, List.all_eq_true] at himports
    obtain rfl := eq_of_beq (himports _ hspecifier)
    rw [hown, htarget] at hsource ⊢
    exact .inr ⟨rfl, Except.ok.inj (hsource.symm.trans hread)⟩

theorem dottedDocument_placed : DistinctlyPlaced dottedWorld dottedDocument := by
  have happart : ∀ source ∈ [dottedDocument, libraryDocument],
      (parseProgram dottedWorld.trees source.text).all fun program =>
        TellsApart (body program) source.text.length := by decide +kernel
  refine ⟨fun path source program hsees hprogram => ?_, ?_⟩
  · have hmem : source ∈ [dottedDocument, libraryDocument] := by
      rcases dottedDocument_sees hsees with ⟨-, rfl⟩ | ⟨-, rfl⟩ <;> simp
    have hchecked := happart source hmem
    rw [hprogram, Option.all_some] at hchecked
    exact of_decide_eq_true hchecked
  · intro path source path' source' hsees hsees' hne
    rcases dottedDocument_sees hsees with ⟨rfl, rfl⟩ | ⟨rfl, rfl⟩ <;>
      rcases dottedDocument_sees hsees' with ⟨rfl, rfl⟩ | ⟨rfl, rfl⟩
    · exact absurd rfl hne
    · decide
    · decide
    · exact absurd rfl hne

theorem definition_of_dotted_name :
    DistinctlyPlaced dottedWorld dottedDocument ∧
      ∃ own imported c, (definition dottedDocument 56).run dottedWorld {} =
          (.ok [own, imported], c) ∧
        own.uri = "file:///src/a.sol" ∧ imported.uri = "file:///src/b.sol" ∧
        [own.place, imported.place].Nodup := by
  have huris : ((definition dottedDocument 56).run dottedWorld {}).1.toOption.map
      (List.map Location.uri) = some ["file:///src/a.sol", "file:///src/b.sol"] := by
    decide +kernel
  cases hresult : ((definition dottedDocument 56).run dottedWorld {}).1 with
  | error e =>
    rw [hresult] at huris
    cases huris
  | ok locations =>
    rw [hresult] at huris
    obtain ⟨own, _, rfl, hown, hrest⟩ := List.map_eq_cons_iff.mp (Option.some.inj huris)
    obtain ⟨imported, _, rfl, himported, hnil⟩ := List.map_eq_cons_iff.mp hrest
    obtain rfl := List.map_eq_nil_iff.mp hnil
    have hrun := run_of_fst hresult
    exact ⟨dottedDocument_placed, own, imported, _, hrun, hown, himported,
      definition_places_distinct dottedDocument_placed hrun⟩

end Query

end SolidityServer
