import Mathlib.Data.List.Induction
import SolidityServer.Proofs.MemberScans

/-! The order of what a scan of all members reports. Within a file the declarations come in the
order of their starts, with one exception: a contract comes after the members that have its
name. -/

namespace SolidityServer

namespace Location

/-- If each of some sources gives a list of items, those of one source keep their order, also if the
source comes up twice. -/
theorem exists_origins {ι ν : Type} (items : ι → List ν) (locate : ι → ν → Location)
    (sources : List ι) : ∃ origins : List (ι × ν),
      unique (sources.flatMap fun i => (items i).map (locate i)) =
        origins.map (fun o => locate o.1 o.2) ∧
      (∀ o ∈ origins, o.1 ∈ sources ∧ o.2 ∈ items o.1) ∧
      origins.Pairwise fun o o' => o.1 = o'.1 → [o.2, o'.2].Sublist (items o.1) := by
  induction sources using List.reverseRecOn with
  | nil => exact ⟨[], rfl, by simp, .nil⟩
  | append_singleton sources i ih =>
    obtain ⟨origins, horigins, hmem, hordered⟩ := ih
    obtain ⟨rest, hrest, hsub, hnew⟩ := unique_append
      (sources.flatMap fun i => (items i).map (locate i)) ((items i).map (locate i))
    rw [List.flatMap_append, List.flatMap_singleton, hrest, horigins]
    by_cases hi : i ∈ sources
    · -- a source that came up before has nothing new
      have hnil : rest = [] := by
        refine List.eq_nil_iff_forall_not_mem.mpr fun l hl => hnew l hl ?_
        exact List.mem_map_of_mem (List.mem_flatMap.mpr ⟨i, hi, hsub.subset hl⟩)
      refine ⟨origins, by rw [hnil, List.append_nil], fun o ho => ?_, hordered⟩
      exact (hmem o ho).imp_left (List.mem_append_left _)
    · obtain ⟨kept, hkept, rfl⟩ := List.sublist_map_iff.mp hsub
      refine ⟨origins ++ kept.map fun n => (i, n), by simp, ?_, ?_⟩
      · intro o ho
        rcases List.mem_append.mp ho with ho | ho
        · exact (hmem o ho).imp_left (List.mem_append_left _)
        · obtain ⟨n, hn, rfl⟩ := List.mem_map.mp ho
          exact ⟨by simp, hkept.subset hn⟩
      · refine List.pairwise_append.mpr ⟨hordered, ?_, ?_⟩
        · rw [List.pairwise_map, List.pairwise_iff_forall_sublist]
          exact fun hpair _ => hpair.trans hkept
        · intro o ho o' ho' heq
          obtain ⟨n, -, rfl⟩ := List.mem_map.mp ho'
          have hold := (hmem o ho).1
          rw [heq] at hold
          exact absurd hold hi

end Location

namespace Query

variable {w : World} {c d : Context} {m : ModuleId} {modules : List ModuleId}
  {extract : Node → List Node} {statements : List Node} {name : Option String}

/-- The nodes stand one after the other. -/
structure InRow (nodes : List Node) : Prop where
  forward : ∀ n ∈ nodes, n.start ≤ n.stop
  ordered : nodes.Pairwise fun a b => a.stop ≤ b.start

instance (nodes : List Node) : Decidable (InRow nodes) :=
  decidable_of_iff (_ ∧ _) ⟨fun ⟨forward, ordered⟩ => ⟨forward, ordered⟩,
    fun h => ⟨h.forward, h.ordered⟩⟩

/-- Declarations stand one after the other, and members so inside their contract. -/
structure WellLaid (statements : List Node) : Prop where
  row : InRow statements
  members : ∀ owner ∈ statements, InRow (body owner)
  inside : ∀ owner ∈ statements, ∀ n ∈ body owner, owner.start ≤ n.start ∧ n.stop ≤ owner.stop

instance (statements : List Node) : Decidable (WellLaid statements) :=
  decidable_of_iff (_ ∧ _ ∧ _) ⟨fun ⟨row, members, inside⟩ => ⟨row, members, inside⟩,
    fun h => ⟨h.row, h.members, h.inside⟩⟩

section Rows

variable {R : Node → Node → Prop}
  (hR : ∀ a b : Node, a.start ≤ a.stop → a.stop ≤ b.start → b.start ≤ b.stop → R a b)
include hR

theorem InRow.pairwise {nodes : List Node} (h : InRow nodes) : nodes.Pairwise R :=
  h.ordered.imp_of_mem fun ha hb hab => hR _ _ (h.forward _ ha) hab (h.forward _ hb)

theorem picked_pairwise (h : WellLaid statements)
    (hextract : ∀ owner, ∀ n ∈ extract owner, n ∈ body owner ∨ n = owner)
    (howner : ∀ owner ∈ statements, (extract owner).Pairwise R) :
    (picked extract statements).Pairwise R := by
  -- all that is picked from an owner lies in its span, and these are apart
  have hspan : ∀ owner ∈ statements, ∀ n ∈ extract owner,
      owner.start ≤ n.start ∧ n.start ≤ n.stop ∧ n.stop ≤ owner.stop := by
    intro owner hmem n hn
    rcases hextract owner n hn with hn | rfl
    · have hinside := h.inside owner hmem n hn
      exact ⟨hinside.1, (h.members owner hmem).forward n hn, hinside.2⟩
    · exact ⟨Int.le_refl _, h.row.forward n hmem, Int.le_refl _⟩
  refine List.pairwise_flatMap.mpr ⟨fun owner hmem => howner owner (List.mem_filter.mp hmem).1, ?_⟩
  refine (h.row.ordered.sublist List.filter_sublist).imp_of_mem ?_
  intro owner owner' hmem hmem' hbefore a ha b hb
  obtain ⟨-, hforward, hstop⟩ := hspan owner (List.mem_filter.mp hmem).1 a ha
  obtain ⟨hstart, hforward', -⟩ := hspan owner' (List.mem_filter.mp hmem').1 b hb
  exact hR a b hforward (Int.le_trans hstop (Int.le_trans hbefore hstart)) hforward'

end Rows

theorem membersNamed_pairwise (h : WellLaid statements) (kinds : List Kind)
    (name : Option String) : (picked (membersNamed kinds name) statements).Pairwise
      fun a b => a.start ≤ b.start := by
  have hstarts : ∀ a b : Node, a.start ≤ a.stop → a.stop ≤ b.start → b.start ≤ b.stop →
      a.start ≤ b.start := fun _ _ hforward hbefore _ => Int.le_trans hforward hbefore
  refine picked_pairwise hstarts h (fun owner n hn => .inl (List.mem_filter.mp hn).1) ?_
  intro owner hmem
  exact ((h.members owner hmem).pairwise hstarts).sublist List.filter_sublist

/-- Where a declaration counts among what there is to call: at its start, a contract at its end. -/
def calleeRank (n : Node) : Int := if n.kind = .contract then n.stop else n.start

/-- The order of what there is to call. It is the one of the starts, but for a contract and a member
of it. -/
def CalleeBefore (n n' : Node) : Prop :=
  calleeRank n ≤ calleeRank n' ∧
    (n.start ≤ n'.start ∨ (n'.kind = .contract ∧ n ∈ body n'))

theorem calleeRank_bounds {n : Node} (h : n.start ≤ n.stop) :
    n.start ≤ calleeRank n ∧ calleeRank n ≤ n.stop := by
  unfold calleeRank
  split <;> omega

theorem calleeBefore_of_row (a b : Node) (ha : a.start ≤ a.stop) (hab : a.stop ≤ b.start)
    (hb : b.start ≤ b.stop) : CalleeBefore a b := by
  have hfirst := calleeRank_bounds ha
  have hsecond := calleeRank_bounds hb
  exact ⟨by omega, .inl (by omega)⟩

theorem calleesNamed_pairwise (h : WellLaid statements) (name : Option String) :
    (picked (calleesNamed name) statements).Pairwise CalleeBefore := by
  refine picked_pairwise calleeBefore_of_row h (fun owner n hn => (mem_calleesNamed hn).2) ?_
  intro owner hmem
  have hmembers : (membersNamed calleeKinds name owner).Pairwise CalleeBefore :=
    ((h.members owner hmem).pairwise calleeBefore_of_row).sublist List.filter_sublist
  rw [calleesNamed]
  split
  next hself =>
    -- the contract itself is last, and ends after all its members
    rw [Bool.and_eq_true, beq_iff_eq] at hself
    refine List.pairwise_append.mpr ⟨hmembers, List.pairwise_singleton _ _, ?_⟩
    intro n hn owner' howner
    obtain rfl := List.mem_singleton.mp howner
    have hbody : n ∈ body owner' := (List.mem_filter.mp hn).1
    have hrank := calleeRank_bounds ((h.members owner' hmem).forward n hbody)
    have hinside := h.inside owner' hmem n hbody
    refine ⟨?_, .inr ⟨hself.1, hbody⟩⟩
    rw [calleeRank.eq_def owner', if_pos hself.1]
    omega
  next => simpa using hmembers

/-- The buffer of a module that can be opened. -/
def bufferIn (w : World) (c : Context) (m : ModuleId) : Buffer :=
  match ((buffer m).run w c).1 with
  | .ok b => b
  | .error _ => default

theorem statementsIn_congr (h : d.scene w = c.scene w) (m : ModuleId) :
    statementsIn w d m = statementsIn w c m := by
  rw [statementsIn, statementsIn, (statements_yields m).result, (statements_yields m).result,
    Context.viewOf_congr h]

theorem bufferIn_congr (h : d.scene w = c.scene w) (m : ModuleId) :
    bufferIn w d m = bufferIn w c m := by
  rw [bufferIn, bufferIn, (buffer_yields m).result, (buffer_yields m).result,
    Context.viewOf_congr h]

theorem bufferIn_eq {b : Buffer} (h : ((buffer m).run w c).1 = .ok b) : bufferIn w c m = b := by
  rw [bufferIn, h]

def listing (w : World) (c : Context) (extract : Node → List Node) (m : ModuleId) :
    List Location :=
  (picked extract (statementsIn w c m)).map (Location.ofNode (bufferIn w c m))

theorem listing_congr (h : d.scene w = c.scene w) :
    listing w d extract = listing w c extract := by
  funext m
  rw [listing, listing, statementsIn_congr h, bufferIn_congr h]

theorem scan_eq_listing {ls : List Location} (h : (scan extract m).run w c = (.ok ls, d)) :
    ls = listing w c extract m ∧ (ls ≠ [] → Opens w c m) ∧ d.scene w = c.scene w := by
  obtain ⟨found, c', hfound, h⟩ := run_bind_eq_ok h
  have hyields := statements_yields (w := w) (c := c) m
  have hscene := hyields.scene
  rw [hfound] at hscene
  have hstatements : statementsIn w c m = found.getD [] :=
    statementsIn_eq (hyields.result.symm.trans (congrArg Prod.fst hfound))
  dsimp only at h
  split at h
  next hnone =>
    have hpicked : picked extract (statementsIn w c m) = [] := by
      rw [hstatements]
      exact hnone
    cases h
    exact ⟨by simp [listing, hpicked], fun hne => absurd rfl hne, hscene⟩
  next =>
    obtain ⟨b, c'', hb, h⟩ := run_bind_eq_ok h
    cases h
    have hscene' := (buffer_yields (w := w) (c := c') m).scene
    rw [hb] at hscene'
    have hopen : Opens w c' m := ⟨b, by rw [hb]⟩
    refine ⟨?_, fun _ => (opens_congr hscene).mp hopen, hscene'.trans hscene⟩
    rw [listing, hstatements, ← bufferIn_congr hscene, bufferIn_eq (congrArg Prod.fst hb)]
    rfl

theorem scans_eq_listings {found : List (List Location)}
    (h : (modules.mapM (scan extract)).run w c = (.ok found, d)) :
    found = modules.map (listing w c extract) ∧
      ∀ m ∈ modules, listing w c extract m ≠ [] → Opens w c m := by
  induction modules generalizing c found with
  | nil =>
    cases h
    exact ⟨rfl, by simp⟩
  | cons m modules ih =>
    rw [List.mapM_cons] at h
    obtain ⟨ls, c', hfirst, h⟩ := run_bind_eq_ok h
    obtain ⟨found, c'', hrest, h⟩ := run_bind_eq_ok h
    cases h
    obtain ⟨rfl, hopen, hscene⟩ := scan_eq_listing hfirst
    obtain ⟨rfl, hopens⟩ := ih hrest
    simp only [listing_congr hscene, opens_congr hscene] at hopens ⊢
    exact ⟨rfl, List.forall_mem_cons.mpr ⟨hopen, hopens⟩⟩

/-- The locations of fitting declarations of some modules, those of one module in an order. -/
def Ordered (w : World) (c : Context) (fits : List Node → Node → Prop)
    (before : Node → Node → Prop) (modules : List ModuleId) (ls : List Location) : Prop :=
  ∃ origins : List (ModuleId × Node),
    ls = origins.map (fun o => .ofNode (bufferIn w c o.1) o.2) ∧
    (∀ o ∈ origins, o.1 ∈ modules ∧ Opens w c o.1 ∧ fits (statementsIn w c o.1) o.2) ∧
    origins.Pairwise fun o o' => o.1 = o'.1 → before o.2 o'.2

theorem ordered_of_members {fits : List Node → Node → Prop} {before : Node → Node → Prop}
    {ls : List Location} (hfits : ∀ found n, n ∈ picked extract found ↔ fits found n)
    (hbefore : ∀ m ∈ modules, (picked extract (statementsIn w c m)).Pairwise before)
    (h : (members modules extract).run w c = (.ok ls, d)) :
    Ordered w c fits before modules ls := by
  rw [members_eq] at h
  obtain ⟨found, c', hscans, h⟩ := run_bind_eq_ok h
  cases h
  obtain ⟨rfl, hopens⟩ := scans_eq_listings hscans
  obtain ⟨origins, hunique, hmem, hordered⟩ := Location.exists_origins
    (fun m => picked extract (statementsIn w c m)) (fun m => Location.ofNode (bufferIn w c m))
    modules
  refine ⟨origins, ?_, fun o ho => ?_, ?_⟩
  · rw [← hunique, List.flatMap_def]
    rfl
  · obtain ⟨hmodule, hn⟩ := hmem o ho
    refine ⟨hmodule, hopens o.1 hmodule ?_, (hfits _ _).mp hn⟩
    exact List.ne_nil_of_mem (List.mem_map_of_mem hn)
  · refine hordered.imp_of_mem fun ho _ hpair heq => ?_
    exact List.pairwise_iff_forall_sublist.mp (hbefore _ (hmem _ ho).1) (hpair heq)

/-- Where declarations stand one after the other and members inside their contract, the variables
that a scan reports of one module come in the order of their starts, and so does what there is to
call, but that a contract comes after its members. -/
theorem member_scans_ordered (modules : List ModuleId) (name : Option String)
    (h : ∀ m ∈ modules, WellLaid (statementsIn w c m)) :
    (∀ ls d, (resolveVariable modules name).run w c = (.ok ls, d) →
      Ordered w c (IsMember [.stateVariable] name) (fun n n' => n.start ≤ n'.start) modules ls) ∧
    ∀ ls d, (resolveCallee modules name).run w c = (.ok ls, d) →
      Ordered w c (IsCallee name) CalleeBefore modules ls := by
  constructor
  · intro ls d hrun
    refine ordered_of_members mem_picked_membersNamed (fun m hm => ?_) hrun
    exact membersNamed_pairwise (h m hm) [.stateVariable] name
  · intro ls d hrun
    refine ordered_of_members mem_picked_calleesNamed (fun m hm => ?_) hrun
    exact calleesNamed_pairwise (h m hm) name

theorem member_scans_ordered_of_overloads :
    let modules := [0, 1, 2, 0]
    (∀ m ∈ modules, WellLaid (statementsIn overloadedWorld overloadedModules m)) ∧
      (∃ ls d, (resolveVariable modules (some "f")).run overloadedWorld overloadedModules =
          (.ok ls, d) ∧ ls.length = 1 ∧
        Ordered overloadedWorld overloadedModules (IsMember [.stateVariable] (some "f"))
          (fun n n' => n.start ≤ n'.start) modules ls) ∧
      ∃ ls d, (resolveCallee modules (some "f")).run overloadedWorld overloadedModules =
          (.ok ls, d) ∧ ls.length = 4 ∧
        Ordered overloadedWorld overloadedModules (IsCallee (some "f")) CalleeBefore modules
          ls := by
  intro modules
  obtain ⟨hlaid, hvariables, hcallees⟩ :
      (∀ m ∈ modules, WellLaid (statementsIn overloadedWorld overloadedModules m)) ∧
      ((resolveVariable modules (some "f")).run overloadedWorld overloadedModules).1.toOption.map
        List.length = some 1 ∧
      ((resolveCallee modules (some "f")).run overloadedWorld overloadedModules).1.toOption.map
        List.length = some 4 := by decide +kernel
  obtain ⟨hvariable, hcallee⟩ := member_scans_ordered modules (some "f") hlaid
  obtain ⟨ls, d, hrun, hlength⟩ := run_of_map_toOption hvariables
  obtain ⟨ls', d', hrun', hlength'⟩ := run_of_map_toOption hcallees
  exact ⟨hlaid, ⟨ls, d, hrun, hlength, hvariable ls d hrun⟩,
    ls', d', hrun', hlength', hcallee ls' d' hrun'⟩

/-- What is ordered by the starts of its declarations is ordered by its positions. -/
theorem Ordered.positions {fits : List Node → Node → Prop} {ls : List Location}
    (h : Ordered w c fits (fun n n' => n.start ≤ n'.start) [m] ls) :
    (ls.map fun l => l.range.start).Pairwise fun p q => ¬q.Before p := by
  obtain ⟨origins, rfl, hmem, hordered⟩ := h
  rw [List.map_map, List.pairwise_map]
  refine hordered.imp_of_mem fun {o o'} ho ho' hstart => ?_
  have hmodule : o.1 = m := List.mem_singleton.mp (hmem o ho).1
  have hmodule' : o'.1 = m := List.mem_singleton.mp (hmem o' ho').1
  simp only [Function.comp, hmodule, hmodule']
  exact Buffer.positionAt_not_before (hstart (hmodule.trans hmodule'.symm))

/-- A contract is reported after its functions, although it starts before them. -/
theorem callees_not_ordered_by_start :
    WellLaid (statementsIn overloadedWorld overloadedModules 0) ∧
      ∃ ls d, (resolveCallee [0] (some "f")).run overloadedWorld overloadedModules = (.ok ls, d) ∧
        ¬Ordered overloadedWorld overloadedModules (IsCallee (some "f"))
          (fun n n' => n.start ≤ n'.start) [0] ls := by
  obtain ⟨hlaid, hpositions⟩ : WellLaid (statementsIn overloadedWorld overloadedModules 0) ∧
      ((resolveCallee [0] (some "f")).run overloadedWorld overloadedModules).1.toOption.map
        (List.map fun l => l.range.start) = some [⟨0, 21⟩, ⟨0, 37⟩, ⟨0, 0⟩] := by decide +kernel
  obtain ⟨ls, d, hrun, hstarts⟩ := run_of_map_toOption hpositions
  refine ⟨hlaid, ls, d, hrun, fun hordered => ?_⟩
  have hpositions := hordered.positions
  rw [hstarts] at hpositions
  simp [Position.Before] at hpositions

end Query

end SolidityServer
