import Mathlib.Data.List.Nodup
import SolidityServer.Proofs.ReadingOrder

/-! What resolving a reference comes to. Whichever way a name is resolved, by lookup among the
imports or by a scan of all members, the answer is a declaration with that name in the module
set, and the files are asked for in the order of the set. -/

namespace SolidityServer.Query

variable {w : World} {c d : Context} {m k : ModuleId} {rest : List ModuleId} {name : Option String}

/-- A top-level statement, or a member of a contract, library or interface. -/
def Declares (statements : List Node) (n : Node) : Prop :=
  n ∈ statements ∨ ∃ owner ∈ statements, owner.kind ∈ containerKinds ∧ n ∈ body owner

/-- A location of a declaration with a name in one of some modules. -/
def DeclaredIn (w : World) (d : Context) (modules : List ModuleId) (name : Option String)
    (l : Location) : Prop :=
  ∃ k ∈ modules, ∃ found b n, (d.viewOf w k).statements = .ok (some found) ∧
    (d.viewOf w k).source = .ok b ∧ Declares found n ∧ n.name? = name ∧ l = .ofNode b n

/-- The rest of resolving a scoped type name, after its owner was looked up. -/
def ownedType (modules : List ModuleId) (member : String) (x : DirectImport) :
    Query (List Location) :=
  match x.node with
  | none => return []
  | some n => resolveSimpleType x.owner x.statements (some member) n.start modules false

theorem memberScopes_subset : memberScopes ⊆ containerKinds := by decide

theorem PickedFrom.declaredIn {modules : List ModuleId} {extract : Node → List Node} {l : Location}
    (h : PickedFrom w d extract modules l)
    (hextract : ∀ scope, ∀ n ∈ extract scope, n.name? = name ∧ (n ∈ body scope ∨ n = scope)) :
    DeclaredIn w d modules name l := by
  obtain ⟨k, hk, found, b, scope, n, hfound, hb, hscope, hkind, hn, rfl⟩ := h
  obtain ⟨hname, hbody | rfl⟩ := hextract scope n hn
  · exact ⟨k, hk, found, b, n, hfound, hb, .inr ⟨scope, hscope, memberScopes_subset hkind, hbody⟩,
      hname, rfl⟩
  · exact ⟨k, hk, found, b, n, hfound, hb, .inl hscope, hname, rfl⟩

theorem mem_membersNamed {kinds : List Kind} {scope n : Node}
    (h : n ∈ membersNamed kinds name scope) : n.name? = name ∧ n ∈ body scope := by
  obtain ⟨hn, hfits⟩ := List.mem_filter.mp h
  simp only [Bool.and_eq_true, beq_iff_eq] at hfits
  exact ⟨hfits.2, hn⟩

theorem mem_calleesNamed {scope n : Node} (h : n ∈ calleesNamed name scope) :
    n.name? = name ∧ (n ∈ body scope ∨ n = scope) := by
  rcases List.mem_append.mp h with h | h
  · obtain ⟨hname, hn⟩ := mem_membersNamed h
    exact ⟨hname, .inl hn⟩
  · split at h
    next hscope =>
      simp only [Bool.and_eq_true, beq_iff_eq] at hscope
      obtain rfl := List.mem_singleton.mp h
      exact ⟨hscope.2, .inr rfl⟩
    next => cases h

theorem mem_of_findType {scopes : List (List Node)} {n : Node} (h : findType scopes name = some n) :
    ∃ scope ∈ scopes, n ∈ scope ∧ n.name? = name := by
  obtain ⟨scope, hscope, hkinds⟩ := List.exists_of_findSome?_eq_some h
  obtain ⟨kind, _, hfound⟩ := List.exists_of_findSome?_eq_some hkinds
  obtain ⟨hn, hname⟩ := mem_of_findStatement hfound
  exact ⟨scope, hscope, hn, hname⟩

theorem mem_typeScopes {statements scope : List Node} {start : Int} {fileLevel : Bool}
    (h : scope ∈ typeScopes statements start fileLevel) :
    scope = statements ∨
      ∃ owner ∈ statements, owner.kind ∈ containerKinds ∧ scope = body owner := by
  cases hat : nodeAt? statements start with
  | none =>
    cases fileLevel with
    | false => simp [typeScopes, hat] at h
    | true => exact .inl (by simpa [typeScopes, hat] using h)
  | some owner =>
    by_cases hkind : owner.kind ∈ containerKinds
    · have howner : scope = body owner → ∃ owner ∈ statements, owner.kind ∈ containerKinds ∧
          scope = body owner := fun heq => ⟨owner, mem_of_nodeAt? hat, hkind, heq⟩
      cases fileLevel with
      | false => exact .inr (howner (by simpa [typeScopes, hat, hkind] using h))
      | true =>
        have hor : scope = body owner ∨ scope = statements := by
          simpa [typeScopes, hat, hkind] using h
        exact hor.symm.imp_right howner
    · cases fileLevel with
      | false => simp [typeScopes, hat, hkind] at h
      | true => exact .inl (by simpa [typeScopes, hat, hkind] using h)

theorem declares_of_typeScopes {statements scope : List Node} {start : Int} {fileLevel : Bool}
    {n : Node} (hscope : scope ∈ typeScopes statements start fileLevel) (hn : n ∈ scope) :
    Declares statements n := by
  rcases mem_typeScopes hscope with rfl | ⟨owner, howner, hkind, rfl⟩
  · exact .inl hn
  · exact .inr ⟨owner, howner, hkind, hn⟩

/-- The last name of a type reference that is looked up. -/
def TypeRef.target (ref : TypeRef) : Option String :=
  match ref.members with
  | [] => ref.name
  | member :: _ => some member

/-- The name that a reference is resolved by, if it is one. -/
def Reference.target? : Reference → Option (Option String)
  | .nothing => none
  | .ancestor name | .library name | .callee name | .variable name | .member name => some name
  | .type ref => some ref.target

theorem mem_of_mem_distinct {seen : List String} {modules : List ModuleId}
    (h : k ∈ distinct c seen modules) : k ∈ modules := by
  induction modules generalizing seen with
  | nil => exact h
  | cons m modules ih =>
    rw [distinct] at h
    split at h
    · exact List.mem_cons_of_mem m (ih h)
    · rcases List.mem_cons.mp h with rfl | h
      · exact List.mem_cons_self
      · exact List.mem_cons_of_mem m (ih h)

theorem distinct_paths (c : Context) (seen : List String) (modules : List ModuleId) :
    ((distinct c seen modules).map fun k => (c.moduleOf k).path).Nodup ∧
      ∀ k ∈ distinct c seen modules, (c.moduleOf k).path ∉ seen := by
  induction modules generalizing seen with
  | nil => simp [distinct]
  | cons m modules ih =>
    rw [distinct]
    by_cases hseen : seen.contains (c.moduleOf m).path
    · rw [if_pos hseen]
      exact ih seen
    · rw [if_neg hseen]
      obtain ⟨hnodup, hnew⟩ := ih ((c.moduleOf m).path :: seen)
      have hfirst : (c.moduleOf m).path ∉ seen := by simpa using hseen
      constructor
      · rw [List.map_cons, List.nodup_cons]
        refine ⟨fun hmem => ?_, hnodup⟩
        obtain ⟨k, hk, heq⟩ := List.mem_map.mp hmem
        exact hnew k hk (heq ▸ List.mem_cons_self)
      · intro k hk
        rcases List.mem_cons.mp hk with rfl | hk
        · exact hfirst
        · exact fun hmem => hnew k hk (List.mem_cons_of_mem _ hmem)

theorem Ready.nodup (h : Ready w m (m :: rest) d d) : rest.Nodup := by
  obtain ⟨-, own, found, -, -, hmodules⟩ := h.settled
  obtain ⟨-, rfl⟩ := List.cons.inj hmodules
  exact List.Nodup.of_map _ (distinct_paths d _ _).1

/-- A module that was found belongs to one of the specifiers. -/
theorem exists_settled_of_mem {importer : String} {specifiers : List String}
    {found : List (Option ModuleId)}
    (h : List.Forall₂ (Settled w d importer) specifiers found) (hk : some k ∈ found) :
    ∃ specifier ∈ specifiers, Settled w d importer specifier (some k) := by
  induction h with
  | nil => cases hk
  | @cons specifier r specifiers found hr _ ih =>
    rcases List.mem_cons.mp hk with rfl | hk
    · exact ⟨specifier, List.mem_cons_self, hr⟩
    · obtain ⟨later, hlater, hsettled⟩ := ih hk
      exact ⟨later, List.mem_cons_of_mem specifier hlater, hsettled⟩

theorem Ready.imported (h : Ready w m (m :: rest) d d) (hk : k ∈ rest) :
    ∃ own, (d.viewOf w m).statements = .ok own ∧ ∃ specifier ∈ importsOf (own.getD []),
      d.known? (w.project.importTarget specifier (d.moduleOf m).path) = some k := by
  obtain ⟨-, own, found, hown, hsettled, hmodules⟩ := h.settled
  obtain ⟨-, rfl⟩ := List.cons.inj hmodules
  obtain ⟨r, hr, hrk⟩ := List.mem_filterMap.mp (mem_of_mem_distinct hk)
  obtain rfl : r = some k := hrk
  obtain ⟨specifier, hspecifier, hknown⟩ := exists_settled_of_mem hsettled hr
  exact ⟨own, hown, specifier, hspecifier, hknown⟩

theorem Ready.lt_size (h : Ready w m (m :: rest) d d) : ∀ k ∈ rest, k < d.modules.size := by
  intro k hk
  obtain ⟨own, _, specifier, _, hknown⟩ := h.imported hk
  exact h.valid _ _ hknown

/-- Only imports from `rest` are ever open. -/
theorem Walks.front {α : Type} {pre : List ModuleId → Prop} {q : Query α}
    {post : α → List ModuleId → Prop}
    (h : Walks w d m rest (fun done => done <+: rest ∧ pre done) q post) :
    Walks w d m rest pre q post :=
  fun c done hstage hpre => h c done hstage ⟨hstage.front, hpre⟩

theorem LookedUp.declaredIn {done : List ModuleId} {x : DirectImport} {l : Location}
    (h : LookedUp w d m done name x) (hdone : done <+: rest) (hl : x.location = some l) :
    DeclaredIn w d (m :: rest) name l := by
  cases h with
  | missing => cases hl
  | found hopen hstatements hb hn hname =>
    cases hl
    exact ⟨_, List.cons_subset_cons m hdone.subset hopen, _, _, _, hstatements, hb, .inl hn, hname,
      rfl⟩

variable (h : Ready w m (m :: rest) d d)
include h

theorem scopedMembers_walk {extract : Node → List Node} (hextract : ∀ scope, ∀ n ∈ extract scope,
      n.name? = name ∧ (n ∈ body scope ∨ n = scope)) :
    Walks w d m rest (fun _ => True) (members (m :: rest) extract) fun ls _ =>
      ∀ l ∈ ls, DeclaredIn w d (m :: rest) name l :=
  (members_walk h.nodup h.lt_size).mono (fun _ => id) fun _ _ hls l hl =>
    (hls l hl).declaredIn hextract

theorem resolveCallee_walks (name : Option String) :
    Walks w d m rest (fun _ => True) (resolveCallee (m :: rest) name) fun ls _ =>
      ∀ l ∈ ls, DeclaredIn w d (m :: rest) name l :=
  scopedMembers_walk h fun _ _ => mem_calleesNamed

theorem resolveVariable_walks (name : Option String) :
    Walks w d m rest (fun _ => True) (resolveVariable (m :: rest) name) fun ls _ =>
      ∀ l ∈ ls, DeclaredIn w d (m :: rest) name l :=
  scopedMembers_walk h fun _ _ hn => (mem_membersNamed hn).imp_right .inl

theorem resolveTop_walks (name : Option String) (kinds : List Kind) :
    Walks w d m rest (fun _ => True) (resolveTop m name kinds) fun ls _ =>
      ∀ l ∈ ls, DeclaredIn w d (m :: rest) name l := by
  induction kinds with
  | nil => exact .pure fun done _ => by simp
  | cons kind kinds ih =>
    -- the second lookup goes through modules that the first has opened
    refine (directImport_walks h h.nodup h.lt_size name kind).bind fun x => .front ?_
    split
    next l hl =>
      refine .pure fun done hdone l' hl' => ?_
      obtain rfl := List.mem_singleton.mp hl'
      exact hdone.2.declaredIn hdone.1 hl
    next => exact ih.mono (fun _ _ => trivial) fun _ _ => id

/-- A simple type name, looked up in the statements of a module that is open. -/
theorem resolveSimpleType_walks {pre : List ModuleId → Prop} {statements : List Node}
    (hk : ∀ done, pre done → k ∈ m :: done)
    (hstatements : (d.viewOf w k).statements = .ok (some statements)) (name : Option String)
    (start : Int) (fileLevel : Bool) :
    Walks w d m rest pre (resolveSimpleType k statements name start (m :: rest) fileLevel)
      fun ls _ => ∀ l ∈ ls, DeclaredIn w d (m :: rest) name l := by
  unfold resolveSimpleType
  split
  next n hn =>
    refine .front ((buffer_walks fun done hdone => hk done hdone.2).bind fun b =>
      Walks.assuming fun hb => .pure fun done hdone l hl => ?_)
    obtain rfl := List.mem_singleton.mp hl
    obtain ⟨scope, hscope, hmem, hname⟩ := mem_of_findType hn
    exact ⟨k, List.cons_subset_cons m hdone.1.subset (hk done hdone.2), statements, b, n,
      hstatements, hb, declares_of_typeScopes hscope hmem, hname, rfl⟩
  next =>
    exact (scopedMembers_walk h fun _ _ hn => (mem_membersNamed hn).imp_right .inl).mono
      (fun _ _ => trivial) fun _ _ => id

theorem ownedType_walks (member : String) (x : DirectImport) :
    Walks w d m rest (LookedUp w d m · name x) (ownedType (m :: rest) member x) fun ls _ =>
      ∀ l ∈ ls, DeclaredIn w d (m :: rest) (some member) l := by
  intro c done hstage hx
  cases hx with
  | missing => exact ⟨done, hstage, by simp⟩
  | @found owner _ _ _ hopen howner =>
    have hk : ∀ done, owner ∈ m :: done → owner ∈ m :: done := fun _ => id
    exact resolveSimpleType_walks h hk howner _ _ _ c done hstage hopen

theorem resolveType_walks {statements : List Node}
    (hstatements : (d.viewOf w m).statements = .ok (some statements)) (ref : TypeRef) :
    Walks w d m rest (fun _ => True) (resolveType m statements ref (m :: rest) true) fun ls _ =>
      ∀ l ∈ ls, DeclaredIn w d (m :: rest) ref.target l := by
  have hself : ∀ done, True → m ∈ m :: done := fun _ _ => List.mem_cons_self
  unfold resolveType TypeRef.target
  cases ref.members with
  | nil => exact resolveSimpleType_walks h hself hstatements _ _ _
  | cons member _ =>
    have hlookup := directImport_walks h h.nodup h.lt_size ref.name
    refine (hlookup .contract).bind fun asContract => ?_
    by_cases hnode : asContract.node.isSome
    · simp only [hnode, if_true]
      exact ownedType_walks h member asContract
    · simp only [hnode]
      exact ((hlookup .library).mono (fun _ _ => trivial) fun _ _ => id).bind
        (ownedType_walks h member)

theorem resolve_walks {statements : List Node}
    (hstatements : (d.viewOf w m).statements = .ok (some statements)) (ref : Reference) :
    Walks w d m rest (fun _ => True) (resolve m statements (m :: rest) ref) fun ls _ =>
      ∀ l ∈ ls, ∃ name, ref.target? = some name ∧ DeclaredIn w d (m :: rest) name l := by
  have hnamed : ∀ {name : Option String} {q : Query (List Location)},
      Walks w d m rest (fun _ => True) q (fun ls _ => ∀ l ∈ ls, DeclaredIn w d (m :: rest) name l) →
      ref.target? = some name → Walks w d m rest (fun _ => True) q fun ls _ =>
        ∀ l ∈ ls, ∃ name, ref.target? = some name ∧ DeclaredIn w d (m :: rest) name l :=
    fun hq htarget => hq.mono (fun _ => id) fun _ _ hls l hl => ⟨_, htarget, hls l hl⟩
  cases ref with
  | nothing => exact .pure fun _ _ => by simp
  | ancestor name | library name => exact hnamed (resolveTop_walks h name _) rfl
  | type ref => exact hnamed (resolveType_walks h hstatements ref) rfl
  | callee name => exact hnamed (resolveCallee_walks h name) rfl
  | «variable» name => exact hnamed (resolveVariable_walks h name) rfl
  | member name =>
    refine hnamed ?_ rfl
    refine ((resolveVariable_walks h name).mono (fun _ => id) fun _ _ hls => ⟨hls, trivial⟩).bind
      fun found => Walks.assuming fun hfound => ?_
    refine (resolveCallee_walks h name).bind fun callees => .pure fun _ hcallees l hl => ?_
    rcases List.mem_append.mp hl with hl | hl
    · exact hfound l hl
    · exact hcallees l hl

end SolidityServer.Query
