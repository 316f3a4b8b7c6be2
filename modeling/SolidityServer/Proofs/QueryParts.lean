import SolidityServer.Proofs.Resolution

/-! Properties that a query takes over from its parts. The parts are what is read of a module, the
loads of imports, and the lookups of names at top level; all else that resolves a reference is made
of these. -/

namespace SolidityServer.Query

/-- A property that reads and loads have, and with two queries also one after the other. -/
structure Hereditary (P : (α : Type) → Query α → Prop) : Prop where
  pure {α : Type} (a : α) : P α (pure a)
  bind {α β : Type} {q : Query α} {f : α → Query β} (hq : P α q) (hf : ∀ a, P β (f a)) :
    P β (q >>= f)
  moduleOf (m : ModuleId) : P Module (moduleOf m)
  buffer (m : ModuleId) : P Buffer (buffer m)
  statements (m : ModuleId) : P (Option (List Node)) (statements m)
  load (specifier importer : String) : P (Option ModuleId) (load specifier importer)

namespace Hereditary

variable {P : (α : Type) → Query α → Prop} (hP : Hereditary P)
include hP

theorem mapM {α β : Type} {f : α → Query β} (h : ∀ a, P β (f a)) (as : List α) :
    P (List β) (as.mapM f) := by
  induction as with
  | nil => exact hP.pure []
  | cons a as ih =>
    rw [List.mapM_cons]
    exact hP.bind (h a) fun _ => hP.bind ih fun _ => hP.pure _

theorem imports (m : ModuleId) : P (List String) (imports m) :=
  hP.bind (hP.statements m) fun _ => hP.pure _

theorem declaration (m : ModuleId) (statements : List Node) (n : Node) :
    P DirectImport (declaration m statements n) :=
  hP.bind (hP.buffer m) fun _ => hP.pure _

theorem searchImports (importer : String) (name : Option String) (kind : Kind)
    (visited specifiers : List String) :
    P (Option DirectImport) (searchImports importer name kind visited specifiers) := by
  induction specifiers generalizing visited with
  | nil => exact hP.pure none
  | cons specifier specifiers ih =>
    refine hP.bind (hP.load specifier importer) fun loaded => ?_
    cases loaded with
    | none => exact ih visited
    | some m =>
      refine hP.bind (hP.moduleOf m) fun self => ?_
      dsimp only
      split
      · exact ih visited
      · refine hP.bind (hP.statements m) fun found => ?_
        cases found with
        | none => exact ih _
        | some found =>
          dsimp only
          split
          · exact ih _
          · exact hP.bind (hP.declaration m found _) fun _ => hP.pure _

theorem members (modules : List ModuleId) (extract : Node → List Node) :
    P (List Location) (members modules extract) := by
  have hscan : ∀ m, P (List Location) (scan extract m) := by
    intro m
    refine hP.bind (hP.statements m) fun found => ?_
    dsimp only
    split
    · exact hP.pure []
    · exact hP.bind (hP.buffer m) fun _ => hP.pure _
  rw [members_eq]
  exact hP.bind (hP.mapM hscan modules) fun _ => hP.pure _

theorem resolveSimpleType (m : ModuleId) (statements : List Node) (name : Option String)
    (start : Int) (modules : List ModuleId) (fileLevel : Bool) :
    P (List Location) (resolveSimpleType m statements name start modules fileLevel) := by
  unfold Query.resolveSimpleType
  cases findType (typeScopes statements start fileLevel) name with
  | some n => exact hP.bind (hP.buffer m) fun _ => hP.pure _
  | none => exact hP.members modules _

theorem ownedType (modules : List ModuleId) (member : String) (x : DirectImport) :
    P (List Location) (ownedType modules member x) := by
  unfold Query.ownedType
  cases x.node with
  | none => exact hP.pure []
  | some n => exact hP.resolveSimpleType _ _ _ _ modules false

section Lookups

variable (hlookup : ∀ m name kind, P DirectImport (directImport m name kind))
include hlookup

theorem resolveTop (m : ModuleId) (name : Option String) (kinds : List Kind) :
    P (List Location) (resolveTop m name kinds) := by
  induction kinds with
  | nil => exact hP.pure []
  | cons kind kinds ih =>
    refine hP.bind (hlookup m name kind) fun found => ?_
    cases found.location with
    | some l => exact hP.pure [l]
    | none => exact ih

theorem resolveType (m : ModuleId) (statements : List Node) (ref : TypeRef)
    (modules : List ModuleId) (fileLevel : Bool) :
    P (List Location) (resolveType m statements ref modules fileLevel) := by
  unfold Query.resolveType
  cases ref.members with
  | nil => exact hP.resolveSimpleType m statements _ _ modules fileLevel
  | cons member _ =>
    refine hP.bind (hlookup m ref.name .contract) fun asContract => ?_
    by_cases hnode : asContract.node.isSome
    · simp only [hnode, if_true]
      exact hP.ownedType modules member asContract
    · simp only [hnode]
      exact hP.bind (hlookup m ref.name .library) (hP.ownedType modules member)

theorem resolve (m : ModuleId) (statements : List Node) (modules : List ModuleId)
    (ref : Reference) : P (List Location) (resolve m statements modules ref) := by
  cases ref with
  | nothing => exact hP.pure []
  | ancestor name | library name => exact hP.resolveTop hlookup m name _
  | type ref => exact hP.resolveType hlookup m statements ref modules true
  | callee name => exact hP.members modules _
  | «variable» name => exact hP.members modules _
  | member name =>
    exact hP.bind (hP.members modules _) fun _ => hP.bind (hP.members modules _) fun _ => hP.pure _

end Lookups

end Hereditary

end SolidityServer.Query
