import SolidityServer.Proofs.OutlineHeight
import SolidityServer.Proofs.TypedTree

/-! What a parse comes to. The error marks of the concrete tree decide whether it is clean, and the
recovered body whether there is a tree at all; the fault that is reported is the first one in the
order in which parents come before their children. All of this holds as long as the stack has room
for the levels of the tree, three times over, since its outline may be that much higher. -/

namespace SolidityServer

/-- A node that is an error in its own right. -/
def Label.isFault (l : Label) : Bool := l.isError || l.missing

/-- A node that bears an error mark of any sort. -/
def Label.isDamaged (l : Label) : Bool := l.isError || l.missing || l.marked

theorem Label.isDamaged_of_isFault {l : Label} (h : l.isFault = true) : l.isDamaged = true := by
  rw [isDamaged, show (l.isError || l.missing) = true from h, Bool.true_or]

namespace Concrete

mutual

/-- The labels of all nodes, named or not, parents before children. -/
def labels : Concrete → List Label
  | .node l cs => l :: labelsOf cs

def labelsOf : List Concrete → List Label
  | [] => []
  | c :: cs => c.labels ++ labelsOf cs

end

/-- No node bears an error mark. -/
def Intact (root : Concrete) : Prop :=
  ∀ l ∈ root.labels, l.isError = false ∧ l.missing = false ∧ l.marked = false

mutual

theorem hasError_eq_any : ∀ c : Concrete, c.hasError = c.labels.any Label.isDamaged
  | .node l cs => by
    rw [hasError, labels, List.any_cons, anyHasError_eq_any cs, Label.isDamaged]

theorem anyHasError_eq_any :
    ∀ cs : List Concrete, anyHasError cs = (labelsOf cs).any Label.isDamaged
  | [] => rfl
  | c :: cs => by
    rw [anyHasError, labelsOf, List.any_append, hasError_eq_any c, anyHasError_eq_any cs]

end

theorem hasError_eq_false_iff (root : Concrete) : root.hasError = false ↔ root.Intact := by
  rw [hasError_eq_any, List.any_eq_false]
  simp only [Label.isDamaged, Bool.or_eq_true, not_or, Bool.not_eq_true, and_assoc]
  rfl

mutual

/-- Leaving out the nodes without errors loses no fault. -/
theorem firstError?_eq_find? : ∀ c : Concrete, c.firstError? = c.labels.find? Label.isFault
  | .node l cs => by
    have hrest := firstErrorOf?_eq_find? cs
    rw [firstError?, labels, List.find?_cons]
    by_cases hl : l.isFault = true
    · have hown : (l.isError || l.missing) = true := hl
      rw [if_pos hown, hl]
    · have hown : ¬(l.isError || l.missing) = true := hl
      rw [if_neg hown, show l.isFault = false by simpa using hl]
      by_cases herror : (node l cs).hasError = true
      · rw [if_pos herror, hrest]
      · -- the search is cut off here, and nothing below is a fault
        have hbelow : ∀ k ∈ labelsOf cs, ¬k.isFault = true := by
          intro k hk hfault
          refine herror ?_
          rw [hasError_eq_any, List.any_eq_true]
          exact ⟨k, List.mem_cons_of_mem l hk, Label.isDamaged_of_isFault hfault⟩
        rw [if_neg herror, List.find?_eq_none.mpr hbelow]

theorem firstErrorOf?_eq_find? :
    ∀ cs : List Concrete, firstErrorOf? cs = (labelsOf cs).find? Label.isFault
  | [] => rfl
  | c :: cs => by
    rw [firstErrorOf?, labelsOf, List.find?_append, firstError?_eq_find? c,
      firstErrorOf?_eq_find? cs]

end

/-- What is reported about a tree with errors: its first fault, or none in particular. -/
theorem fault_eq_first (source : SourceText) (root : Concrete) :
    (root.labels.find? Label.isFault = none →
      (root.fault source).offset = 0 ∧ (root.fault source).complaint.message = "Syntax error") ∧
    ∀ l, root.labels.find? Label.isFault = some l →
      (root.fault source).offset = source.charOffset l.start ∧
      (root.fault source).complaint.message = if l.missing then "Expected '" ++ l.kind ++ "'"
        else "Unexpected '" ++ String.ofList (snippet (source.slice (Site.spanOf source l)))
          ++ "'" := by
  rw [fault, firstError?_eq_find?]
  constructor
  · intro hnone
    rw [hnone]
    exact ⟨rfl, rfl⟩
  · intro l hl
    rw [hl]
    refine ⟨rfl, ?_⟩
    dsimp only
    cases l.missing with
    | true => rfl
    | false => rfl

theorem complaint_ne_nestsTooDeeply (source : SourceText) (root : Concrete) :
    (root.fault source).complaint ≠ .nestsTooDeeply := by
  unfold fault
  split
  · exact Complaint.noConfusion
  · dsimp only
    split
    · exact Complaint.noConfusion
    · exact Complaint.noConfusion

theorem outcome_cases (source : SourceText) (root : Concrete) :
    (root.Intact ∧ root.outcome source = .clean (root.program source)) ∨
    (¬root.Intact ∧ root.body source ≠ [] ∧
      root.outcome source = .recovered (root.fault source) (root.program source)) ∨
    (¬root.Intact ∧ root.body source = [] ∧
      root.outcome source = .failed (root.fault source)) := by
  rw [outcome]
  by_cases hintact : root.Intact
  · have herror : root.hasError = false := (hasError_eq_false_iff root).mpr hintact
    rw [herror]
    exact .inl ⟨hintact, rfl⟩
  · have herror : root.hasError = true := by
      rw [← Bool.not_eq_false, hasError_eq_false_iff]
      exact hintact
    rw [herror]
    by_cases hbody : root.body source = []
    · rw [hbody]
      exact .inr (.inr ⟨hintact, rfl, rfl⟩)
    · have hfull : ¬(root.body source).isEmpty = true := by simpa using hbody
      simp only [Bool.not_true, Bool.false_eq_true, if_false, if_neg hfull]
      exact .inr (.inl ⟨hintact, hbody, rfl⟩)

end Concrete

/-- Each recursion takes at most so many frames for a level of what it goes down. Only nodes are
converted. -/
structure Stack.TakesPerLevel (stack : Stack) (frames : Nat) : Prop where
  outlining : ∀ c, stack.outlining c ≤ frames * c.height
  searching : ∀ c, stack.searching c ≤ frames * c.height
  converting : ∀ o : Outline, o.kind?.isSome → stack.converting o ≤ frames * o.height

section Room

variable {stack : Stack} {trees : Trees} {text : String} {root : Concrete}

theorem Stack.convert_program (source : SourceText) :
    stack.convert (root.program source) =
      if stack.converting (root.program source) ≤ stack.room then
        .ok (typedNode [] none .program { start := 0, stop := source.length }
          [(.body, .list (root.body source))])
      else .error .outOfRoom := by
  rw [Stack.convert, root.toNode_program]
  rfl

/-- A tree is converted after it is found, and nothing else can break off. -/
theorem parseSource_eq : parseSource stack trees text =
    match (parseOutline (trees.within stack) text).tree? with
    | some tree => (stack.convert tree).map some
    | none => .ok none := by
  rw [parseSource, parseTyped]
  cases parseOutline (trees.within stack) text with
  | clean o | recovered fault o =>
    dsimp only [Outcome.tree?]
    cases stack.convert o with
    | error e => rfl
    | ok n => rfl
  | failed fault => rfl

/-- A text is said to nest too deep if and only if it has no tree that the stack has room to outline
and, where it has errors, to search. -/
theorem nestsTooDeeply_iff :
    (∃ fault, (parseOutline (trees.within stack) text).fault? = some fault ∧
      fault.complaint = .nestsTooDeeply) ↔
      ∀ root, trees text = some root → stack.admits root = false := by
  have hother := fun root => Concrete.complaint_ne_nestsTooDeeply (SourceText.ofText text) root
  cases hwithin : trees.within stack text with
  | none =>
    have hnone : ∀ root, trees text = some root → stack.admits root = false := by
      simpa [Trees.within, Option.filter_eq_none_iff] using hwithin
    rw [parseOutline, hwithin]
    exact ⟨fun _ => hnone, fun _ => ⟨_, rfl, rfl⟩⟩
  | some root =>
    obtain ⟨hroot, hadmits⟩ := Option.filter_eq_some_iff.mp hwithin
    rw [parseOutline, hwithin]
    rcases Concrete.outcome_cases (SourceText.ofText text) root with
      ⟨-, houtcome⟩ | ⟨-, -, houtcome⟩ | ⟨-, -, houtcome⟩
    · simp [houtcome, Outcome.fault?, hroot, hadmits]
    · simp [houtcome, Outcome.fault?, hother, hroot, hadmits]
    · simp [houtcome, Outcome.fault?, hother, hroot, hadmits]

/-- A parse breaks off if and only if it finds a tree whose outline it has no room to convert. -/
theorem parseSource_eq_error_iff {e : ConversionError} :
    parseSource stack trees text = .error e ↔ e = .outOfRoom ∧
      ∃ tree, (parseOutline (trees.within stack) text).tree? = some tree ∧
        stack.room < stack.converting tree := by
  rw [parseSource_eq]
  cases htree : (parseOutline (trees.within stack) text).tree? with
  | none => simp
  | some tree =>
    obtain ⟨root, -, rfl⟩ := exists_root_of_tree? htree
    dsimp only
    rw [Stack.convert_program]
    split
    · next hroom => simp [Except.map, Nat.not_lt.mpr hroom]
    · next hroom => simp [Except.map, Nat.not_le.mp hroom, eq_comm]

/-- Where there is room to convert, the parse comes to the typed tree of the text. -/
theorem parseSource_eq_parseProgram (hroom : ∀ tree,
      (parseOutline (trees.within stack) text).tree? = some tree →
        stack.converting tree ≤ stack.room) :
    parseSource stack trees text = .ok (parseProgram (trees.within stack) text) := by
  rw [parseSource_eq, parseProgram]
  cases htree : (parseOutline (trees.within stack) text).tree? with
  | none => rfl
  | some tree =>
    have hconvert := hroom tree htree
    obtain ⟨root, -, rfl⟩ := exists_root_of_tree? htree
    dsimp only
    rw [Stack.convert_program, if_pos hconvert, Option.bind_some, Outline.toNode?,
      root.toNode_program]
    rfl

namespace Stack.TakesPerLevel

variable {frames : Nat} (h : stack.TakesPerLevel frames)
  (hroom : frames * (3 * root.height) ≤ stack.room)

include h hroom

theorem admits : stack.admits root = true := by
  have hlevels : frames * root.height ≤ frames * (3 * root.height) :=
    Nat.mul_le_mul_left frames (by omega)
  have houtlining := h.outlining root
  have hsearching := h.searching root
  simp only [Stack.admits, Bool.and_eq_true, Bool.or_eq_true, decide_eq_true_eq]
  exact ⟨by omega, .inr (by omega)⟩

theorem within (hroot : trees text = some root) : trees.within stack text = some root := by
  rw [Trees.within, hroot, Option.filter_some, if_pos (h.admits hroom)]

theorem converting_program_le (source : SourceText) :
    stack.converting (root.program source) ≤ stack.room :=
  calc stack.converting (root.program source)
      ≤ frames * (root.program source).height := h.converting _ rfl
    _ ≤ frames * (3 * root.height) := Nat.mul_le_mul_left frames (root.program_height_le source)
    _ ≤ stack.room := hroom

end Stack.TakesPerLevel

end Room

/-- On a stack with room for its levels, a tree is parsed cleanly if and only if no node of it bears
an error mark. Otherwise the same outline is recovered if it has a body, and nothing is if it has
none, and the fault that is reported is the first `ERROR` or missing node. The typed tree is that of
the outline in the first two cases, and there is none in the third; in no case does the parse break
off. -/
theorem parse_determined_by_marks {stack : Stack} {frames : Nat} {trees : Trees} {text : String}
    {root : Concrete} (hframes : stack.TakesPerLevel frames) (hroot : trees text = some root)
    (hroom : frames * (3 * root.height) ≤ stack.room) :
    let source := SourceText.ofText text
    let tree := root.program source
    let first := root.labels.find? Label.isFault
    let outcome := parseOutline (trees.within stack) text
    (outcome = .clean tree ↔ root.Intact) ∧
    ((∃ fault, outcome = .recovered fault tree) ↔ ¬root.Intact ∧ root.body source ≠ []) ∧
    ((∃ fault, outcome = .failed fault) ↔ ¬root.Intact ∧ root.body source = []) ∧
    (∀ fault, outcome.fault? = some fault →
      (first = none → fault.offset = 0 ∧ fault.complaint.message = "Syntax error") ∧
      ∀ l, first = some l → fault.offset = source.charOffset l.start ∧
        fault.complaint.message = if l.missing then "Expected '" ++ l.kind ++ "'"
          else "Unexpected '" ++ String.ofList (snippet (source.slice (Site.spanOf source l)))
            ++ "'") ∧
    ∃ program, tree.toNode = .ok program ∧ program.kind = .program ∧
      (root.Intact ∨ root.body source ≠ [] → parseSource stack trees text = .ok (some program)) ∧
      (¬root.Intact → root.body source = [] → parseSource stack trees text = .ok none) := by
  intro source tree first outcome
  have hwithin := hframes.within hroom hroot
  have hparse : outcome = root.outcome source := by
    change parseOutline (trees.within stack) text = _
    rw [parseOutline, hwithin]
  have htyped := root.toNode_program source
  have htyped? : tree.toNode? = some _ := (root.program_conforms source).toNode?_eq
  have hreport := root.fault_eq_first source
  have hsource : parseSource stack trees text = .ok (outcome.tree?.bind Outline.toNode?) := by
    refine parseSource_eq_parseProgram fun o ho => ?_
    obtain ⟨root', hroot', rfl⟩ := exists_root_of_tree? ho
    rw [← Option.some.inj (hwithin.symm.trans hroot')]
    exact hframes.converting_program_le hroom source
  rw [hsource, hparse]
  rcases Concrete.outcome_cases source root with
    ⟨hintact, houtcome⟩ | ⟨hdamaged, hbody, houtcome⟩ | ⟨hdamaged, hbody, houtcome⟩
  · rw [houtcome]
    refine ⟨⟨fun _ => hintact, fun _ => rfl⟩, ?_, ?_, ?_, _, htyped, rfl,
      fun _ => congrArg Except.ok htyped?, ?_⟩
    · simp [hintact]
    · simp [hintact]
    · simp [Outcome.fault?]
    · exact fun hdamaged => absurd hintact hdamaged
  · rw [houtcome]
    refine ⟨?_, ⟨fun _ => ⟨hdamaged, hbody⟩, fun _ => ⟨_, rfl⟩⟩, ?_, ?_, _, htyped, rfl,
      fun _ => congrArg Except.ok htyped?, ?_⟩
    · simp [hdamaged]
    · simp [hbody]
    · rintro fault ⟨⟩
      exact hreport
    · exact fun _ hempty => absurd hempty hbody
  · rw [houtcome]
    refine ⟨?_, ?_, ⟨fun _ => ⟨hdamaged, hbody⟩, fun _ => ⟨_, rfl⟩⟩, ?_, _, htyped, rfl, ?_,
      fun _ _ => rfl⟩
    · simp [hdamaged]
    · simp [hbody]
    · rintro fault ⟨⟩
      exact hreport
    · exact fun h => (h.elim hdamaged (absurd hbody)).elim

/-- A contract whose closing brace is missing, after a name of one wide character. -/
def unclosedText : String := "contract Ä \x7b"

def unclosedTree : Concrete :=
  let brace : Concrete :=
    .node { kind := "\x7d", named := false, start := 13, stop := 13, missing := true } []
  .branch "source_file" 0 13 [.branch "contract_declaration" 0 13
    [.token "contract" 0 8, .inField "name" (.branch "identifier" 9 11 []),
      .inField "body" (.branch "contract_body" 12 13 [.token "\x7b" 12 13, brace])]]

/-- A thousand frames, of which outlining takes eight for a level, searching one and converting
four. -/
def thousandFrames : Stack where
  room := 1000
  outlining c := 8 * c.height
  searching := Concrete.height
  converting o := 4 * o.height

theorem parse_of_unclosedTree :
    let trees : Trees := fun _ => some unclosedTree
    thousandFrames.TakesPerLevel 8 ∧ 8 * (3 * unclosedTree.height) ≤ thousandFrames.room ∧
      ¬unclosedTree.Intact ∧
      ∃ fault program, parseOutline (trees.within thousandFrames) unclosedText =
          .recovered fault (unclosedTree.program (.ofText unclosedText)) ∧
        fault.offset = 12 ∧ fault.complaint.message = "Expected '\x7d'" ∧
        (unclosedTree.program (.ofText unclosedText)).toNode = .ok program ∧
        parseSource thousandFrames trees unclosedText = .ok (some program) := by
  intro trees
  have hframes : thousandFrames.TakesPerLevel 8 :=
    { outlining := fun _ => Nat.le_refl _
      searching := fun _ => Nat.le_mul_of_pos_left _ (by decide)
      converting := fun _ _ => Nat.mul_le_mul_right _ (by decide) }
  have hroom : 8 * (3 * unclosedTree.height) ≤ thousandFrames.room := by decide
  have hdamaged : ¬unclosedTree.Intact := by
    rw [← Concrete.hasError_eq_false_iff]
    decide
  have hbody : unclosedTree.body (.ofText unclosedText) ≠ [] := by
    have hfull : (unclosedTree.body (.ofText unclosedText)).isEmpty = false := by decide +kernel
    simpa using hfull
  obtain ⟨-, hrecovered, -, hreport, program, htyped, -, hprogram, -⟩ :=
    @parse_determined_by_marks thousandFrames 8 trees unclosedText unclosedTree hframes rfl hroom
  obtain ⟨fault, hfault⟩ := hrecovered.mpr ⟨hdamaged, hbody⟩
  obtain ⟨hoffset, hmessage⟩ := (hreport fault (by rw [hfault]; rfl)).2 _ rfl
  exact ⟨hframes, hroom, hdamaged, fault, program, hfault, hoffset, hmessage, htyped,
    hprogram (.inr hbody)⟩

end SolidityServer
