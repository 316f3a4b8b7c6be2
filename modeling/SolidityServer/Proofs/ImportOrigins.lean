import Mathlib.Data.List.Forall2
import SolidityServer.Proofs.CharacterOffsets
import SolidityServer.Proofs.ErrorRecovery
import SolidityServer.Proofs.HeldNodes
import SolidityServer.Proofs.PositionOrder
import SolidityServer.Query.Definition

/-! The origin of an import: the range that is reported for its path. A statement does not know
where its path stands, so the text of the path is searched for in the whole statement. The search
finds the quoted path unless the same text occurs before it. -/

namespace SolidityServer

namespace Text

/-- Whether `sought` stands in a text at an index. -/
def OccursAt (sought cs : List Char) (i : Nat) : Prop := sought <+: cs.drop i

instance (sought cs : List Char) (i : Nat) : Decidable (OccursAt sought cs i) :=
  inferInstanceAs (Decidable (sought <+: cs.drop i))

variable {sought cs : List Char} {f i j n : Nat}

/-- The search for a text that occurs ends where it first does. -/
theorem exists_indexOf? (h : OccursAt sought cs j) :
    ∃ k ≤ j, indexOf? sought cs = some k ∧ OccursAt sought cs k ∧
      ∀ i < k, ¬OccursAt sought cs i := by
  induction cs generalizing j with
  | nil =>
    have hnil : sought = [] := by simpa [OccursAt] using h
    exact ⟨0, Nat.zero_le j, by simp [indexOf?, hnil], by simp [OccursAt, hnil], by simp⟩
  | cons c cs ih =>
    by_cases hhere : sought <+: c :: cs
    · refine ⟨0, Nat.zero_le j, ?_, hhere, by simp⟩
      rw [indexOf?, if_pos (List.isPrefixOf_iff_prefix.mpr hhere)]
    · cases j with
      | zero => exact absurd h hhere
      | succ j =>
        obtain ⟨k, hkj, hk, hoccurs, hfirst⟩ := ih h
        refine ⟨k + 1, Nat.succ_le_succ hkj, ?_, hoccurs, fun i hi => ?_⟩
        · rw [indexOf?, if_neg (mt List.isPrefixOf_iff_prefix.mp hhere), hk, Option.map_some]
        · cases i with
          | zero => exact hhere
          | succ i => exact hfirst i (Nat.lt_of_succ_lt_succ hi)

theorem occursAt_slice (h : i + sought.length ≤ n) :
    OccursAt sought ((cs.drop f).take n) i ↔ OccursAt sought cs (f + i) := by
  rw [OccursAt, OccursAt, List.drop_take, List.drop_drop, List.prefix_take_iff]
  exact and_iff_left (by omega)

theorem unquote_quoted {quote : Char} (h : quote ∈ ['\x22', '\x27']) (path : List Char) :
    unquote (quote :: path ++ [quote]) = path := by
  have hquote : (quote == '\x22' || quote == '\x27') = true := by simpa using h
  simp [unquote, hquote]

end Text

theorem Buffer.slice_of_le {b : Buffer} {f g : Nat} (hfg : f ≤ g) (hg : g ≤ b.chars.length) :
    b.slice f g = (b.chars.drop f).take (g - f) := by
  have hbound : ∀ i : Nat, i ≤ b.chars.length → bound b.chars.length i = i := by
    intro i hi
    rw [bound, if_neg (by omega)]
    omega
  simp only [slice, hbound f (by omega), hbound g hg]

namespace Location

open Text

variable {b : Buffer} {path : List Char} {f g o : Nat}

/-- In a statement that holds a path the search ends at the first place where its text occurs. -/
theorem specifierRange?_first (hpath : path ≠ []) (hf : f ≤ o) (hg : o + path.length ≤ g)
    (hlength : g ≤ b.chars.length) (h : OccursAt path b.chars o) :
    ∃ k, f ≤ k ∧ k ≤ o ∧ OccursAt path b.chars k ∧
      (∀ i, f ≤ i → i < k → ¬OccursAt path b.chars i) ∧
      specifierRange? b f g (String.ofList path) = some (b.rangeOf k (k + path.length)) := by
  have hslice := Buffer.slice_of_le (b := b) (show f ≤ g by omega) hlength
  have hsame : ∀ i ≤ o - f, OccursAt path (b.slice f g) i ↔ OccursAt path b.chars (f + i) := by
    intro i hi
    rw [hslice]
    exact occursAt_slice (by omega)
  have hinside : OccursAt path (b.slice f g) (o - f) := by
    rw [hsame _ (Nat.le_refl _), Nat.add_sub_cancel' hf]
    exact h
  obtain ⟨k, hk, hindex, hoccurs, hfirst⟩ := exists_indexOf? hinside
  refine ⟨f + k, Nat.le_add_right f k, by omega, (hsame k hk).mp hoccurs, fun i hi hik => ?_, ?_⟩
  · have hbefore := hfirst (i - f) (by omega)
    rwa [hsame _ (by omega), Nat.add_sub_cancel' hi] at hbefore
  · have hsome : (String.ofList path).isEmpty = false := by simpa using hpath
    simp only [specifierRange?, hsome, Bool.false_eq_true, if_false, String.toList_ofList, hindex,
      Option.map_some, String.length_ofList]
    rw [Int.natCast_add]

/-- The search finds the place of the path itself if and only if the text of the path does not
occur before. -/
theorem specifierRange?_iff (hpath : path ≠ []) (hf : f ≤ o) (hg : o + path.length ≤ g)
    (hlength : g ≤ b.chars.length) (h : OccursAt path b.chars o) :
    specifierRange? b f g (String.ofList path) = some (b.rangeOf o (o + path.length)) ↔
      ∀ i, f ≤ i → i < o → ¬OccursAt path b.chars i := by
  obtain ⟨k, hfk, hko, hoccurs, hfirst, hrange⟩ := specifierRange?_first hpath hf hg hlength h
  rw [hrange]
  constructor
  · intro hsame
    obtain ⟨hstart, -⟩ := Buffer.rangeOf_injective (by omega) (by omega) (by omega) (by omega)
      (Option.some.inj hsame)
    obtain rfl : k = o := by omega
    exact hfirst
  · intro hnone
    obtain rfl : k = o := by
      rcases Nat.lt_or_eq_of_le hko with hlt | heq
      · exact absurd hoccurs (hnone k hfk hlt)
      · exact heq
    rfl

end Location

namespace Site

variable {source : SourceText} {children : List Reading} {r : Reading}

theorem ImportParts.add_path_of_source (p : ImportParts) (hfield : r.label.field = some "source")
    (hkind : r.label.kind = "string") :
    (p.add source r).path = Text.unquote (source.slice r.span) := by
  simp [add, hfield, hkind]

theorem ImportParts.add_path_of_other (p : ImportParts) (hfield : r.label.field ≠ some "source") :
    (p.add source r).path = p.path := by
  unfold add
  split
  · rfl
  · split
    · rfl
    · split
      · next hsource => exact absurd hsource hfield
      · rfl
      · unfold withAlias
        split <;> rfl
      · rfl

theorem importPath_of_others (p : ImportParts)
    (h : ∀ r ∈ children, r.label.field ≠ some "source") :
    (children.foldl (ImportParts.add source) p).path = p.path := by
  induction children generalizing p with
  | nil => rfl
  | cons r children ih =>
    rw [List.foldl_cons, ih _ fun r' hr' => h r' (List.mem_cons_of_mem r hr'),
      p.add_path_of_other (h r List.mem_cons_self)]

/-- The path of an import is the text of its literal, without the quotes. -/
theorem importPath_of_literal (p : ImportParts)
    (h : children.filter (·.label.field == some "source") = [r]) (hkind : r.label.kind = "string") :
    (children.foldl (ImportParts.add source) p).path = Text.unquote (source.slice r.span) := by
  obtain ⟨before, after, rfl, -, hfield, hafter⟩ := List.filter_eq_cons_iff.mp h
  have hothers : ∀ r' ∈ after, r'.label.field ≠ some "source" := by
    simpa using List.filter_eq_nil_iff.mp hafter
  rw [List.foldl_append, List.foldl_cons, importPath_of_others _ hothers]
  exact ImportParts.add_path_of_source _ (by simpa using hfield) hkind

end Site

/-- Two lists that go along with a third one go along with each other. -/
theorem forall₂_of_common {α β γ : Type} {R : α → β → Prop} {S : γ → β → Prop} {as : List α}
    {bs : List β} {cs : List γ} (h : List.Forall₂ R as bs) (h' : List.Forall₂ S cs bs) :
    List.Forall₂ (fun a c => ∃ b, R a b ∧ S c b) as cs := by
  induction h generalizing cs with
  | nil =>
    cases h'
    exact .nil
  | cons hr _ ih =>
    cases h' with
    | cons hs hrest => exact .cons ⟨_, hr, hs⟩ (ih hrest)

namespace Concrete

variable {source : SourceText} {text : String} {c literal : Concrete} {s e : Nat}
  {path : List Char}

/-- An import directive of a text, with its path in quotes from the character at `s` to the one
before `e`. -/
structure ImportsPath (text : String) (c : Concrete) (s e : Nat) (path : List Char) : Prop where
  directive : c.label.kind = "import_directive"
  inText : c.label.stop ≤ text.utf8ByteSize
  literal : ∃ literal, c.children.filter (·.label.field == some "source") = [literal] ∧
    literal.label.kind = "string" ∧ c.label.start ≤ literal.label.start ∧
    literal.label.stop ≤ c.label.stop ∧
    Site.spanOf (SourceText.ofText text) literal.label = ⟨s, e⟩
  quoted : ∃ quote ∈ ['\x22', '\x27'], (text.toList.drop s).take (e - s) = quote :: path ++ [quote]
  nonempty : path ≠ []

theorem span_read (source : SourceText) (c : Concrete) :
    (c.read source).span = Site.spanOf source c.label := by
  cases c
  rfl

theorem slice_ofText (text : String) (span : Span) : (SourceText.ofText text).slice span =
    (text.toList.drop span.start).take (span.stop - span.start) := by
  simp [SourceText.slice, SourceText.ofText, SourceText.ofChars, List.extract_eq_take_drop]

/-- The statement of an import directive has the path of its literal. -/
theorem ImportsPath.source_eq (h : c.ImportsPath text s e path) :
    ((c.site (SourceText.ofText text)).children.foldl
      (Site.ImportParts.add (SourceText.ofText text)) {}).path = path := by
  obtain ⟨literal, hliteral, hkind, -, -, hspan⟩ := h.literal
  obtain ⟨quote, hquote, htext⟩ := h.quoted
  have hreadings : (c.site (SourceText.ofText text)).children.filter
      (·.label.field == some "source") = [literal.read (SourceText.ofText text)] := by
    rw [site, readAll_eq_map, List.filter_map]
    simp only [Function.comp_def, label_read, hliteral, List.map_cons, List.map_nil]
  rw [Site.importPath_of_literal _ hreadings (by rw [label_read, hkind]), span_read, hspan,
    slice_ofText, htext, Text.unquote_quoted hquote]

theorem IsUnit.isNode {source : SourceText} {o : Outline} (h : IsUnit source c o) :
    o.isNode = true := by
  obtain ⟨kind, fields, -, rfl⟩ := h.shape
  rfl

/-- The statements of a typed tree are the declarations that are exposed in the concrete tree, one
by one. -/
theorem statements_of_exposed {trees : Trees} {root : Concrete} {program : Node}
    (hroot : trees text = some root) (hprogram : parseProgram trees text = some program) :
    List.Forall₂ (fun c n => ∃ o, IsUnit (SourceText.ofText text) c o ∧
        ∃ place, o.toValue place (some []) = .node n)
      ((exposedIn root.children).filter declares) (program.get .body).nodes := by
  obtain ⟨root', hroot', rfl⟩ := parseProgram_eq_some hprogram
  obtain rfl : root' = root := Option.some.inj (hroot'.symm.trans hroot)
  have hunits := body_of_exposed (SourceText.ofText text) root'
  have hall : (Outline.list (root'.body (SourceText.ofText text))).nodes =
      root'.body (SourceText.ofText text) := by
    have hboth := hunits.flip.imp fun o c (h : IsUnit _ c o) => And.intro h.isNode h
    exact List.filter_eq_self.mpr ((List.forall₂_and_left _ _).mp hboth).1
  have hnodes := toValue_nodes [.field .body] (some [])
    (.list (root'.body (SourceText.ofText text)))
  rw [hall] at hnodes
  exact forall₂_of_common hunits hnodes

/-- The statement of an import directive, as it is typed. -/
theorem ImportsPath.typed (h : c.ImportsPath text s e path) {o : Outline} {n : Node} {place : Place}
    (ho : IsUnit (SourceText.ofText text) c o) (hn : o.toValue place (some []) = .node n) :
    n.kind = .importStatement ∧ n.start = (SourceText.ofText text).charOffset c.label.start ∧
      n.stop = (SourceText.ofText text).charOffset c.label.stop ∧
      (n.get .source).text? = some (String.ofList path) := by
  have hkind : (c.site (SourceText.ofText text)).kind = "import_directive" := h.directive
  have hunit : (c.site (SourceText.ofText text)).unit =
      some (c.site (SourceText.ofText text)).importStatement := by
    simp [Site.unit, hkind]
  obtain rfl := Option.some.inj (hunit.symm.trans ho.unit)
  obtain rfl := Value.node.inj hn
  refine ⟨rfl, rfl, rfl, ?_⟩
  rw [← h.source_eq]
  rfl

/-- Where the path of an import directive stands: in the directive, one character after its first
quote. -/
theorem ImportsPath.occurs (h : c.ImportsPath text s e path) :
    (SourceText.ofText text).charOffset c.label.start ≤ s ∧ e = s + path.length + 2 ∧
      e ≤ (SourceText.ofText text).charOffset c.label.stop ∧
      (SourceText.ofText text).charOffset c.label.stop ≤ text.toList.length ∧
      Text.OccursAt path text.toList (s + 1) := by
  obtain ⟨literal, -, -, hstart, hstop, hspan⟩ := h.literal
  obtain ⟨rfl, rfl⟩ := Span.mk.inj hspan
  obtain ⟨quote, -, htext⟩ := h.quoted
  have hend : (SourceText.ofText text).charOffset c.label.stop ≤ text.toList.length := by
    have hlength := SourceText.charOffset_le_length h.inText
    rwa [SourceText.length_ofText, ← String.length_toList] at hlength
  have hlast := SourceText.charOffset_mono text hstop
  have hsize := congrArg List.length htext
  simp only [List.length_take, List.length_drop, List.length_append, List.length_cons,
    List.length_nil] at hsize
  refine ⟨SourceText.charOffset_mono text hstart, by omega, hlast, hend, ?_⟩
  obtain ⟨rest, hrest⟩ := htext ▸ List.take_prefix (_ - _) (text.toList.drop _)
  rw [Text.OccursAt, ← List.drop_drop, ← hrest]
  simp

/-- The origin of an import is the first place in its directive where the text of the path occurs.
It is the text between the quotes if and only if the path does not occur before that. -/
theorem import_origins {trees : Trees} {b : Buffer} {root : Concrete} {program : Node}
    (hroot : trees b.text = some root) (hprogram : parseProgram trees b.text = some program) :
    List.Forall₂ (fun c n => ∀ (s e : Nat) (path : List Char), c.ImportsPath b.text s e path →
        let first := (SourceText.ofText b.text).charOffset c.label.start
        let origin := Location.specifierRange? b n.start n.stop ((n.get .source).text?.getD "")
        (∃ k, first ≤ k ∧ k ≤ s + 1 ∧ Text.OccursAt path b.chars k ∧
          (∀ i, first ≤ i → i < k → ¬Text.OccursAt path b.chars i) ∧
          origin = some (b.rangeOf k (k + path.length))) ∧
        (origin = some (b.rangeOf (s + 1) (e - 1)) ↔
          ∀ i, first ≤ i → i ≤ s → ¬Text.OccursAt path b.chars i))
      ((exposedIn root.children).filter declares) (program.get .body).nodes := by
  refine (statements_of_exposed hroot hprogram).imp ?_
  rintro c n ⟨o, ho, place, hn⟩ s e path h
  obtain ⟨-, hstart, hstop, hsource⟩ := h.typed ho hn
  obtain ⟨hs, rfl, he, hlength, hoccurs⟩ := h.occurs
  dsimp only
  rw [hstart, hstop, hsource, Option.getD_some]
  have hf : (SourceText.ofText b.text).charOffset c.label.start ≤ s + 1 := by omega
  have hg : s + 1 + path.length ≤ (SourceText.ofText b.text).charOffset c.label.stop := by omega
  refine ⟨Location.specifierRange?_first h.nonempty hf hg hlength hoccurs, ?_⟩
  have hiff := Location.specifierRange?_iff h.nonempty hf hg hlength hoccurs
  have hspan : b.rangeOf (s + 1 : Nat) ((s + 1 : Nat) + path.length) =
      b.rangeOf (s + 1) ((s + path.length + 2 : Nat) - 1) := by
    congr 1
    omega
  rw [← hspan, hiff]
  simp only [Nat.lt_succ_iff]

theorem import_origin_of_importTree :
    let b := Buffer.ofUri "file:///a.sol" importText .utf16
    ∃ c program n, importTree.children = [c] ∧ c.ImportsPath b.text 22 25 ['b'] ∧
      parseProgram (fun _ => some importTree) b.text = some program ∧
      (program.get .body).nodes = [n] ∧
      Location.specifierRange? b n.start n.stop ((n.get .source).text?.getD "") =
        some (b.rangeOf 23 24) := by
  intro b
  obtain ⟨c, hc, hexposed⟩ : ∃ c, importTree.children = [c] ∧
      (exposedIn importTree.children).filter declares = [c] := ⟨_, rfl, rfl⟩
  have hpath : c.ImportsPath b.text 22 25 ['b'] := by
    obtain rfl := (List.cons.inj hc).1
    exact ⟨rfl, by decide +kernel, ⟨_, rfl, rfl, by decide, by decide, by decide +kernel⟩,
      ⟨'\x27', by decide, by decide +kernel⟩, by decide⟩
  obtain ⟨program, hprogram⟩ : ∃ program,
      parseProgram (fun _ => some importTree) b.text = some program := ⟨_, rfl⟩
  have horigins := @import_origins (fun _ => some importTree) b importTree program rfl hprogram
  rw [hexposed] at horigins
  obtain ⟨n, rest, horigin, hrest, hnodes⟩ := List.forall₂_cons_left_iff.mp horigins
  obtain rfl := List.forall₂_nil_left_iff.mp hrest
  refine ⟨c, program, n, hc, hpath, hprogram, hnodes, (horigin 22 25 _ hpath).2.mpr ?_⟩
  intro i _ hi
  have hnowhere : ∀ i ≤ 22, ¬Text.OccursAt ['b'] b.chars i := by decide +kernel
  exact hnowhere i hi

/-- The name of the symbol stands before the path and reads the same. -/
theorem import_origin_of_symbol :
    let b := Buffer.ofUri "file:///work/a.sol" "import \x7bb\x7d from \x22b\x22;\n" .utf16
    ((parseProgram Trees.grammar b.text).map fun program => (program.get .body).nodes.map fun n =>
        Location.specifierRange? b n.start n.stop ((n.get .source).text?.getD "")) =
      some [some (b.rangeOf 8 9)] ∧
    b.slice 16 19 = ['\x22', 'b', '\x22'] ∧ b.rangeOf 8 9 ≠ b.rangeOf 17 18 := by
  decide +kernel

end Concrete

end SolidityServer
