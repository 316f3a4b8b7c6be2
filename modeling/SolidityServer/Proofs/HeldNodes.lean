import Mathlib.Data.List.Nodup
import SolidityServer.Proofs.TypedTree

/-! Where the nodes of a typed tree are held. The slots of a node yield every node in its fields
once, the symbols of an import apart, and a parent link leads to the node that holds. -/

namespace SolidityServer

mutual

/-- The nodes in a value, through lists of any depth but not through other nodes. -/
def Value.held : Value → List Node
  | .node n => [n]
  | .list items => Value.heldIn items
  | .plain _ => []

def Value.heldIn : List Value → List Node
  | [] => []
  | v :: items => v.held ++ Value.heldIn items

end

/-- The nodes of a tree: its root, and whatever a field of one of them holds. -/
inductive Node.Below (root : Node) : Node → Prop
  | root : Below root root
  | held {n c : Node} {f : Field} {v : Value} (h : Below root n) (hv : (f, v) ∈ n.fields)
      (hc : c ∈ v.held) : Below root c

/-- The value at a place below a root. -/
def Node.valueAt? (root : Node) (place : Place) : Option Value :=
  place.reverse.foldlM Value.child? (Value.node root)

theorem Node.valueAt?_cons (root : Node) (step : Step) (place : Place) :
    root.valueAt? (step :: place) = (root.valueAt? place).bind (Value.child? · step) := by
  simp [Node.valueAt?, List.foldlM_append]

theorem Node.at?_of_valueAt? {root n : Node} {place : Place}
    (h : root.valueAt? place = some (.node n)) : root.at? place = some n := by
  rw [Node.valueAt?] at h
  rw [Node.at?, h]
  rfl

theorem Outline.Conforms.held_toValue {o : Outline} (h : o.Conforms) (place : Place)
    (holder : Option Place) : (o.toValue place holder).held = (o.toValue place holder).nodes := by
  cases h with
  | null | flag | text | node => rfl
  | @list items flat each =>
    clear each
    suffices hs : ∀ index, Value.heldIn (Outline.itemsToValues place index holder items) =
        (Value.list (Outline.itemsToValues place index holder items)).nodes from hs 0
    induction items with
    | nil => exact fun _ => rfl
    | cons o items ih =>
      intro index
      have hi := ih (fun o ho => flat o (List.mem_cons_of_mem _ ho)) (index + 1)
      have ho := flat o List.mem_cons_self
      rw [Outline.itemsToValues, Value.heldIn, hi]
      cases o with
      | list => simp [Outline.isList] at ho
      | null | flag | text | node => rfl

theorem Value.mem_nodes {v : Value} {c : Node} (h : c ∈ v.nodes) :
    v = .node c ∨ ∃ i, v.child? (.item i) = some (.node c) := by
  cases v with
  | plain => simp [Value.nodes] at h
  | node n =>
    rw [Value.nodes, List.mem_singleton] at h
    exact .inl (h ▸ rfl)
  | list items =>
    rw [Value.nodes, List.mem_filterMap] at h
    obtain ⟨item, hmem, hitem⟩ := h
    obtain ⟨i, hi⟩ := List.mem_iff_getElem?.mp hmem
    cases item with
    | node n =>
      rw [Option.some.injEq] at hitem
      exact .inr ⟨i, by rw [Value.child?, hi, hitem]⟩
    | plain | list => simp at hitem

theorem Outline.getElem?_itemsToValues (place : Place) (holder : Option Place)
    (items : List Outline) (index i : Nat) :
    (Outline.itemsToValues place index holder items)[i]? = items[i]?.map fun o =>
      o.toValue (.item (index + i) :: place) (if o.toJson.isList then none else holder) := by
  induction items generalizing index i with
  | nil => rfl
  | cons o items ih =>
    cases i with
    | zero => rfl
    | succ i =>
      rw [Outline.itemsToValues, List.getElem?_cons_succ, List.getElem?_cons_succ, ih]
      simp only [Nat.add_right_comm, Nat.add_assoc]

/-- Where a node in a typed value is: at the value's own place, or at that of an item. -/
def HeldAt (v : Value) (place p : Place) (c : Node) : Prop :=
  p = place ∧ v = .node c ∨ ∃ i, p = .item i :: place ∧ v.child? (.item i) = some (.node c)

theorem Outline.typed_of_mem_nodes {o : Outline} {place : Place} {holder : Option Place} {c : Node}
    (h : c ∈ (o.toValue place holder).nodes) :
    ∃ kind span fields p, .node kind span fields ∈ o.nodes ∧
      c = typedNode p holder kind span fields ∧ HeldAt (o.toValue place holder) place p c := by
  rcases Value.mem_nodes h with hv | ⟨i, hi⟩
  · cases o with
    | node kind span fields =>
      have hc : c = typedNode place holder kind span fields := by cases hv; rfl
      exact ⟨kind, span, fields, place, by simp [Outline.nodes], hc, .inl ⟨rfl, hv⟩⟩
    | null | flag | text | list => cases hv
  · cases o with
    | list items =>
      have hg := hi
      rw [Outline.toValue, Value.child?, Outline.getElem?_itemsToValues, Option.map_eq_some_iff]
        at hg
      obtain ⟨n, hn, hc⟩ := hg
      cases n with
      | node kind span fields =>
        have hc : c = typedNode (.item i :: place) holder kind span fields := by
          rw [Nat.zero_add] at hc
          cases hc
          rfl
        have hm : .node kind span fields ∈ (Outline.list items).nodes := by
          simp [Outline.nodes, Outline.isNode, List.mem_of_getElem? hn]
        exact ⟨kind, span, fields, _, hm, hc, .inr ⟨i, rfl, hi⟩⟩
      | null | flag | text | list => cases hc
    | null | flag | text | node => cases hi

theorem Outline.places_nodup (o : Outline) (place : Place) (holder : Option Place) :
    ((o.toValue place holder).nodes.map Node.place).Nodup := by
  cases o with
  | null | flag | text | node => simp [Outline.toValue, Value.nodes]
  | list items =>
    suffices h : ∀ index,
        ((Value.list (Outline.itemsToValues place index holder items)).nodes.map
          Node.place).Nodup ∧
        ∀ c ∈ (Value.list (Outline.itemsToValues place index holder items)).nodes,
          ∃ i, index ≤ i ∧ c.place = .item i :: place from (h 0).1
    induction items with
    | nil => exact fun _ => ⟨.nil, by simp [Outline.itemsToValues, Value.nodes]⟩
    | cons o items ih =>
      intro index
      obtain ⟨hnd, hp⟩ := ih (index + 1)
      have hlater : ∀ c ∈ (Value.list (Outline.itemsToValues place (index + 1) holder items)).nodes,
          ∃ i, index ≤ i ∧ c.place = .item i :: place := fun c hc => by
        obtain ⟨i, hi, he⟩ := hp c hc
        exact ⟨i, by omega, he⟩
      cases o with
      | node kind span fields =>
        refine ⟨List.nodup_cons.mpr ⟨?_, hnd⟩, ?_⟩
        · intro hm
          obtain ⟨c, hc, he⟩ := List.mem_map.mp hm
          obtain ⟨i, hi, hci⟩ := hp c hc
          have : Step.item i = .item index := (List.cons.inj (hci.symm.trans he)).1
          cases this
          omega
        · intro c hc
          rcases List.mem_cons.mp hc with rfl | hc
          · exact ⟨index, Nat.le_refl _, rfl⟩
          · exact hlater c hc
      | null | flag | text | list => exact ⟨hnd, hlater⟩

theorem lookup_of_mem {fields : List (Field × Outline)} (hnd : (fields.map Prod.fst).Nodup)
    {f : Field} {o : Outline} (h : (f, o) ∈ fields) : fields.lookup f = some o := by
  obtain ⟨before, after, rfl⟩ := List.append_of_mem h
  rw [List.lookup_eq_some_iff]
  refine ⟨before, after, rfl, fun e he => ?_⟩
  rw [List.map_append, List.map_cons] at hnd
  have hfe : f ≠ e.1 := fun hfe =>
    List.disjoint_of_nodup_append hnd (List.mem_map_of_mem he) (hfe ▸ List.mem_cons_self)
  simpa using hfe

theorem filter_place_of_nodup {nodes : List Node} (hnd : (nodes.map Node.place).Nodup) {c : Node}
    (hc : c ∈ nodes) : nodes.filter (fun d => d.place = c.place) = [c] := by
  induction nodes with
  | nil => simp at hc
  | cons d nodes ih =>
    obtain ⟨hd, hnd⟩ := List.nodup_cons.mp hnd
    rcases List.mem_cons.mp hc with rfl | hc
    · rw [List.filter_cons_of_pos (by simp), List.filter_eq_nil_iff.mpr]
      intro e he
      have hne : e.place ≠ c.place := fun h => hd (h ▸ List.mem_map_of_mem he)
      simpa using hne
    · have hne : d.place ≠ c.place := fun h => hd (h ▸ List.mem_map_of_mem hc)
      rw [List.filter_cons_of_neg (by simpa using hne), ih hnd hc]

theorem HeldAt.under_field {v : Value} {place p : Place} {f : Field} {c : Node}
    (h : HeldAt v (.field f :: place) p c) :
    p = .field f :: place ∨ ∃ i, p = .item i :: .field f :: place := by
  rcases h with ⟨rfl, _⟩ | ⟨i, rfl, _⟩
  · exact .inl rfl
  · exact .inr ⟨i, rfl⟩

/-- The children of a typed node have different places: those of a slot differ by their index,
those of two slots by the slot. -/
theorem typedNode_places_nodup (place : Place) (holder : Option Place) (kind : Kind) (span : Span)
    (fields : List (Field × Outline)) :
    ((typedNode place holder kind span fields).children.map Node.place).Nodup := by
  rw [typedNode_children, List.map_flatMap, List.nodup_flatMap]
  refine ⟨fun f _ => Outline.places_nodup _ _ _, kind.slots_nodup.imp ?_⟩
  intro f g hfg
  refine List.disjoint_left.mpr ?_
  intro p hp hp'
  obtain ⟨c, hc, rfl⟩ := List.mem_map.mp hp
  obtain ⟨d, hd, hcd⟩ := List.mem_map.mp hp'
  obtain ⟨_, _, _, p, _, rfl, hp⟩ := Outline.typed_of_mem_nodes hc
  obtain ⟨_, _, _, q, _, rfl, hq⟩ := Outline.typed_of_mem_nodes hd
  have hpq : q = p := hcd
  subst hpq
  rcases hp.under_field with rfl | ⟨i, rfl⟩ <;> rcases hq.under_field with h | ⟨j, h⟩ <;>
    simp_all

/-- A node of a typed tree, as the typed form of an outline at its place. -/
def Node.PlacedIn (root n : Node) : Prop :=
  ∃ place holder kind span fields, n = typedNode place holder kind span fields ∧
    (Outline.node kind span fields).Conforms ∧ root.valueAt? place = some (.node n)

theorem Node.PlacedIn.at?_place {root n : Node} (h : root.PlacedIn n) :
    root.at? n.place = some n := by
  obtain ⟨place, holder, kind, span, fields, rfl, _, hat⟩ := h
  exact Node.at?_of_valueAt? hat

theorem typedNode_held {place : Place} {holder : Option Place} {kind : Kind} {span : Span}
    {fields : List (Field × Outline)} (h : (Outline.node kind span fields).Conforms) {f : Field}
    {v : Value} {c : Node} (hv : (f, v) ∈ (typedNode place holder kind span fields).fields)
    (hc : c ∈ v.held) :
    ∃ o, (f, o) ∈ fields ∧ v = o.toValue (.field f :: place) (some place) ∧ c ∈ v.nodes ∧
      (typedNode place holder kind span fields).field? f = some v := by
  cases h with
  | node keys each aside =>
    have hv' : (f, v) ∈ commonValues kind span ++ Outline.fieldsToValues place fields := hv
    rcases List.mem_append.mp hv' with hv' | hv'
    · simp only [commonValues, List.mem_cons, List.not_mem_nil, or_false, Prod.mk.injEq] at hv'
      rcases hv' with ⟨rfl, rfl⟩ | ⟨rfl, rfl⟩ | ⟨rfl, rfl⟩ <;> simp [Value.held] at hc
    · rw [Outline.fieldsToValues_eq_map] at hv'
      obtain ⟨⟨g, o⟩, ho, he⟩ := List.mem_map.mp hv'
      obtain ⟨rfl, rfl⟩ := Prod.mk.inj he
      have hg : g ∈ kind.fields.map Prod.fst := keys ▸ List.mem_map_of_mem ho
      have hnd : (fields.map Prod.fst).Nodup := by
        have := kind.fieldNames_nodup
        simp only [Kind.fieldNames, ← keys, List.nodup_cons] at this
        exact this.2.2.2
      refine ⟨o, ho, rfl, ?_, ?_⟩
      · rwa [← (each _ ho).held_toValue]
      · rw [typedNode_field? _ _ _ _ hg, lookup_of_mem hnd ho]
        rfl

theorem Node.PlacedIn.held {root n c : Node} (h : root.PlacedIn n) {f : Field} {v : Value}
    (hv : (f, v) ∈ n.fields) (hc : c ∈ v.held) :
    root.PlacedIn c ∧ c.parent = some n.place ∧
      if n.kind = .importStatement ∧ f = .symbols then c.kind = .importSymbol ∧ c ∉ n.children
      else n.children.filter (fun d => d.place = c.place) = [c] := by
  obtain ⟨place, holder, kind, span, fields, rfl, hn, hat⟩ := h
  obtain ⟨o, ho, rfl, hcn, hf⟩ := typedNode_held hn hv hc
  obtain ⟨k, s, fs, p, hmem, rfl, hp⟩ := Outline.typed_of_mem_nodes hcn
  have hvalue : root.valueAt? (.field f :: place) =
      some (o.toValue (.field f :: place) (some place)) := by
    rw [Node.valueAt?_cons, hat]
    exact hf
  cases hn with
  | node keys each aside =>
    refine ⟨⟨p, some place, k, s, fs, rfl, (each _ ho).of_mem_nodes hmem, ?_⟩, rfl, ?_⟩
    · rcases hp with ⟨rfl, hv⟩ | ⟨i, rfl, hv⟩
      · rw [hvalue, hv]
      · rw [Node.valueAt?_cons, hvalue]
        exact hv
    · have haside : f ∉ kind.slots →
          kind = .importStatement ∧ f = .symbols ∧ k = .importSymbol := fun hslot => by
        rcases aside _ ho hslot with hnil | ⟨hk, hfs, hsym⟩
        · simp [hnil] at hmem
        · exact ⟨hk, hfs, Option.some.inj (hsym _ hmem)⟩
      split
      · rename_i himport
        obtain ⟨rfl, rfl⟩ := himport
        refine ⟨(haside (by decide)).2.2, ?_⟩
        rw [typedNode_children]
        simp [Kind.slots]
      · rename_i himport
        have hslot : f ∈ kind.slots := by
          by_contra hslot
          obtain ⟨rfl, rfl, _⟩ := haside hslot
          exact himport ⟨rfl, rfl⟩
        apply filter_place_of_nodup (typedNode_places_nodup _ _ _ _ _)
        refine List.mem_flatMap.mpr ⟨f, hslot, ?_⟩
        rw [Node.get, hf]
        exact hcn

theorem Node.Below.placedIn {root n : Node} (h : root.Below n) (hr : root.PlacedIn root) :
    root.PlacedIn n := by
  induction h with
  | root => exact hr
  | held _ hv hc ih => exact (ih.held hv hc).1

/-- The typed tree of a text is that of the outline of its concrete tree. -/
theorem parseProgram_eq_some {trees : Trees} {text : String} {program : Node}
    (h : parseProgram trees text = some program) :
    ∃ root, trees text = some root ∧ program = typedNode [] none .program
      { start := 0, stop := (SourceText.ofText text).length }
      [(.body, .list (root.body (SourceText.ofText text)))] := by
  obtain ⟨tree, htree, hnode⟩ := Option.bind_eq_some_iff.mp h
  obtain ⟨root, hroot, rfl⟩ := exists_root_of_tree? htree
  have htyped := (root.program_conforms (SourceText.ofText text)).toNode?_eq
  exact ⟨root, hroot, Option.some.inj (hnode.symm.trans htyped)⟩

/-- In the typed tree of a text every node that a field holds is yielded once by the children of
its holder, the symbols of an import apart, and the parent of a node is the node that holds it. -/
theorem held_nodes_yielded_once {trees : Trees} {text : String} {program : Node}
    (h : parseProgram trees text = some program) :
    program.kind = .program ∧ program.parent = none ∧
      ∀ n, program.Below n → ∀ f v, (f, v) ∈ n.fields → ∀ c ∈ v.held,
        program.at? c.place = some c ∧ c.parent.bind program.at? = some n ∧
        if n.kind = .importStatement ∧ f = .symbols then c.kind = .importSymbol ∧ c ∉ n.children
        else n.children.filter (fun d => d.place = c.place) = [c] := by
  obtain ⟨root, _, rfl⟩ := parseProgram_eq_some h
  refine ⟨rfl, rfl, ?_⟩
  intro n hn f v hv c hc
  have hplaced := hn.placedIn ⟨_, _, _, _, _, rfl, root.program_conforms _, rfl⟩
  obtain ⟨hpc, hparent, hyield⟩ := hplaced.held hv hc
  refine ⟨hpc.at?_place, ?_, hyield⟩
  rw [hparent]
  exact hplaced.at?_place

/-- An import with one symbol, and its concrete tree. -/
def importText : String := "import \x7bAB as C\x7d from 'b';"

def importTree : Concrete :=
  let leaf (kind role : String) (start stop : Nat) : Concrete :=
    .inField role (.branch kind start stop [])
  .branch "source_file" 0 26 [.branch "import_directive" 0 26
    [.token "import" 0 6, .token "\x7b" 7 8, leaf "identifier" "import_name" 8 10,
      .token "as" 11 13, leaf "identifier" "alias" 14 15, .token "\x7d" 15 16,
      .token "from" 17 21, leaf "string" "source" 22 25, .token ";" 25 26]]

theorem import_symbol_held :
    ∃ program statement symbol v,
      parseProgram (fun _ => some importTree) importText = some program ∧
      program.Below statement ∧ (.symbols, v) ∈ statement.fields ∧ symbol ∈ v.held ∧
      program.children.filter (fun d => d.place = statement.place) = [statement] ∧
      symbol.parent.bind program.at? = some statement ∧
      symbol.kind = .importSymbol ∧ symbol ∉ statement.children := by
  obtain ⟨program, h, v, statement, hv, hc, hk, w, symbol, hw, hs⟩ : ∃ program,
      parseProgram (fun _ => some importTree) importText = some program ∧
      ∃ v statement, (.body, v) ∈ program.fields ∧ statement ∈ v.held ∧
        statement.kind = .importStatement ∧
        ∃ w symbol, (.symbols, w) ∈ statement.fields ∧ symbol ∈ w.held :=
    ⟨_, rfl, _, _, List.mem_of_getElem? (i := 3) rfl, List.mem_of_getElem? (i := 0) rfl, rfl,
      _, _, List.mem_of_getElem? (i := 5) rfl, List.mem_of_getElem? (i := 0) rfl⟩
  obtain ⟨hprogram, _, hall⟩ := held_nodes_yielded_once h
  obtain ⟨_, _, hyielded⟩ := hall program .root .body v hv statement hc
  obtain ⟨_, hparent, haside⟩ := hall statement (.held .root hv hc) .symbols w hw symbol hs
  rw [if_neg (by simp [hprogram])] at hyielded
  rw [if_pos ⟨hk, rfl⟩] at haside
  exact ⟨program, statement, symbol, w, h, .held .root hv hc, hw, hs, hyielded, hparent, haside⟩

end SolidityServer
