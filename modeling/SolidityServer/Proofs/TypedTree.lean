import Mathlib.Data.List.Nodup
import SolidityServer.Proofs.ReadingShape
import SolidityServer.Syntax.Parse

/-! The typed form of an outline that keeps to the schema. Its conversion through JSON drops no key
and falls back on no default, so the typed tree can be said directly, place by place. -/

namespace SolidityServer

def Kind.KeyMeaning.field? : Kind.KeyMeaning → Option Field
  | .field f => some f
  | _ => none

theorem Kind.mem_all (k : Kind) : k ∈ Kind.all := by cases k <;> decide

theorem Kind.ofName_tag (k : Kind) : Kind.ofName k.tag = k := by
  have h : ∀ k ∈ Kind.all, Kind.ofName k.tag = k := by decide +kernel
  exact h k k.mem_all

/-- The names of the fields of a kind, the common ones first. -/
def Kind.fieldNames (k : Kind) : List Field := .tag :: .start :: .stop :: k.fields.map Prod.fst

theorem Kind.fieldNames_nodup (k : Kind) : k.fieldNames.Nodup := by
  have h : ∀ k ∈ Kind.all, k.fieldNames.Nodup := by decide +kernel
  exact h k k.mem_all

theorem Kind.allFields_names (k : Kind) (tag : Json) :
    (k.allFields tag).map Prod.fst = k.fieldNames := by
  simp [Kind.allFields, Kind.fieldNames]

/-- The key of a field in an outline is read back as that field. -/
theorem Kind.meaning_key {k : Kind} {f : Field} (hf : f ∈ k.fieldNames) (ht : f ≠ .tag) :
    k.meaning f.key = .field f ∧ f.key ≠ "type" := by
  have h : ∀ k ∈ Kind.all, ∀ f ∈ k.fieldNames, f ≠ .tag →
      (k.meaning f.key).field? = some f ∧ f.key ≠ "type" := by decide +kernel
  obtain ⟨hm, hk⟩ := h k k.mem_all f hf ht
  refine ⟨?_, hk⟩
  cases he : k.meaning f.key with
  | field g =>
    rw [he] at hm
    exact congrArg _ (Option.some.inj hm)
  | parent | slots | unknown => simp [he, Kind.KeyMeaning.field?] at hm

/-- What every node of a kind says of itself: its kind and the characters it spans. -/
def commonValues (kind : Kind) (span : Span) : List (Field × Value) :=
  [(.tag, .plain (.str kind.tag)), (.start, .plain (.int span.start)),
    (.stop, .plain (.int span.stop))]

mutual

/-- The typed form of an outline at a place, held by the node at the place `holder`. -/
def Outline.toValue (place : Place) (holder : Option Place) : Outline → Value
  | .null => .plain .null
  | .flag b => .plain (.bool b)
  | .text t => .plain (.str t)
  | .list items => .list (Outline.itemsToValues place 0 holder items)
  | .node kind span fields =>
    .node (.mk kind place holder (commonValues kind span ++ Outline.fieldsToValues place fields))

def Outline.itemsToValues (place : Place) (index : Nat) (holder : Option Place) :
    List Outline → List Value
  | [] => []
  | o :: items =>
    o.toValue (.item index :: place) (if o.toJson.isList then none else holder)
      :: Outline.itemsToValues place (index + 1) holder items

def Outline.fieldsToValues (place : Place) : List (Field × Outline) → List (Field × Value)
  | [] => []
  | (f, o) :: fields =>
    (f, o.toValue (.field f :: place) (some place)) :: Outline.fieldsToValues place fields

end

theorem Outline.fieldsToValues_eq_map (place : Place) (fields : List (Field × Outline)) :
    Outline.fieldsToValues place fields =
      fields.map fun e => (e.1, e.2.toValue (.field e.1 :: place) (some place)) := by
  induction fields with
  | nil => rfl
  | cons e fields ih => rw [Outline.fieldsToValues, ih]; rfl

theorem assign_of_notMem {f : Field} {v : Value} {fields : List (Field × Value)}
    (h : f ∉ fields.map Prod.fst) : assign f v fields = fields := by
  unfold assign
  conv_rhs => rw [← List.map_id fields]
  apply List.map_congr_left
  intro e he
  have : e.1 ≠ f := fun hef => h (hef ▸ List.mem_map_of_mem he)
  simp [this]

theorem assign_at {f : Field} {v old : Value} {before after : List (Field × Value)}
    (hb : f ∉ before.map Prod.fst) (ha : f ∉ after.map Prod.fst) :
    assign f v (before ++ (f, old) :: after) = before ++ (f, v) :: after := by
  have h : assign f v (before ++ (f, old) :: after) =
      assign f v before ++ (f, v) :: assign f v after := by simp [assign]
  rw [h, assign_of_notMem hb, assign_of_notMem ha]

def assignAll (given fields : List (Field × Value)) : List (Field × Value) :=
  given.foldl (fun fields e => assign e.1 e.2 fields) fields

/-- Fields given in the order of their defaults replace all of them. -/
theorem assignAll_append {given defaults : List (Field × Value)} (before : List (Field × Value))
    (hkeys : given.map Prod.fst = defaults.map Prod.fst)
    (hnd : ((before ++ defaults).map Prod.fst).Nodup) :
    assignAll given (before ++ defaults) = before ++ given := by
  induction given generalizing defaults before with
  | nil =>
    have : defaults = [] := List.map_eq_nil_iff.mp hkeys.symm
    simp [this, assignAll]
  | cons e given ih =>
    cases defaults with
    | nil => simp at hkeys
    | cons d defaults =>
      obtain ⟨f, v⟩ := e
      obtain ⟨g, old⟩ := d
      simp only [List.map_cons, List.cons.injEq] at hkeys
      obtain ⟨rfl, hkeys⟩ := hkeys
      have hnd' := hnd
      simp only [List.map_append, List.map_cons] at hnd'
      have hb : f ∉ before.map Prod.fst := fun hm =>
        List.disjoint_of_nodup_append hnd' hm List.mem_cons_self
      have ha : f ∉ defaults.map Prod.fst :=
        (List.nodup_cons.mp (List.Nodup.of_append_right hnd')).1
      have hh := ih (before ++ [(f, v)]) hkeys (by simpa using hnd)
      rw [assignAll, List.foldl_cons, assign_at hb ha]
      simpa [assignAll] using hh

theorem Node.draft_cons {kind : Kind} {place : Place} {d : Node.Draft} {f : Field} {json : Json}
    {value : Value} {rest : List (String × Json)} (hf : f ∈ kind.fieldNames) (ht : f ≠ .tag)
    (hv : Value.ofJson (.field f :: place) (some place) json = .ok value) :
    Node.draft kind place d ((f.key, json) :: rest) =
      Node.draft kind place { d with fields := assign f value d.fields } rest := by
  obtain ⟨hm, hk⟩ := Kind.meaning_key hf ht
  rw [Node.draft]
  simp [hk, hm, Kind.KeyMeaning.place, hv, Node.Draft.take, bind, Except.bind]

theorem Node.draft_tag {kind : Kind} {place : Place} {d : Node.Draft} {json : Json}
    {rest : List (String × Json)} :
    Node.draft kind place d ((Field.key .tag, json) :: rest) = Node.draft kind place d rest := by
  rw [Node.draft]
  simp [Field.key]

theorem Node.draft_append {kind : Kind} {place : Place} (fields : List (Field × Outline))
    (d : Node.Draft) (rest : List (String × Json))
    (hk : ∀ e ∈ fields, e.1 ∈ kind.fieldNames ∧ e.1 ≠ .tag)
    (hv : ∀ e ∈ fields, ∀ place holder,
      Value.ofJson place holder e.2.toJson = .ok (e.2.toValue place holder)) :
    Node.draft kind place d (Outline.fieldsToJson fields ++ rest) =
      Node.draft kind place
        { d with fields := assignAll (Outline.fieldsToValues place fields) d.fields } rest := by
  induction fields generalizing d with
  | nil => rfl
  | cons e fields ih =>
    obtain ⟨f, o⟩ := e
    obtain ⟨hf, ht⟩ := hk (f, o) List.mem_cons_self
    have ho := hv (f, o) List.mem_cons_self (.field f :: place) (some place)
    rw [Outline.fieldsToJson, List.cons_append, Node.draft_cons hf ht ho, Outline.fieldsToValues,
      assignAll, List.foldl_cons]
    exact ih _ (fun e he => hk e (List.mem_cons_of_mem _ he))
      (fun e he => hv e (List.mem_cons_of_mem _ he))

theorem Value.ofItems_toJson (place : Place) (holder : Option Place) (items : List Outline)
    (index : Nat) (hv : ∀ o ∈ items, ∀ place holder,
      Value.ofJson place holder o.toJson = .ok (o.toValue place holder)) :
    Value.ofItems place index holder (Outline.itemsToJson items) =
      .ok (Outline.itemsToValues place index holder items) := by
  induction items generalizing index with
  | nil => rfl
  | cons o items ih =>
    have hi := ih (index + 1) fun o ho => hv o (List.mem_cons_of_mem _ ho)
    rw [Outline.itemsToJson, Value.ofItems, hv o List.mem_cons_self, hi]
    rfl

def blankValues (kind : Kind) : List (Field × Value) :=
  [(.tag, .plain (.str kind.tag)), (.start, .plain (.int 0)), (.stop, .plain (.int 0))]

theorem assign_offsets {kind : Kind} {span : Span} {fields : List (Field × Value)}
    (hs : .start ∉ fields.map Prod.fst) (he : .stop ∉ fields.map Prod.fst) :
    assign .stop (.plain (.int span.stop)) (assign .start (.plain (.int span.start))
      (blankValues kind ++ fields)) = commonValues kind span ++ fields := by
  have hstart : assign .start (.plain (.int span.start)) ([(.tag, .plain (.str kind.tag))]
      ++ (.start, .plain (.int 0)) :: (.stop, .plain (.int 0)) :: fields) =
      [(.tag, .plain (.str kind.tag))] ++ (.start, .plain (.int span.start))
        :: (.stop, .plain (.int 0)) :: fields :=
    assign_at (by simp) (by simpa using hs)
  have hstop : assign .stop (.plain (.int span.stop)) ([(.tag, .plain (.str kind.tag)),
      (.start, .plain (.int span.start))] ++ (.stop, .plain (.int 0)) :: fields) =
      [(.tag, .plain (.str kind.tag)), (.start, .plain (.int span.start))]
        ++ (.stop, .plain (.int span.stop)) :: fields :=
    assign_at (by simp) he
  exact (congrArg (assign .stop _) hstart).trans hstop

/-- The draft of a node with all its fields given has none of the defaults left. -/
theorem Node.draft_toJson {kind : Kind} {fields : List (Field × Outline)} (span : Span)
    (place : Place) (hkeys : fields.map Prod.fst = kind.fields.map Prod.fst)
    (hv : ∀ e ∈ fields, ∀ place holder,
      Value.ofJson place holder e.2.toJson = .ok (e.2.toValue place holder)) :
    Node.draft kind place { fields := kind.allFields (.str kind.tag) }
      (Outline.fieldsToJson fields ++
        [(Field.key .start, .int span.start), (Field.key .stop, .int span.stop)]) =
      .ok { fields := commonValues kind span ++ Outline.fieldsToValues place fields } := by
  have hnd := kind.fieldNames_nodup
  have hmem : ∀ e ∈ fields, e.1 ∈ kind.fields.map Prod.fst := fun e he =>
    hkeys ▸ List.mem_map_of_mem he
  have hk : ∀ e ∈ fields, e.1 ∈ kind.fieldNames ∧ e.1 ≠ .tag := fun e he => by
    refine ⟨by simp [Kind.fieldNames, hmem e he], ?_⟩
    rintro htag
    have := hmem e he
    simp [Kind.fieldNames, htag ▸ this] at hnd
  have hgiven : (Outline.fieldsToValues place fields).map Prod.fst = kind.fields.map Prod.fst := by
    rw [Outline.fieldsToValues_eq_map, List.map_map]
    exact hkeys
  have hnames := kind.allFields_names (.str kind.tag)
  have hall : assignAll (Outline.fieldsToValues place fields) (kind.allFields (.str kind.tag)) =
      blankValues kind ++ Outline.fieldsToValues place fields :=
    assignAll_append (blankValues kind) (hgiven.trans (congrArg (List.drop 3) hnames).symm)
      (hnames ▸ hnd)
  have hint : ∀ (f : Field) (n : Int), Value.ofJson (.field f :: place) (some place) (.int n) =
      .ok (.plain (.int n)) := fun _ _ => rfl
  rw [Node.draft_append fields _ _ hk hv, hall,
    Node.draft_cons (by simp [Kind.fieldNames]) (by simp) (hint .start span.start),
    Node.draft_cons (by simp [Kind.fieldNames]) (by simp) (hint .stop span.stop), Node.draft]
  simp only [Kind.fieldNames, ← hgiven, List.nodup_cons, List.mem_cons, not_or] at hnd
  rw [assign_offsets hnd.2.1.2 hnd.2.2.1]

/-- Converting what an outline says gives its typed form, in every place. -/
theorem Outline.Conforms.ofJson_toJson {o : Outline} (h : o.Conforms) :
    ∀ place holder, Value.ofJson place holder o.toJson = .ok (o.toValue place holder) := by
  induction h with
  | null | flag | text => intros; rfl
  | list flat each ih =>
    intro place holder
    rw [Outline.toJson, Value.ofJson, Value.ofItems_toJson place holder _ 0 ih]
    rfl
  | @node kind span fields keys each aside ih =>
    intro place holder
    have hd := Node.draft_toJson span place keys ih
    have hl : ∀ rest : List (String × Json),
        ((Field.key .tag, Json.str kind.tag) :: rest).lookup "type" = some (.str kind.tag) :=
      fun _ => rfl
    rw [Outline.toJson, List.cons_append, Value.ofJson, hl]
    simp only [kindOfType, Kind.ofName_tag, Node.draft_tag, hd, bind, Except.bind]
    rfl

/-- The typed node of an outline node. -/
def typedNode (place : Place) (holder : Option Place) (kind : Kind) (span : Span)
    (fields : List (Field × Outline)) : Node :=
  .mk kind place holder (commonValues kind span ++ Outline.fieldsToValues place fields)

theorem Outline.Conforms.toNode_eq {kind : Kind} {span : Span} {fields : List (Field × Outline)}
    (h : (Outline.node kind span fields).Conforms) :
    (Outline.node kind span fields).toNode = .ok (typedNode [] none kind span fields) := by
  have hj := h.ofJson_toJson [] none
  rw [Outline.toJson] at hj
  have hl : ∀ rest : List (String × Json),
      ((Field.key .tag, Json.str kind.tag) :: rest).lookup "type" = some (.str kind.tag) :=
    fun _ => rfl
  rw [Outline.toNode, Outline.toJson]
  simp only [Node.ofJson, List.cons_append, hl] at hj ⊢
  rw [hj]
  rfl

theorem Outline.Conforms.toNode?_eq {kind : Kind} {span : Span} {fields : List (Field × Outline)}
    (h : (Outline.node kind span fields).Conforms) :
    (Outline.node kind span fields).toNode? = some (typedNode [] none kind span fields) := by
  rw [Outline.toNode?, h.toNode_eq]
  rfl

theorem Concrete.toNode_program (source : SourceText) (root : Concrete) :
    (root.program source).toNode = .ok (typedNode [] none .program
      { start := 0, stop := source.length } [(.body, .list (root.body source))]) :=
  (root.program_conforms source).toNode_eq

/-- The tree that a parse comes to, clean or recovered, is that of the whole concrete tree. -/
theorem Concrete.eq_program_of_outcome {source : SourceText} {root : Concrete} {tree : Outline}
    (h : (root.outcome source).tree? = some tree) : tree = root.program source := by
  unfold Concrete.outcome at h
  dsimp only at h
  split at h
  · exact (Option.some.inj h).symm
  · split at h
    · cases h
    · exact (Option.some.inj h).symm

theorem exists_root_of_tree? {trees : Trees} {text : String} {tree : Outline}
    (h : (parseOutline trees text).tree? = some tree) :
    ∃ root, trees text = some root ∧ tree = root.program (SourceText.ofText text) := by
  cases ht : trees text with
  | none =>
    rw [parseOutline, ht] at h
    cases h
  | some root =>
    rw [parseOutline, ht] at h
    exact ⟨root, rfl, Concrete.eq_program_of_outcome h⟩

theorem Kind.slots_subset_fields {k : Kind} {f : Field} (hf : f ∈ k.slots) :
    f ∈ k.fields.map Prod.fst := by
  have h : ∀ k ∈ Kind.all, ∀ f ∈ k.slots, f ∈ k.fields.map Prod.fst := by decide +kernel
  exact h k k.mem_all f hf

theorem Kind.slots_nodup (k : Kind) : k.slots.Nodup := by
  have h : ∀ k ∈ Kind.all, k.slots.Nodup := by decide +kernel
  exact h k k.mem_all

theorem Kind.ne_common_of_mem_fields {k : Kind} {f : Field} (hf : f ∈ k.fields.map Prod.fst) :
    f ≠ .tag ∧ f ≠ .start ∧ f ≠ .stop := by
  have hnd := k.fieldNames_nodup
  simp only [Kind.fieldNames, List.nodup_cons, List.mem_cons, not_or] at hnd
  refine ⟨?_, ?_, ?_⟩
  · rintro rfl; exact hnd.1.2.2 hf
  · rintro rfl; exact hnd.2.1.2 hf
  · rintro rfl; exact hnd.2.2.1 hf

section

variable (place : Place) (holder : Option Place) (kind : Kind) (span : Span)
  (fields : List (Field × Outline))

theorem lookup_fieldsToValues (f : Field) :
    (Outline.fieldsToValues place fields).lookup f =
      (fields.lookup f).map (Outline.toValue (.field f :: place) (some place)) := by
  induction fields with
  | nil => rfl
  | cons e fields ih =>
    obtain ⟨g, o⟩ := e
    rw [Outline.fieldsToValues, List.lookup_cons, List.lookup_cons, ih]
    by_cases hfg : f = g
    · subst hfg; simp
    · have hne : (f == g) = false := by simpa using hfg
      simp only [hne]

variable {kind}

theorem typedNode_field? {f : Field} (hf : f ∈ kind.fields.map Prod.fst) :
    (typedNode place holder kind span fields).field? f =
      (fields.lookup f).map (Outline.toValue (.field f :: place) (some place)) := by
  obtain ⟨ht, hs, he⟩ := Kind.ne_common_of_mem_fields hf
  have hne : (f == .tag) = false ∧ (f == .start) = false ∧ (f == .stop) = false := by
    simpa using ⟨ht, hs, he⟩
  rw [← lookup_fieldsToValues]
  simp [Node.field?, typedNode, Node.fields, commonValues, List.lookup_cons, hne]

theorem typedNode_children :
    (typedNode place holder kind span fields).children = kind.slots.flatMap fun f =>
      (((fields.lookup f).getD .null).toValue (.field f :: place) (some place)).nodes := by
  refine List.flatMap_congr fun f hf => ?_
  have hs : f ∈ kind.slots := hf
  rw [Node.get, typedNode_field? _ _ _ _ (Kind.slots_subset_fields hs)]
  cases fields.lookup f with
  | none => rfl
  | some o => rfl

end

theorem toValue_nodes (place : Place) (holder : Option Place) (o : Outline) :
    List.Forall₂ (fun c n => ∃ p, n.toValue p holder = .node c)
      (o.toValue place holder).nodes o.nodes := by
  cases o with
  | null | flag | text => exact .nil
  | node kind span fields => exact .cons ⟨place, rfl⟩ .nil
  | list items =>
    suffices h : ∀ index, List.Forall₂ (fun c n => ∃ p, n.toValue p holder = .node c)
        (Value.list (Outline.itemsToValues place index holder items)).nodes
        (Outline.list items).nodes from h 0
    induction items with
    | nil => exact fun _ => .nil
    | cons o items ih =>
      intro index
      have hi := ih (index + 1)
      cases o with
      | node kind span fields => exact .cons ⟨.item index :: place, rfl⟩ hi
      | null | flag | text | list => exact hi

end SolidityServer
