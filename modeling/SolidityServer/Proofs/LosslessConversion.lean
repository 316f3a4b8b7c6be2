import SolidityServer.Proofs.TypedTree

/-! Nothing is lost between an outline and its typed tree: every key has a field, every field has a
key, and the typed tree writes out as the outline it came from. -/

namespace SolidityServer

mutual

/-- Every object in a value, at any depth. -/
def Json.objects : Json → List (List (String × Json))
  | .obj fields => fields :: Json.objectsInFields fields
  | .arr items => Json.objectsInItems items
  | _ => []

def Json.objectsInItems : List Json → List (List (String × Json))
  | [] => []
  | j :: items => j.objects ++ Json.objectsInItems items

def Json.objectsInFields : List (String × Json) → List (List (String × Json))
  | [] => []
  | (_, j) :: fields => j.objects ++ Json.objectsInFields fields

end

def Field.isOffset (f : Field) : Bool := f == .start || f == .stop

/-- Entries under the keys of an outline, the offsets last. -/
def outlineEntries (entries : List (Field × Json)) : List (String × Json) :=
  (entries.filter (!·.1.isOffset) ++ entries.filter (·.1.isOffset)).map fun e => (e.1.key, e.2)

mutual

/-- A typed tree written out under the keys of an outline, with every field but the parent. -/
def Node.toJson : Node → Json
  | .mk _ _ _ fields => .obj (outlineEntries (Node.fieldsToJson fields))

def Value.toJson : Value → Json
  | .plain json => json
  | .list items => .arr (Value.itemsToJson items)
  | .node n => n.toJson

def Value.itemsToJson : List Value → List Json
  | [] => []
  | v :: items => v.toJson :: Value.itemsToJson items

def Node.fieldsToJson : List (Field × Value) → List (Field × Json)
  | [] => []
  | (f, v) :: fields => (f, v.toJson) :: Node.fieldsToJson fields

end

/-- The object fits its kind: the kind has a name of its own unless it is the plain one, every key
means a field of the kind, and every field of the kind is given under its key. -/
def FitsSchema (fields : List (String × Json)) : Prop :=
  ∃ name, fields.lookup "type" = some (.str name) ∧
    (name ≠ "Node" → ∃ k ∈ Kind.all, k.name = name) ∧
    (∀ e ∈ fields, e.1 ≠ "type" → ∃ f, (Kind.ofName name).meaning e.1 = .field f) ∧
    ∀ f ∈ ((Kind.ofName name).allFields (.str name)).map Prod.fst, ∃ json, (f.key, json) ∈ fields

theorem Node.fieldsToJson_eq_map (fields : List (Field × Value)) :
    Node.fieldsToJson fields = fields.map fun e => (e.1, e.2.toJson) := by
  induction fields with
  | nil => rfl
  | cons e fields ih => rw [Node.fieldsToJson, ih]; rfl

theorem Outline.fieldsToJson_eq_map (fields : List (Field × Outline)) :
    Outline.fieldsToJson fields = fields.map fun e => (e.1.key, e.2.toJson) := by
  induction fields with
  | nil => rfl
  | cons e fields ih => rw [Outline.fieldsToJson, ih]; rfl

theorem outlineEntries_append {common own : List (Field × Json)}
    (hown : ∀ e ∈ own, e.1.isOffset = false) :
    outlineEntries (common ++ own) =
      ((common.filter (!·.1.isOffset)) ++ own ++ common.filter (·.1.isOffset)).map
        fun e => (e.1.key, e.2) := by
  have hkept : own.filter (!·.1.isOffset) = own :=
    List.filter_eq_self.mpr fun e he => by simp [hown e he]
  have hnone : own.filter (·.1.isOffset) = [] :=
    List.filter_eq_nil_iff.mpr fun e he => by simp [hown e he]
  rw [outlineEntries, List.filter_append, List.filter_append, hkept, hnone, List.append_nil]

theorem typedNode_toJson {place : Place} {holder : Option Place} {kind : Kind} {span : Span}
    {fields : List (Field × Outline)} (hkeys : fields.map Prod.fst = kind.fields.map Prod.fst)
    (hv : ∀ e ∈ fields, ∀ place holder, (e.2.toValue place holder).toJson = e.2.toJson) :
    (typedNode place holder kind span fields).toJson = (Outline.node kind span fields).toJson := by
  have hown : ∀ e ∈ fields.map fun e => (e.1, e.2.toJson), e.1.isOffset = false := by
    simp only [List.forall_mem_map]
    intro e he
    obtain ⟨_, hs, hp⟩ := Kind.ne_common_of_mem_fields (hkeys ▸ List.mem_map_of_mem he)
    simp [Field.isOffset, hs, hp]
  have hwrite : Node.fieldsToJson (commonValues kind span ++ Outline.fieldsToValues place fields) =
      [(.tag, .str kind.tag), (.start, .int span.start), (.stop, .int span.stop)]
        ++ fields.map fun e => (e.1, e.2.toJson) := by
    rw [Node.fieldsToJson_eq_map, List.map_append, Outline.fieldsToValues_eq_map, List.map_map]
    refine congrArg₂ _ rfl (List.map_congr_left fun e he => ?_)
    simp [hv e he]
  rw [typedNode, Node.toJson, Outline.toJson, Outline.fieldsToJson_eq_map, hwrite,
    outlineEntries_append hown]
  simp [Field.isOffset, Function.comp_def]

/-- The typed form of an outline writes out as the outline. -/
theorem Outline.Conforms.toValue_toJson {o : Outline} (h : o.Conforms) :
    ∀ place holder, (o.toValue place holder).toJson = o.toJson := by
  induction h with
  | null | flag | text => intros; rfl
  | @list items flat each ih =>
    have hitems : ∀ place holder index,
        Value.itemsToJson (Outline.itemsToValues place index holder items) =
          Outline.itemsToJson items := by
      intro place holder
      clear flat each
      induction items with
      | nil => intro _; rfl
      | cons o items ihi =>
        intro index
        rw [Outline.itemsToValues, Value.itemsToJson, Outline.itemsToJson,
          ih o List.mem_cons_self, ihi fun o ho => ih o (List.mem_cons_of_mem _ ho)]
    intro place holder
    rw [Outline.toValue, Value.toJson, Outline.toJson, hitems]
  | node keys each aside ih =>
    intro place holder
    rw [Outline.toValue, Value.toJson]
    exact typedNode_toJson keys ih

theorem Json.mem_objectsInItems {items : List Json} {fields : List (String × Json)} :
    fields ∈ Json.objectsInItems items ↔ ∃ j ∈ items, fields ∈ j.objects := by
  induction items with
  | nil => simp [Json.objectsInItems]
  | cons j items ih => simp [Json.objectsInItems, ih]

theorem Json.mem_objectsInFields {entries fields : List (String × Json)} :
    fields ∈ Json.objectsInFields entries ↔ ∃ e ∈ entries, fields ∈ e.2.objects := by
  induction entries with
  | nil => simp [Json.objectsInFields]
  | cons e entries ih => simp [Json.objectsInFields, ih]

theorem Outline.itemsToJson_eq_map (items : List Outline) :
    Outline.itemsToJson items = items.map Outline.toJson := by
  induction items with
  | nil => rfl
  | cons o items ih => rw [Outline.itemsToJson, ih]; rfl

theorem Kind.tag_of_ne_base {k : Kind} (h : k ≠ .base) : k.tag = k.name := by
  unfold Kind.tag
  split
  · exact absurd rfl h
  · rfl

theorem fitsSchema_node {kind : Kind} {span : Span} {fields : List (Field × Outline)}
    (hkeys : fields.map Prod.fst = kind.fields.map Prod.fst) :
    FitsSchema ((Field.key .tag, .str kind.tag) :: Outline.fieldsToJson fields
      ++ [(Field.key .start, .int span.start), (Field.key .stop, .int span.stop)]) := by
  refine ⟨kind.tag, rfl, ?_, ?_, ?_⟩
  · intro hn
    have hb : kind ≠ .base := by
      rintro rfl
      exact hn rfl
    exact ⟨kind, kind.mem_all, (Kind.tag_of_ne_base hb).symm⟩
  · rw [Kind.ofName_tag, Outline.fieldsToJson_eq_map]
    have hown : ∀ f ∈ kind.fieldNames, f.key ≠ "type" → ∃ g, kind.meaning f.key = .field g :=
      fun f hf ht => ⟨f, (Kind.meaning_key hf fun h => ht (h ▸ rfl)).1⟩
    intro e he
    simp only [List.cons_append, List.mem_cons, List.mem_append, List.mem_map, List.not_mem_nil,
      or_false] at he
    rcases he with rfl | ⟨e, he, rfl⟩ | rfl | rfl
    · exact hown .tag (by simp [Kind.fieldNames])
    · exact hown e.1 (by
        have : e.1 ∈ kind.fields.map Prod.fst := hkeys ▸ List.mem_map_of_mem he
        simp [Kind.fieldNames, this])
    · exact hown .start (by simp [Kind.fieldNames])
    · exact hown .stop (by simp [Kind.fieldNames])
  · rw [Kind.ofName_tag, Kind.allFields_names, Outline.fieldsToJson_eq_map]
    intro f hf
    simp only [Kind.fieldNames, List.mem_cons, ← hkeys, List.mem_map] at hf
    rcases hf with rfl | rfl | rfl | ⟨e, he, rfl⟩
    · exact ⟨.str kind.tag, by simp⟩
    · exact ⟨.int span.start, by simp⟩
    · exact ⟨.int span.stop, by simp⟩
    · exact ⟨e.2.toJson, by
        simp only [List.cons_append, List.mem_cons, List.mem_append, List.mem_map]
        exact .inr (.inl ⟨e, he, rfl⟩)⟩

/-- Every object of an outline that keeps to the schema fits its kind. -/
theorem Outline.Conforms.fitsSchema {o : Outline} (h : o.Conforms) :
    ∀ fields ∈ o.toJson.objects, FitsSchema fields := by
  induction h with
  | null | flag | text => simp [Outline.toJson, Json.objects]
  | list flat each ih =>
    intro fields hf
    rw [Outline.toJson, Json.objects, Json.mem_objectsInItems, Outline.itemsToJson_eq_map] at hf
    obtain ⟨j, hj, hf⟩ := hf
    obtain ⟨o, ho, rfl⟩ := List.mem_map.mp hj
    exact ih o ho fields hf
  | @node kind span entries keys each aside ih =>
    intro fields hf
    rw [Outline.toJson, Json.objects] at hf
    rcases List.mem_cons.mp hf with rfl | hf
    · exact fitsSchema_node keys
    · obtain ⟨e, he, hf⟩ := Json.mem_objectsInFields.mp hf
      rw [Outline.fieldsToJson_eq_map] at he
      simp only [List.cons_append, List.mem_cons, List.mem_append, List.mem_map, List.not_mem_nil,
        or_false] at he
      rcases he with rfl | ⟨e, he, rfl⟩ | rfl | rfl
      · simp [Json.objects] at hf
      · exact ih e he fields hf
      · simp [Json.objects] at hf
      · simp [Json.objects] at hf

/-- The typed conversion is lossless on the outline of any tree: in every object each key means a
field and each field has its key, and the typed tree writes out as the outline. -/
theorem typed_program_lossless (source : SourceText) (root : Concrete) :
    (∀ fields ∈ (root.program source).toJson.objects, FitsSchema fields) ∧
      ∃ program, (root.program source).toNode? = some program ∧
        program.toJson = (root.program source).toJson := by
  have h := root.program_conforms source
  refine ⟨h.fitsSchema, _, h.toNode?_eq, ?_⟩
  exact h.toValue_toJson [] none

end SolidityServer
