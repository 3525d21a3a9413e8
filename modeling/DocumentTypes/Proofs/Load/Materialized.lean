import DocumentTypes.Materialize
import DocumentTypes.Proofs.Load.Embedding

/-!
What putting the schemas of a document into a heap does. A schema that is put there has the declared
fields with the declared descriptors, linked to the places of the schemas that they embed, which
come before its own (`Linked`); and there is one place for each name (`Materialized.Faithful`).
Schemas that are there stay, and none is added under a name whose fields are still being resolved
(`Materialized.Extends`), so putting schemas there one after the other keeps the heap faithful
(`materialize_ok`, `materializeAll_ok`).
-/

set_option autoImplicit false

namespace DocumentTypes

/-! ### Heaps -/

namespace SchemaHeap

variable {heap : SchemaHeap} {id : SchemaId} {schema : Schema}

theorem lt_nextId_of_lookup? (h : heap.lookup? id = some schema) : id < heap.nextId := by
  by_contra hge
  rw [lookup?, Array.getElem?_eq_none (Nat.le_of_not_lt hge)] at h
  exact absurd h (by simp)

theorem nextId_add (heap : SchemaHeap) (schema : Schema) :
    (heap.add schema).nextId = heap.nextId + 1 :=
  Array.size_push ..

theorem lookup?_add_nextId (heap : SchemaHeap) (schema : Schema) :
    (heap.add schema).lookup? heap.nextId = some schema := by
  simp [lookup?, add, nextId]

theorem lookup?_add_of_lookup? (other : Schema) (h : heap.lookup? id = some schema) :
    (heap.add other).lookup? id = some schema := by
  have hlt := lt_nextId_of_lookup? h
  show ((heap.slots.push (some other))[id]?).join = some schema
  rw [Array.getElem?_push, if_neg (show id ≠ heap.slots.size from Nat.ne_of_lt hlt)]
  exact h

end SchemaHeap

/-! ### Links -/

/-- The declared descriptor and the descriptor in the heap of a field of `owner`, whose schema is at
`me`. A schema that embeds itself is linked to its own place, and any other embedded schema to the
place of its name, which comes before. -/
inductive Linked (built : OrderedMap SchemaId) (owner : String) (me : SchemaId) :
    PathDescriptor String → PathDescriptor SchemaLink → Prop
  | primitive (kind : PrimitiveKind) (isArray : Bool) :
      Linked built owner me ⟨.primitive kind, isArray⟩ ⟨.primitive kind, isArray⟩
  | reference (typeName : String) (isArray : Bool) :
      Linked built owner me ⟨.reference typeName, isArray⟩ ⟨.reference typeName, isArray⟩
  | itself (isArray : Bool) :
      Linked built owner me ⟨.embedded owner, isArray⟩ ⟨.embedded (.cyclic me), isArray⟩
  | other {schema : String} {target : SchemaId} (isArray : Bool) (hother : schema ≠ owner)
      (htarget : built.lookup? schema = some target) (hbefore : target < me) :
      Linked built owner me ⟨.embedded schema, isArray⟩ ⟨.embedded (.shared target), isArray⟩

theorem Linked.mono {built built' : OrderedMap SchemaId} {owner : String} {me : SchemaId}
    {described : PathDescriptor String} {d : PathDescriptor SchemaLink}
    (h : Linked built owner me described d)
    (hbuilt : ∀ name id, built.lookup? name = some id → built'.lookup? name = some id) :
    Linked built' owner me described d := by
  cases h with
  | primitive kind isArray => exact .primitive kind isArray
  | reference typeName isArray => exact .reference typeName isArray
  | itself isArray => exact .itself isArray
  | other isArray hother htarget hbefore => exact .other isArray hother (hbuilt _ _ htarget) hbefore

/-- A resolved field whose links are right wherever its schema is put from `bound` on. -/
def Placed (built : OrderedMap SchemaId) (owner : String) (bound : SchemaId) (declared : FieldDef)
    (d : PathDescriptor EmbedTarget) : Prop :=
  ∃ described, declared.descriptor? = some described ∧
    ∀ me, bound ≤ me → Linked built owner me described (d.mapLink (EmbedTarget.link me))

/-! ### What is materialized -/

namespace Materialized

/-- Every name that has a place has there a schema with its declared fields, and no two names share
a place. -/
structure Faithful (schemas : DeclaredSchemas) (m : Materialized) : Prop where
  mirrored : ∀ name me, m.built.lookup? name = some me →
    ∃ fields schema, schemas.lookup? name = some fields ∧ m.heap.lookup? me = some schema ∧
      fields.Related (fun _ declared d ↦ ∃ described, declared.descriptor? = some described ∧
        Linked m.built name me described d) schema
  distinct : ∀ name name' id, m.built.lookup? name = some id → m.built.lookup? name' = some id →
    name = name'

/-- What is there stays, and no name of `stack` gets a place. -/
structure Extends (stack : List String) (m m' : Materialized) : Prop where
  built : ∀ name id, m.built.lookup? name = some id → m'.built.lookup? name = some id
  heap : ∀ id schema, m.heap.lookup? id = some schema → m'.heap.lookup? id = some schema
  nextId_le : m.heap.nextId ≤ m'.heap.nextId
  avoids : ∀ name ∈ stack, m.built.lookup? name = none → m'.built.lookup? name = none

variable {schemas : DeclaredSchemas} {stack : List String} {m m' m'' : Materialized}

theorem Extends.refl (stack : List String) (m : Materialized) : m.Extends stack m :=
  ⟨fun _ _ h ↦ h, fun _ _ h ↦ h, Nat.le_refl _, fun _ _ h ↦ h⟩

theorem Extends.trans (h : m.Extends stack m') (h' : m'.Extends stack m'') :
    m.Extends stack m'' where
  built name id hid := h'.built name id (h.built name id hid)
  heap id schema hschema := h'.heap id schema (h.heap id schema hschema)
  nextId_le := Nat.le_trans h.nextId_le h'.nextId_le
  avoids name hname hnone := h'.avoids name hname (h.avoids name hname hnone)

theorem Faithful.exists_schema (h : m.Faithful schemas) {name : String} {me : SchemaId}
    (hme : m.built.lookup? name = some me) : ∃ schema, m.heap.lookup? me = some schema := by
  obtain ⟨_, schema, -, hschema, -⟩ := h.mirrored name me hme
  exact ⟨schema, hschema⟩

/-- Nothing is materialized in the beginning. -/
theorem faithful_empty (schemas : DeclaredSchemas) (heap : SchemaHeap) :
    Faithful schemas ⟨heap, ∅⟩ where
  mirrored name me h := absurd h (by simp)
  distinct name name' id h := absurd h (by simp)

end Materialized

section Placed

variable {built built' : OrderedMap SchemaId} {owner : String} {bound bound' : SchemaId}

theorem Placed.mono {declared : FieldDef} {d : PathDescriptor EmbedTarget}
    (h : Placed built owner bound declared d)
    (hbuilt : ∀ name id, built.lookup? name = some id → built'.lookup? name = some id)
    (hbound : bound ≤ bound') : Placed built' owner bound' declared d := by
  obtain ⟨described, hdescribed, hlinked⟩ := h
  exact ⟨described, hdescribed, fun me hme ↦ (hlinked me (Nat.le_trans hbound hme)).mono hbuilt⟩

end Placed

/-! ### The fields of a schema -/

section Resolve

variable {schemas : DeclaredSchemas} {owner : String}
  {embed : String → Materialized → Except LoadError (SchemaId × Materialized)}
  {m m' : Materialized}

theorem embedTarget_eq_ok {field schema : String} {target : EmbedTarget}
    (h : embedTarget schemas owner field embed schema m = .ok (target, m')) :
    (schema = owner ∧ target = .itself ∧ m' = m) ∨
      (schema ≠ owner ∧ ∃ id, target = .other id ∧ embed schema m = .ok (id, m')) := by
  unfold embedTarget at h
  split at h
  · next hitself =>
    obtain ⟨rfl, rfl⟩ := Prod.mk.inj (Except.ok.inj h)
    exact Or.inl ⟨hitself, rfl, rfl⟩
  · next hother =>
    split at h
    · split at h
      · exact absurd h (by simp)
      · next id m₁ hembed =>
        obtain ⟨rfl, rfl⟩ := Prod.mk.inj (Except.ok.inj h)
        exact Or.inr ⟨hother, id, rfl, hembed⟩
    · exact absurd h (by simp)

/-- What is asked of the way to put an embedded schema into the heap. -/
def KeepsFaithful (schemas : DeclaredSchemas) (stack : List String)
    (embed : String → Materialized → Except LoadError (SchemaId × Materialized)) : Prop :=
  ∀ schema m id m', m.Faithful schemas → embed schema m = .ok (id, m') →
    m'.Faithful schemas ∧ m.Extends stack m' ∧ m'.built.lookup? schema = some id

variable {stack : List String}

theorem resolveField_ok {field : String} {declared : FieldDef} {d : PathDescriptor EmbedTarget}
    (hembed : KeepsFaithful schemas stack embed) (hm : m.Faithful schemas)
    (h : resolveField schemas owner field embed declared m = .ok (d, m')) :
    m'.Faithful schemas ∧ m.Extends stack m' ∧
      Placed m'.built owner m'.heap.nextId declared d := by
  unfold resolveField at h
  split at h
  · exact absurd h (by simp)
  · next kind isArray hdescriptor =>
    obtain ⟨rfl, rfl⟩ := Prod.mk.inj (Except.ok.inj h)
    exact ⟨hm, .refl _ _, _, hdescriptor, fun me _ ↦ .primitive kind isArray⟩
  · next typeName isArray hdescriptor =>
    obtain ⟨rfl, rfl⟩ := Prod.mk.inj (Except.ok.inj h)
    exact ⟨hm, .refl _ _, _, hdescriptor, fun me _ ↦ .reference typeName isArray⟩
  · next schema isArray hdescriptor =>
    split at h
    · exact absurd h (by simp)
    · next target m₁ htarget =>
      obtain ⟨rfl, rfl⟩ := Prod.mk.inj (Except.ok.inj h)
      rcases embedTarget_eq_ok htarget with ⟨rfl, rfl, rfl⟩ | ⟨hother, id, rfl, hid⟩
      · exact ⟨hm, .refl _ _, _, hdescriptor, fun me _ ↦ .itself isArray⟩
      · obtain ⟨hm₁, hextends, hbuilt⟩ := hembed schema m id m₁ hm hid
        obtain ⟨_, hlives⟩ := hm₁.exists_schema hbuilt
        have hlt := SchemaHeap.lt_nextId_of_lookup? hlives
        exact ⟨hm₁, hextends, _, hdescriptor,
          fun me hme ↦ .other isArray hother hbuilt (Nat.lt_of_lt_of_le hlt hme)⟩

theorem resolveFields_ok {fields : List (String × FieldDef)}
    {descriptors : List (String × PathDescriptor EmbedTarget)}
    (hembed : KeepsFaithful schemas stack embed) (hm : m.Faithful schemas)
    (h : resolveFields schemas owner embed fields m = .ok (descriptors, m')) :
    m'.Faithful schemas ∧ m.Extends stack m' ∧
      List.Forall₂ (fun field path ↦ field.1 = path.1 ∧
        Placed m'.built owner m'.heap.nextId field.2 path.2) fields descriptors := by
  induction fields generalizing m descriptors with
  | nil =>
    obtain ⟨rfl, rfl⟩ := Prod.mk.inj (Except.ok.inj h)
    exact ⟨hm, .refl _ _, .nil⟩
  | cons entry rest ih =>
    obtain ⟨field, declared⟩ := entry
    unfold resolveFields at h
    split at h
    · exact absurd h (by simp)
    · next descriptor m₁ hfield =>
      split at h
      · exact absurd h (by simp)
      · next others m₂ hrest =>
        obtain ⟨rfl, rfl⟩ := Prod.mk.inj (Except.ok.inj h)
        obtain ⟨hm₁, hextends, hplaced⟩ := resolveField_ok hembed hm hfield
        obtain ⟨hm₂, hextends', hothers⟩ := ih hm₁ hrest
        have hkept := hplaced.mono hextends'.built hextends'.nextId_le
        exact ⟨hm₂, hextends.trans hextends', .cons ⟨rfl, hkept⟩ hothers⟩

end Resolve

/-! ### Schemas -/

section Materialize

variable {schemas : DeclaredSchemas} {stack : List String} {name : String} {m m' : Materialized}
  {id : SchemaId}

/-- The schema at `me` with the resolved fields. -/
def placedSchema (me : SchemaId) (descriptors : List (String × PathDescriptor EmbedTarget)) :
    Schema :=
  .ofList (descriptors.map fun path ↦ (path.1, path.2.mapLink (EmbedTarget.link me)))

theorem materialize_eq_ok (h : materialize schemas stack name m = .ok (id, m')) :
    (m.built.lookup? name = some id ∧ m' = m) ∨
      ∃ fields descriptors m₁, m.built.lookup? name = none ∧ name ∉ stack ∧
        schemas.lookup? name = some fields ∧
        resolveFields schemas name (materialize schemas (stack ++ [name])) fields.entries m =
          .ok (descriptors, m₁) ∧
        id = m₁.heap.nextId ∧
        m' = ⟨m₁.heap.add (placedSchema id descriptors), m₁.built.insert name id⟩ := by
  rw [materialize] at h
  split at h
  · next id' hbuilt =>
    obtain ⟨rfl, rfl⟩ := Prod.mk.inj (Except.ok.inj h)
    exact Or.inl ⟨hbuilt, rfl⟩
  · next hbuilt =>
    split at h
    · exact absurd h (by simp)
    · next hstack =>
      split at h
      · exact absurd h (by simp)
      · next fields hfields =>
        simp only at h
        split at h
        · exact absurd h (by simp)
        · next descriptors m₁ hresolved =>
          obtain ⟨rfl, rfl⟩ := Prod.mk.inj (Except.ok.inj h)
          exact Or.inr ⟨fields, descriptors, m₁, hbuilt, hstack, hfields, hresolved, rfl, rfl⟩

/-- What holds of a schema when it holds of every schema that is put into the heap for its fields,
holds of all schemas. -/
theorem materialize_induction (schemas : DeclaredSchemas)
    {motive : List String → String → Prop}
    (step : ∀ stack name, (∀ schema, name ∈ schemas.keys → name ∉ stack →
      motive (stack ++ [name]) schema) → motive stack name) (stack : List String) (name : String) :
    motive stack name := by
  refine step stack name fun schema hknown hnew ↦ ?_
  exact materialize_induction schemas step (stack ++ [name]) schema
termination_by (unvisited schemas.keys stack).length
decreasing_by exact length_unvisited_lt hknown hnew (by simp) (List.subset_append_left ..)

/-- A schema that is put at the next place, with fields that are right there, keeps what is
materialized faithful. -/
theorem Materialized.Faithful.insert {fields : OrderedMap FieldDef}
    {descriptors : List (String × PathDescriptor EmbedTarget)} (hm : m.Faithful schemas)
    (hfields : schemas.lookup? name = some fields) (hnew : m.built.lookup? name = none)
    (hplaced : List.Forall₂ (fun field path ↦ field.1 = path.1 ∧
      Placed m.built name m.heap.nextId field.2 path.2) fields.entries descriptors) :
    Faithful schemas ⟨m.heap.add (placedSchema m.heap.nextId descriptors),
      m.built.insert name m.heap.nextId⟩ := by
  have hkept : ∀ other id, m.built.lookup? other = some id →
      (m.built.insert name m.heap.nextId).lookup? other = some id := by
    intro other id hid
    have hne : other ≠ name := fun h ↦ absurd (h ▸ hid) (by simp [hnew])
    rw [OrderedMap.lookup?_insert, if_neg hne, hid]
  have hbefore : ∀ other id, m.built.lookup? other = some id → id ≠ m.heap.nextId := by
    intro other id hid
    obtain ⟨_, hlives⟩ := hm.exists_schema hid
    exact Nat.ne_of_lt (SchemaHeap.lt_nextId_of_lookup? hlives)
  constructor
  · intro other me hme
    rw [OrderedMap.lookup?_insert] at hme
    split at hme
    · next hother =>
      obtain rfl := Option.some.inj hme
      subst hother
      refine ⟨fields, _, hfields, SchemaHeap.lookup?_add_nextId _ _, ?_⟩
      have hpairs : List.Forall₂ (fun field path ↦ field.1 = path.1 ∧ ∃ described,
          FieldDef.descriptor? field.2 = some described ∧
            Linked (m.built.insert other m.heap.nextId) other m.heap.nextId described path.2)
          fields.entries
          (descriptors.map fun path ↦
            (path.1, path.2.mapLink (EmbedTarget.link m.heap.nextId))) := by
        refine List.forall₂_map_right_iff.mpr (hplaced.imp fun field path hpair ↦ ?_)
        obtain ⟨hname, described, hdescribed, hlinked⟩ := hpair
        exact ⟨hname, described, hdescribed, (hlinked _ (Nat.le_refl _)).mono hkept⟩
      exact OrderedMap.related_ofList_of_entries hpairs
    · obtain ⟨fields', schema, hfields', hlives, hsame⟩ := hm.mirrored other me hme
      refine ⟨fields', schema, hfields', SchemaHeap.lookup?_add_of_lookup? _ hlives, ?_⟩
      refine hsame.imp fun _ declared d _ _ hlinked ↦ ?_
      obtain ⟨described, hdescribed, hlinked⟩ := hlinked
      exact ⟨described, hdescribed, hlinked.mono hkept⟩
  · intro first second id hfirst hsecond
    rw [OrderedMap.lookup?_insert] at hfirst hsecond
    split at hfirst <;> split at hsecond
    · next h h' => exact h.trans h'.symm
    · exact absurd (Option.some.inj hfirst).symm (hbefore second id hsecond)
    · exact absurd (Option.some.inj hsecond).symm (hbefore first id hfirst)
    · exact hm.distinct first second id hfirst hsecond

theorem Materialized.extends_insert {schema : Schema} (hnew : m.built.lookup? name = none)
    (hstack : name ∉ stack) :
    m.Extends stack ⟨m.heap.add schema, m.built.insert name m.heap.nextId⟩ where
  built other id hid := by
    have hne : other ≠ name := fun h ↦ absurd (h ▸ hid) (by simp [hnew])
    rw [OrderedMap.lookup?_insert, if_neg hne, hid]
  heap id schema hlives := SchemaHeap.lookup?_add_of_lookup? _ hlives
  nextId_le := by
    rw [SchemaHeap.nextId_add]
    exact Nat.le_succ _
  avoids other hother hnone := by
    have hne : other ≠ name := fun h ↦ hstack (h ▸ hother)
    rw [OrderedMap.lookup?_insert, if_neg hne, hnone]

/-- Materializing a schema keeps what is materialized faithful, and gives the place of the name. -/
theorem materialize_ok (stack : List String) (name : String) (hm : m.Faithful schemas)
    (h : materialize schemas stack name m = .ok (id, m')) :
    m'.Faithful schemas ∧ m.Extends stack m' ∧ m'.built.lookup? name = some id := by
  induction stack, name using materialize_induction schemas generalizing m m' id with
  | step stack name ih =>
    rcases materialize_eq_ok h with ⟨hbuilt, rfl⟩ |
      ⟨fields, descriptors, m₁, hnone, hstack, hfields, hresolved, rfl, rfl⟩
    · exact ⟨hm, .refl _ _, hbuilt⟩
    · have hembed : KeepsFaithful schemas (stack ++ [name])
          (materialize schemas (stack ++ [name])) := fun schema m id m' hm h ↦
        ih schema (OrderedMap.mem_keys_of_lookup? hfields) hstack hm h
      obtain ⟨hm₁, hextends, hplaced⟩ := resolveFields_ok hembed hm hresolved
      have hnew : m₁.built.lookup? name = none := hextends.avoids name (by simp) hnone
      have hextends' : m.Extends stack m₁ := { hextends with
        avoids := fun other hother ↦ hextends.avoids other (List.mem_append_left _ hother) }
      refine ⟨hm₁.insert hfields hnew hplaced,
        hextends'.trans (Materialized.extends_insert hnew hstack), ?_⟩
      rw [OrderedMap.lookup?_insert, if_pos rfl]

theorem materializeAll_ok {names : List String} (hm : m.Faithful schemas)
    (h : materializeAll schemas names m = .ok m') :
    m'.Faithful schemas ∧ m.Extends [] m' ∧
      ∀ name ∈ names, ∃ id, m'.built.lookup? name = some id := by
  induction names generalizing m with
  | nil =>
    obtain rfl := Except.ok.inj h
    exact ⟨hm, .refl _ _, by simp⟩
  | cons name rest ih =>
    unfold materializeAll at h
    split at h
    · exact absurd h (by simp)
    · next id m₁ hname =>
      obtain ⟨hm₁, hextends, hid⟩ := materialize_ok [] name hm hname
      obtain ⟨hm', hextends', hrest⟩ := ih hm₁ h
      exact ⟨hm', hextends.trans hextends',
        List.forall_mem_cons.mpr ⟨⟨id, hextends'.built name id hid⟩, hrest⟩⟩

end Materialize

end DocumentTypes
