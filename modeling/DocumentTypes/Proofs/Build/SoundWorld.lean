import DocumentTypes.Proofs.Build.ClosedRegistry

/-!
Worlds without dangling types. In a sound world the types that are registered and the types that
layers record exist (`World.Sound`). A world without types is sound (`World.sound_empty`), and so is
every later world in which types record types that came before them (`World.Sound.later`, with a
lemma for each step). Builds are no exception, also those that fail (`World.Sound.build`).
-/

set_option autoImplicit false

namespace DocumentTypes

/-- The types that a map which is ready leads to. -/
def FieldSource.recordedTypes {M : Type} : FieldSource M → List TypeId
  | .ready fields => namedTypes fields
  | .deferred _ => []

/-- The types that a layer names, before any producer is run. -/
def FieldLayer.recordedTypes {F M : Type} : FieldLayer F M → List TypeId
  | .field _ spec => spec.type.named?.toList
  | .deferred _ _ => []
  | .merge source => source.recordedTypes

variable {P : Producers} {heap : SchemaHeap} {registry : RegistryId}

namespace World

variable {w w' : World P} {id : RegistryId} {name : String} {t : TypeId}

/-- The types that are registered, and those that are recorded in types, exist. -/
structure Sound (w : World P) : Prop where
  registered : ∀ id name t, w.lookup id name = some t → t < w.nextType
  recorded : ∀ t, ∀ layer ∈ (w.typeAt t).fields, ∀ u ∈ layer.recordedTypes, u < w.nextType

theorem typeAt_of_nextType_le (h : w.nextType ≤ t) : w.typeAt t = default := by
  rw [typeAt, Array.getElem?_eq_none h, Option.getD_none]

theorem sound_empty : (World.empty : World P).Sound where
  registered id name t h := by
    rw [lookup, registryAt, registry?, World.empty, Array.getElem?_empty] at h
    exact absurd h (by simp)
  recorded t layer hlayer := by
    rw [typeAt_of_nextType_le (Nat.zero_le t)] at hlayer
    exact absurd hlayer List.not_mem_nil

theorem Sound.addRegistry (h : w.Sound) : w.addRegistry.Sound where
  registered id name t hlookup := by
    refine h.registered id name t ?_
    by_cases hid : id < w.nextRegistry
    · rwa [lookup, registryAt, registry?_addRegistry_of_lt hid] at hlookup
    · have hnew : w.addRegistry.registryAt id = ∅ := by
        rw [registryAt, registry?_eq, World.addRegistry, Array.getElem?_push]
        split
        · rfl
        · rw [Array.getElem?_eq_none (Nat.le_of_not_lt hid)]
          rfl
      rw [lookup, hnew] at hlookup
      exact absurd hlookup (by simp)
  recorded := h.recorded

theorem Sound.dropRegistry (h : w.Sound) (gone : RegistryId) : (w.dropRegistry gone).Sound where
  registered id name t hlookup := by
    refine h.registered id name t ?_
    rw [lookup, registryAt, World.dropRegistry, registry?_setRegistry] at hlookup
    split at hlookup
    · exact absurd hlookup (by simp)
    · exact hlookup
  recorded := h.recorded

/-- A type that records types which exist can be added. -/
theorem Sound.addType (h : w.Sound) {type : GeneratedType P}
    (hrecorded : ∀ layer ∈ type.fields, ∀ u ∈ layer.recordedTypes, u < w.nextType) :
    (w.addType type).Sound where
  registered id name t hlookup :=
    (h.registered id name t hlookup).trans_le (Step.addType w type).nextType_le
  recorded t layer hlayer u hu := by
    refine lt_of_lt_of_le ?_ (Step.addType w type).nextType_le
    rcases Nat.lt_trichotomy t w.nextType with hold | rfl | hnone
    · rw [typeAt_addType_of_lt type hold] at hlayer
      exact h.recorded t layer hlayer u hu
    · rw [typeAt_addType_nextType] at hlayer
      exact hrecorded layer hlayer u hu
    · have hsize : (w.addType type).nextType ≤ t := (Array.size_push type).trans_le hnone
      rw [typeAt_of_nextType_le hsize] at hlayer
      exact absurd hlayer List.not_mem_nil

/-- Registration changes no other registry. -/
theorem registryAt_register_of_ne (hid : id ≠ registry)
    (h : w.register registry name t = .ok w') : w'.registryAt id = w.registryAt id := by
  rw [(register_eq_ok h).2, registryAt, registry?_setRegistry, if_neg fun h ↦ hid h.1.symm]
  rfl

theorem Sound.register (hsound : w.Sound) (hheld : w.HasRegistry registry) (ht : t < w.nextType)
    (h : w.register registry name t = .ok w') : w'.Sound := by
  have hsame : w'.types = w.types := by rw [(register_eq_ok h).2]
  refine ⟨fun id other u hlookup ↦ ?_, fun u layer hlayer v hv ↦ ?_⟩
  · rw [nextType, hsame]
    by_cases hid : id = registry
    · subst hid
      rw [lookup, registryAt_register hheld h, OrderedMap.lookup?_insert] at hlookup
      split at hlookup
      · exact Option.some.inj hlookup ▸ ht
      · exact hsound.registered id other u hlookup
    · rw [lookup, registryAt_register_of_ne hid h] at hlookup
      exact hsound.registered id other u hlookup
  · rw [typeAt, hsame] at hlayer
    rw [nextType, hsame]
    exact hsound.recorded u layer hlayer v hv

/-- A later world is sound if its new types record types that came before them. -/
theorem Sound.later (h : w.Sound) (hlater : Later w w')
    (hnew : ∀ t, w.nextType ≤ t → ∀ layer ∈ (w'.typeAt t).fields, ∀ u ∈ layer.recordedTypes,
      u < t) : w'.Sound := by
  induction hlater with
  | refl => exact h
  | @tail middle last hlater hstep ih =>
    have hmiddle : middle.Sound := by
      refine ih fun t ht layer hlayer u hu ↦ hnew t ht layer ?_ u hu
      by_cases hlt : t < middle.nextType
      · rwa [hstep.typeAt hlt]
      · rw [typeAt_of_nextType_le (Nat.le_of_not_lt hlt)] at hlayer
        exact absurd hlayer List.not_mem_nil
    cases hstep with
    | addType type =>
      refine hmiddle.addType fun layer hlayer ↦
        hnew middle.nextType (Later.nextType_le hlater) layer ?_
      rwa [typeAt_addType_nextType]
    | addRegistry => exact hmiddle.addRegistry
    | dropRegistry gone => exact hmiddle.dropRegistry gone
    | register hheld ht hregister => exact hmiddle.register hheld ht hregister

/-- Construction changes no other registry. -/
theorem registryAt_construct_of_ne {type : GeneratedType P} (hid : id ≠ registry)
    (h : w.construct registry type = (.ok t, w')) : w'.registryAt id = w.registryAt id := by
  obtain ⟨-, hregister⟩ := construct_eq_ok h
  exact registryAt_register_of_ne (w := w.addType type) hid hregister

/-- The construction of a type that records types which exist keeps a world sound. -/
theorem Sound.construct (hsound : w.Sound) {type : GeneratedType P}
    (hheld : w.HasRegistry registry)
    (hrecorded : ∀ layer ∈ type.fields, ∀ u ∈ layer.recordedTypes, u < w.nextType)
    (h : w.construct registry type = (.ok t, w')) : w'.Sound := by
  obtain ⟨rfl, hregister⟩ := construct_eq_ok h
  have hnew : w.nextType < (w.addType type).nextType :=
    (Nat.lt_succ_self _).trans_eq (Array.size_push type).symm
  exact (hsound.addType hrecorded).register hheld hnew hregister

/-- What a path of a schema becomes records a type that is registered, or none. -/
theorem Records.lt_nextType {schema : SchemaId} {path : String × PathDescriptor SchemaLink}
    {layer : FieldLayer (DeferredField P) (DeferredMap P)} (hsound : w.Sound)
    (h : w.Records registry name schema path layer) :
    ∀ u ∈ layer.recordedTypes, u < w.nextType := by
  intro u hu
  cases h with
  | reference field typeName isArray => exact absurd hu List.not_mem_nil
  | primitive field isArray hscalar =>
    exact absurd hu (by simp [FieldLayer.recordedTypes, FieldSpec.ofType, TypeRef.named?])
  | itself field isArray hself => exact absurd hu List.not_mem_nil
  | nested field isArray hother hlookup =>
    obtain rfl : u = _ := by
      simpa [FieldLayer.recordedTypes, FieldSpec.ofType, TypeRef.named?, eq_comm] using hu
    exact hsound.registered _ _ _ hlookup

end World

open World

/-- A build whose overrides record types which exist keeps a world sound, also when it fails. The
overrides record types of the first world, and these exist as long as the world grows. -/
theorem World.Sound.build {w : World P} (h : w.Sound) (hheld : w.HasRegistry registry)
    (request : BuildRequest P) (hextend : ∀ u ∈ request.extend.recordedTypes, u < w.nextType)
    (hprops : ∀ u ∈ request.props.recordedTypes, u < w.nextType) :
    (w.build heap registry request).2.Sound := by
  have hempty : ∀ u ∈ (FieldSource.ready ∅ : FieldSource (DeferredMap P)).recordedTypes,
      u < w.nextType := fun _ hu ↦ absurd hu List.not_mem_nil
  refine (buildWithin_keeps
    (Q := fun r ↦ (∀ u ∈ r.extend.recordedTypes, u < w.nextType) ∧
      ∀ u ∈ r.props.recordedTypes, u < w.nextType)
    (I := fun now ↦ now.Sound ∧ w.nextType ≤ now.nextType)
    (fun _ _ _ ↦ ⟨hempty, hempty⟩) (fun hr hheld hnow hlayers hconstruct ↦ ?_) [] request w
    ⟨hextend, hprops⟩ hheld ⟨h, le_rfl⟩).1
  obtain ⟨hsound, hle⟩ := hnow
  refine ⟨hsound.construct hheld (fun layer hlayer ↦ ?_) hconstruct,
    hle.trans (later_construct hheld hconstruct).nextType_le⟩
  rcases BuildRequest.mem_fields_type.mp hlayer with hgenerated | rfl | rfl
  · obtain ⟨path, -, hrecords⟩ := exists_partner_of_mem hlayers.flip hgenerated
    exact hrecords.lt_nextType hsound
  · exact fun u hu ↦ (hr.1 u hu).trans_le hle
  · exact fun u hu ↦ (hr.2 u hu).trans_le hle

end DocumentTypes
