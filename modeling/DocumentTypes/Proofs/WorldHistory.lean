import DocumentTypes.Proofs.OrderedMap
import DocumentTypes.World
import Mathlib.Data.List.Infix
import Mathlib.Logic.Relation
import Mathlib.Order.Nat

/-!
How a world of generated types changes. A step adds a type or a registry, gives a registry up, or
registers a type in a registry that is still held (`Step`), and a later world is reached by any
number of steps (`Later`). Types are never changed or removed (`Later.typeAt`), and the entries of a
registry that is still held stay in front of those that came later (`Later.prefix_entries`), so it
gives the same type under a name for ever (`Later.lookup`).
-/

set_option autoImplicit false

namespace DocumentTypes.World

variable {P : Producers} {w w' : World P} {id : RegistryId}

/-- Something still holds the registry. -/
def HasRegistry (w : World P) (id : RegistryId) : Prop :=
  (w.registry? id).isSome = true

instance (w : World P) (id : RegistryId) : Decidable (w.HasRegistry id) :=
  inferInstanceAs (Decidable (_ = true))

/-- One change of a world. -/
inductive Step : World P → World P → Prop
  | addType (w : World P) (type : GeneratedType P) : Step w (w.addType type)
  | addRegistry (w : World P) : Step w w.addRegistry
  | dropRegistry (w : World P) (id : RegistryId) : Step w (w.dropRegistry id)
  | register {w w' : World P} {id : RegistryId} {name : String} {type : TypeId}
      (halive : w.HasRegistry id) (htype : type < w.nextType)
      (hregister : w.register id name type = .ok w') : Step w w'

/-- The worlds that a world can become. -/
def Later : World P → World P → Prop :=
  Relation.ReflTransGen Step

/-! ### Single operations -/

theorem registry?_eq (w : World P) (id : RegistryId) :
    w.registry? id = (w.registries[id]?).join :=
  rfl

theorem lt_nextRegistry_of_hasRegistry (halive : w.HasRegistry id) : id < w.nextRegistry := by
  by_contra hlate
  have hnone : w.registry? id = none := by
    rw [registry?_eq, Array.getElem?_eq_none (Nat.le_of_not_lt hlate), Option.join_none]
  rw [HasRegistry, hnone] at halive
  exact absurd halive (by decide)

theorem registryAt_of_not_hasRegistry (hgone : ¬ w.HasRegistry id) : w.registryAt id = ∅ := by
  have hnone : w.registry? id = none := by
    rw [← Option.not_isSome_iff_eq_none]
    exact hgone
  rw [registryAt, hnone, Option.getD_none]

theorem lookup_eq_none_iff {name : String} :
    w.lookup id name = none ↔ name ∉ (w.registryAt id).keys :=
  OrderedMap.lookup?_eq_none_iff

theorem registry?_setRegistry (w : World P) (id other : RegistryId) (slot : Option Registry) :
    World.registry? { w with registries := w.registries.setIfInBounds id slot } other =
      if id = other ∧ id < w.nextRegistry then slot else w.registry? other := by
  rw [registry?_eq, Array.getElem?_setIfInBounds]
  by_cases hid : id = other
  · subst hid
    by_cases hlt : id < w.registries.size
    · simp [hlt, nextRegistry]
    · simp [hlt, nextRegistry, registry?_eq]
  · simp [hid, registry?_eq]

/-- A registration succeeds for a name that is not in use, and puts it at the end. -/
theorem register_eq_ok {name : String} {type : TypeId} (h : w.register id name type = .ok w') :
    name ∉ (w.registryAt id).keys ∧
      w' = { w with registries :=
        w.registries.setIfInBounds id (some ((w.registryAt id).insert name type)) } := by
  unfold register Registry.register at h
  by_cases hused : (w.registryAt id).contains name = true
  · rw [if_pos hused] at h
    exact absurd h (by simp)
  · rw [if_neg hused] at h
    refine ⟨fun hmem ↦ hused (List.contains_iff_mem.mpr hmem), ?_⟩
    exact (Except.ok.inj h).symm

/-- The registry after a registration in it. -/
theorem registryAt_register {name : String} {type : TypeId} (halive : w.HasRegistry id)
    (h : w.register id name type = .ok w') :
    w'.registryAt id = (w.registryAt id).insert name type := by
  rw [(register_eq_ok h).2, registryAt, registry?_setRegistry,
    if_pos ⟨rfl, lt_nextRegistry_of_hasRegistry halive⟩, Option.getD_some]

theorem entries_register {name : String} {type : TypeId} (halive : w.HasRegistry id)
    (h : w.register id name type = .ok w') :
    (w'.registryAt id).entries = (w.registryAt id).entries ++ [(name, type)] := by
  rw [registryAt_register halive h]
  exact OrderedMap.entries_insert_of_notMem type (register_eq_ok h).1

theorem typeAt_addType_of_lt {type : TypeId} (new : GeneratedType P) (h : type < w.nextType) :
    (w.addType new).typeAt type = w.typeAt type := by
  rw [typeAt, typeAt, addType, Array.getElem?_push_lt h, Array.getElem?_eq_getElem h]

theorem typeAt_addType_nextType (w : World P) (new : GeneratedType P) :
    (w.addType new).typeAt w.nextType = new := by
  rw [typeAt, addType, nextType, Array.getElem?_push_size, Option.getD_some]

/-! ### Steps -/

theorem Step.nextType_le (h : Step w w') : w.nextType ≤ w'.nextType := by
  cases h with
  | addType type => exact (Nat.le_succ _).trans (Array.size_push type).ge
  | addRegistry => exact le_rfl
  | dropRegistry id => exact le_rfl
  | register halive htype hregister => rw [(register_eq_ok hregister).2]; exact le_rfl

theorem Step.nextRegistry_le (h : Step w w') : w.nextRegistry ≤ w'.nextRegistry := by
  cases h with
  | addType type => exact le_rfl
  | addRegistry => exact (Nat.le_succ _).trans (Array.size_push (some ∅)).ge
  | dropRegistry id => exact (Array.size_setIfInBounds ..).ge
  | register halive htype hregister =>
    rw [(register_eq_ok hregister).2]
    exact (Array.size_setIfInBounds ..).ge

theorem Step.typeAt (h : Step w w') {type : TypeId} (htype : type < w.nextType) :
    w'.typeAt type = w.typeAt type := by
  cases h with
  | addType new => exact typeAt_addType_of_lt new htype
  | addRegistry => rfl
  | dropRegistry id => rfl
  | register halive hnew hregister => rw [(register_eq_ok hregister).2]; rfl

theorem registry?_addRegistry_of_lt (h : id < w.nextRegistry) :
    w.addRegistry.registry? id = w.registry? id := by
  rw [registry?_eq, registry?_eq, addRegistry, Array.getElem?_push_lt h,
    Array.getElem?_eq_getElem h]

/-- A registry that is gone does not come back. -/
theorem Step.hasRegistry_of (h : Step w w') (hid : id < w.nextRegistry)
    (halive : w'.HasRegistry id) : w.HasRegistry id := by
  cases h with
  | addType type => exact halive
  | addRegistry => rwa [HasRegistry, registry?_addRegistry_of_lt hid] at halive
  | dropRegistry other =>
    rw [HasRegistry, World.dropRegistry, registry?_setRegistry] at halive
    split at halive
    · exact absurd halive (by decide)
    · exact halive
  | @register _ other _ _ hother htype hregister =>
    rw [HasRegistry, (register_eq_ok hregister).2, registry?_setRegistry] at halive
    split at halive
    · next hsame => exact hsame.1 ▸ hother
    · exact halive

/-- A step keeps the entries of a registry that is still held, in front of new ones. -/
theorem Step.prefix_entries (h : Step w w') (halive : w'.HasRegistry id) :
    (w.registryAt id).entries <+: (w'.registryAt id).entries := by
  by_cases hbefore : w.HasRegistry id
  swap
  · rw [registryAt_of_not_hasRegistry hbefore]
    exact List.nil_prefix
  have hid := lt_nextRegistry_of_hasRegistry hbefore
  cases h with
  | addType type => exact List.prefix_refl _
  | addRegistry =>
    rw [registryAt, registryAt, registry?_addRegistry_of_lt hid]
  | dropRegistry other =>
    rw [HasRegistry, World.dropRegistry, registry?_setRegistry] at halive
    split at halive
    · exact absurd halive (by decide)
    · next hother =>
      rw [registryAt, registryAt, World.dropRegistry, registry?_setRegistry, if_neg hother]
  | @register _ other _ _ hother htype hregister =>
    by_cases hsame : other = id
    · subst hsame
      rw [entries_register hother hregister]
      exact List.prefix_append _ _
    · rw [registryAt, registryAt, (register_eq_ok hregister).2, registry?_setRegistry,
        if_neg fun h ↦ hsame h.1]

/-! ### Later worlds -/

theorem Later.refl (w : World P) : Later w w :=
  Relation.ReflTransGen.refl

theorem Later.trans {w₁ w₂ w₃ : World P} (hfirst : Later w₁ w₂) (hsecond : Later w₂ w₃) :
    Later w₁ w₃ :=
  Relation.ReflTransGen.trans hfirst hsecond

theorem Later.nextType_le (h : Later w w') : w.nextType ≤ w'.nextType := by
  induction h with
  | refl => exact le_rfl
  | tail _ hstep ih => exact ih.trans hstep.nextType_le

theorem Later.nextRegistry_le (h : Later w w') : w.nextRegistry ≤ w'.nextRegistry := by
  induction h with
  | refl => exact le_rfl
  | tail _ hstep ih => exact ih.trans hstep.nextRegistry_le

/-- Types never change. -/
theorem Later.typeAt (h : Later w w') {type : TypeId} (htype : type < w.nextType) :
    w'.typeAt type = w.typeAt type := by
  induction h with
  | refl => rfl
  | tail hlater hstep ih => rw [hstep.typeAt (htype.trans_le (Later.nextType_le hlater)), ih]

/-- The entries of a registry that is still held stay in front of those that came later. -/
theorem Later.prefix_entries (h : Later w w') (halive : w'.HasRegistry id) :
    (w.registryAt id).entries <+: (w'.registryAt id).entries := by
  induction h with
  | refl => exact List.prefix_refl _
  | @tail middle last hlater hstep ih =>
    by_cases hmiddle : middle.HasRegistry id
    · exact (ih hmiddle).trans (hstep.prefix_entries halive)
    · have hgone : ¬ w.HasRegistry id := fun hw ↦ hmiddle (hstep.hasRegistry_of
        ((lt_nextRegistry_of_hasRegistry hw).trans_le (Later.nextRegistry_le hlater)) halive)
      rw [registryAt_of_not_hasRegistry hgone]
      exact List.nil_prefix

/-- A registry that is still held gives the same type under a name for ever. -/
theorem Later.lookup (h : Later w w') (halive : w'.HasRegistry id) {name : String}
    {type : TypeId} (hlookup : w.lookup id name = some type) : w'.lookup id name = some type :=
  OrderedMap.lookup?_of_front (h.prefix_entries halive) hlookup

end DocumentTypes.World
