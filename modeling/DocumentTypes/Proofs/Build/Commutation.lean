import DocumentTypes.Proofs.Build.Replay
import DocumentTypes.Proofs.Build.ShownFields
import DocumentTypes.Proofs.Build.WriteOnce

/-!
Builds in either order. Two builds that succeed on their own and add no name in common do not get in
each other's way: each covers the other (`World.Covers`), so each is replayed after the other, and
both orders leave the same names (`BothOrders`). What is new under a name fulfils the same request
in both, and what is old is the same type, so the two worlds show the same types (`builds_commute`),
although the places of the types and the order of the names are different.
-/

set_option autoImplicit false

namespace DocumentTypes

open World

variable {P : Producers} {heap : SchemaHeap} {registry : RegistryId}

/-- Growth of one registry changes no other. -/
theorem World.Grows.registryAt_of_ne {names : String → Prop} {w w' : World P} {id : RegistryId}
    (h : Grows registry names w w') (hid : id ≠ registry) :
    w'.registryAt id = w.registryAt id := by
  induction h with
  | refl => rfl
  | tail _ hstep ih =>
    obtain ⟨_, hconstruct⟩ := hstep
    rw [registryAt_construct_of_ne hid hconstruct, ih]

theorem World.registryAt_build_of_ne {request : BuildRequest P} {w w' : World P}
    {result : Except BuildError TypeId} {id : RegistryId}
    (h : w.build heap registry request = (result, w')) (hid : id ≠ registry) :
    w'.registryAt id = w.registryAt id := by
  have hgrows : Grows registry (IsOwnName request) w (w.build heap registry request).2 :=
    buildWithin_grows heap [] request w
  rw [h] at hgrows
  exact hgrows.registryAt_of_ne hid

/-- Builds from `w` to `w₁` and from `w` to `w₂` have been replayed after each other, from `w₁` to
`v` and from `w₂` to `v'`. -/
structure BothOrders (heap : SchemaHeap) (registry : RegistryId) (w w₁ w₂ v v' : World P) :
    Prop where
  second : Replays heap registry (BuildRequest.HasPlainOverrides registry) w w₂ w₁ v
  first : Replays heap registry (BuildRequest.HasPlainOverrides registry) w w₁ w₂ v'

namespace BothOrders

variable {w w₁ w₂ v v' : World P} {name : String}

theorem symm (h : BothOrders heap registry w w₁ w₂ v v') :
    BothOrders heap registry w w₂ w₁ v' v :=
  ⟨h.first, h.second⟩

theorem later (h : BothOrders heap registry w w₁ w₂ v v') : Later w v :=
  h.first.later.trans h.second.later_there

theorem holds_iff (h : BothOrders heap registry w w₁ w₂ v v') :
    v.Holds registry name ↔ v'.Holds registry name := by
  rw [h.second.holds_iff, h.first.holds_iff, or_comm]

/-- What only the second build adds fulfils one request in both worlds. -/
theorem exists_fulfils_of_second (h : BothOrders heap registry w w₁ w₂ v v')
    (hname : w₂.Holds registry name) (hnew : ¬ w.Holds registry name) :
    ∃ r u u', r.HasPlainOverrides registry ∧ r.name = name ∧ v.Fulfils heap registry r u ∧
      v'.Fulfils heap registry r u' := by
  obtain ⟨r, u, u', hplain, hsame, halone, hthere⟩ := h.second.fulfils name hname hnew
  exact ⟨r, u', u, hplain, hsame, hthere, halone.later h.first.later_there h.first.held_there⟩

/-- A name that is held afterwards was held before, or fulfils one request in both worlds. -/
theorem holds_cases (h : BothOrders heap registry w w₁ w₂ v v') (hname : v.Holds registry name) :
    w.Holds registry name ∨ ∃ r u u', r.HasPlainOverrides registry ∧ r.name = name ∧
      v.Fulfils heap registry r u ∧ v'.Fulfils heap registry r u' := by
  by_cases hold : w.Holds registry name
  · exact Or.inl hold
  rcases (h.second.holds_iff name).mp hname with hfirst | hsecond
  · obtain ⟨r, u, u', hplain, hsame, hthere, halone⟩ :=
      h.symm.exists_fulfils_of_second hfirst hold
    exact Or.inr ⟨r, u', u, hplain, hsame, halone, hthere⟩
  · exact Or.inr (h.exists_fulfils_of_second hsecond hold)

/-- What was held before is held in both worlds, and is the same type. -/
theorem lookup_of_old (h : BothOrders heap registry w w₁ w₂ v v') {t : TypeId}
    (hlookup : w.lookup registry name = some t) :
    v.lookup registry name = some t ∧ v'.lookup registry name = some t :=
  ⟨h.later.lookup h.second.held_there hlookup,
    h.symm.later.lookup h.first.held_there hlookup⟩

/-- The worlds have the same types under the names that a sound world held before, since these types
exist there, and types of the same names under the others. -/
theorem sameNames (h : BothOrders heap registry w w₁ w₂ v v') (hsound : w.Sound)
    (hothers : ∀ id ≠ registry, v.registryAt id = w.registryAt id)
    (hothers' : ∀ id ≠ registry, v'.registryAt id = w.registryAt id) :
    v.SameNames v' w.nextType := by
  have htypes : ∀ t < w.nextType, v.typeAt t = v'.typeAt t :=
    fun t ht ↦ (h.later.typeAt ht).trans (h.symm.later.typeAt ht).symm
  have hold : ∀ id name t, w.lookup id name = some t → v.lookup id name = some t →
      v'.lookup id name = some t →
      (v.lookup id name).map (fun t ↦ (v.typeAt t).name) =
        (v'.lookup id name).map fun t ↦ (v'.typeAt t).name := by
    intro id name t hlookup hv hv'
    rw [hv, hv', Option.map_some, Option.map_some, htypes t (hsound.registered id name t hlookup)]
  refine ⟨htypes, fun id name ↦ ?_⟩
  by_cases hid : id = registry
  · subst hid
    by_cases hname : v.Holds id name
    · rcases h.holds_cases hname with hbefore | ⟨r, u, u', -, rfl, hfulfils, hfulfils'⟩
      · obtain ⟨t, ht⟩ := World.holds_iff.mp hbefore
        obtain ⟨hv, hv'⟩ := h.lookup_of_old ht
        exact hold id name t ht hv hv'
      · rw [hfulfils.registered, hfulfils'.registered, Option.map_some, Option.map_some,
          hfulfils.name_eq, hfulfils'.name_eq]
    · rw [lookup_eq_none_iff.mpr hname, lookup_eq_none_iff.mpr (mt h.holds_iff.mpr hname)]
      rfl
  · have hv : v.lookup id name = w.lookup id name := by rw [lookup, hothers id hid, lookup]
    have hv' : v'.lookup id name = w.lookup id name := by rw [lookup, hothers' id hid, lookup]
    cases hlookup : w.lookup id name with
    | none =>
      rw [hv, hv', hlookup]
      rfl
    | some t => exact hold id name t hlookup (hv.trans hlookup) (hv'.trans hlookup)

/-- A type that a sound world held before is the same in both worlds, and shows the same fields if
the producers of its layers do. -/
theorem shownFields_of_old (h : BothOrders heap registry w w₁ w₂ v v') (hsound : w.Sound)
    (hnames : v.SameNames v' w.nextType) {t : TypeId} (hlookup : w.lookup registry name = some t) :
    v.typeAt t = v'.typeAt t ∧ ∀ (σ : Type) (outside : Outside P σ),
      (∀ layer ∈ (v.typeAt t).fields, outside.ShowsSame v v' layer) →
      ∀ s, v.shownFields outside t s = v'.shownFields outside t s := by
  have hlt := hsound.registered registry name t hlookup
  have hsame := hnames.typeAt t hlt
  refine ⟨hsame, fun σ outside hshows s ↦ shownFields_eq ?_ s⟩
  rw [← hsame]
  refine List.forall₂_same.mpr fun layer hlayer ↦ ?_
  have hrecorded : layer ∈ (w.typeAt t).fields := by rwa [← h.later.typeAt hlt]
  exact sameLayer_of_old hnames (congrArg GeneratedType.name hsame)
    (hsound.recorded t layer hrecorded) (hshows layer hlayer)

end BothOrders

/-- Types that fulfil one request in worlds with the same names differ in their layers only, and
show the same fields. -/
theorem World.SameNames.shownFields_of_fulfils {v v' : World P} {bound : TypeId} {t t' : TypeId}
    {request : BuildRequest P} (h : v.SameNames v' bound)
    (hplain : request.HasPlainOverrides registry) (hfulfils : v.Fulfils heap registry request t)
    (hfulfils' : v'.Fulfils heap registry request t') :
    (∃ layers, v.typeAt t = request.type layers) ∧ (∃ layers, v'.typeAt t' = request.type layers) ∧
      ∀ (σ : Type) (outside : Outside P σ) s,
        v.shownFields outside t s = v'.shownFields outside t' s := by
  obtain ⟨layers, htype, -⟩ := hfulfils.recorded
  obtain ⟨layers', htype', -⟩ := hfulfils'.recorded
  exact ⟨⟨layers, htype⟩, ⟨layers', htype'⟩, fun σ outside s ↦
    shownFields_eq (sameLayers_of_fulfils h hplain hfulfils hfulfils') s⟩

section Commute

variable {r₁ r₂ : BuildRequest P} {t₁ t₂ : TypeId} {w w₁ w₂ : World P}

/-- Independent builds commute. Two requests whose overrides are fixed maps of scalars and lists, or
type expressions that the registry resolves, and that are built from the same sound world, are built
in either order if their builds add no name in common. Both orders leave the same names. Under each
name there are types of the same name, description and kind, which show the same fields, or the same
error: always when the name is new, and otherwise unless the type has fields from a producer outside
that tells the two worlds apart. -/
theorem builds_commute (hheld : w.HasRegistry registry) (hsound : w.Sound)
    (hplain₁ : r₁.HasPlainOverrides registry) (hplain₂ : r₂.HasPlainOverrides registry)
    (h₁ : w.build heap registry r₁ = (.ok t₁, w₁)) (h₂ : w.build heap registry r₂ = (.ok t₂, w₂))
    (hdisjoint : ∀ name, w₁.Holds registry name → w₂.Holds registry name →
      w.Holds registry name) :
    ∃ u₂ v u₁ v', w₁.build heap registry r₂ = (.ok u₂, v) ∧
      w₂.build heap registry r₁ = (.ok u₁, v') ∧
      (∀ name, v.Holds registry name ↔ v'.Holds registry name) ∧
      ∀ name t t', v.lookup registry name = some t → v'.lookup registry name = some t' →
        (v.typeAt t).name = (v'.typeAt t').name ∧
        (v.typeAt t).description = (v'.typeAt t').description ∧
        (v.typeAt t).kind = (v'.typeAt t').kind ∧
        ∀ (σ : Type) (outside : Outside P σ),
          (w.lookup registry name = none ∨
            ∀ layer ∈ (v.typeAt t).fields, outside.ShowsSame v v' layer) →
          ∀ s, v.shownFields outside t s = v'.shownFields outside t' s := by
  obtain ⟨hlater₁, hheld₁⟩ := later_build hheld h₁
  obtain ⟨hlater₂, hheld₂⟩ := later_build hheld h₂
  have hcovers₁ : Covers registry w w₂ w₁ :=
    ⟨hheld, hheld₁, fun _ ↦ hlater₁.holds hheld₁, fun name h h' ↦ hdisjoint name h' h⟩
  have hcovers₂ : Covers registry w w₁ w₂ :=
    ⟨hheld, hheld₂, fun _ ↦ hlater₂.holds hheld₂, hdisjoint⟩
  have hnested := BuildRequest.hasPlainOverrides_nested (P := P) registry
  obtain ⟨u₂, v, hbuild₂, hsecond⟩ := buildWithin_replays hnested hplain₂ hcovers₁ h₂
  obtain ⟨u₁, v', hbuild₁, hfirst⟩ := buildWithin_replays hnested hplain₁ hcovers₂ h₁
  have hboth : BothOrders heap registry w w₁ w₂ v v' := ⟨hsecond, hfirst⟩
  have hnames : v.SameNames v' w.nextType := hboth.sameNames hsound
    (fun id hid ↦ (registryAt_build_of_ne hbuild₂ hid).trans (registryAt_build_of_ne h₁ hid))
    (fun id hid ↦ (registryAt_build_of_ne hbuild₁ hid).trans (registryAt_build_of_ne h₂ hid))
  refine ⟨u₂, v, u₁, v', hbuild₂, hbuild₁, fun name ↦ hboth.holds_iff, ?_⟩
  intro name t t' ht ht'
  rcases hboth.holds_cases (World.holds_iff.mpr ⟨t, ht⟩) with
    hold | ⟨r, u, u', hplain, rfl, hfulfils, hfulfils'⟩
  · obtain ⟨t₀, hlookup⟩ := World.holds_iff.mp hold
    obtain ⟨hv, hv'⟩ := hboth.lookup_of_old hlookup
    obtain rfl := Option.some.inj (hv.symm.trans ht)
    obtain rfl := Option.some.inj (hv'.symm.trans ht')
    obtain ⟨hsame, hshown⟩ := hboth.shownFields_of_old hsound hnames hlookup
    refine ⟨by rw [hsame], by rw [hsame], by rw [hsame], fun σ outside houtside s ↦ ?_⟩
    exact hshown σ outside (houtside.resolve_left (by rw [hlookup]; simp)) s
  · obtain rfl := Option.some.inj (hfulfils.registered.symm.trans ht)
    obtain rfl := Option.some.inj (hfulfils'.registered.symm.trans ht')
    obtain ⟨⟨layers, htype⟩, ⟨layers', htype'⟩, hshown⟩ :=
      hnames.shownFields_of_fulfils hplain hfulfils hfulfils'
    exact ⟨by rw [htype, htype']; rfl, by rw [htype, htype']; rfl, by rw [htype, htype']; rfl,
      fun σ outside _ s ↦ hshown σ outside s⟩

end Commute

/-- The owners of the animals are found, whether the persons are built after the animals or before
them. -/
theorem builds_commute_animal :
    newWorld.HasRegistry 0 ∧ (newWorld : World .none).Sound ∧
    animalRequest.HasPlainOverrides 0 ∧ personRequest.HasPlainOverrides 0 ∧
    ∃ u₂ v u₁ v',
      (newWorld.build animalHeap 0 animalRequest).2.build animalHeap 0 personRequest =
        (.ok u₂, v) ∧
      (newWorld.build animalHeap 0 personRequest).2.build animalHeap 0 animalRequest =
        (.ok u₁, v') ∧
      (v.registryAt 0).keys = ["Animal_home", "Animal", "Person"] ∧
      (v'.registryAt 0).keys = ["Person", "Animal_home", "Animal"] ∧
      v.shownFields Outside.none 1 () = v'.shownFields Outside.none 2 () ∧
      v.shownFields Outside.none 1 () = .ok
        [("name", "ID"), ("home", "Animal_home"), ("young", "[Animal]"), ("owner", "Person")] := by
  have hheld : newWorld.HasRegistry 0 := by decide
  have hsound : (newWorld : World .none).Sound := sound_empty.addRegistry
  have hanimal : animalRequest.HasPlainOverrides 0 := ⟨.fixed rfl, .fixed rfl⟩
  have hperson : personRequest.HasPlainOverrides 0 := ⟨.fixed rfl, .fixed rfl⟩
  have hresult : (newWorld.build animalHeap 0 personRequest).1 = .ok 0 := by decide +kernel
  have hkeys₁ : ((newWorld.build animalHeap 0 animalRequest).2.registryAt 0).keys =
      ["Animal_home", "Animal"] := by decide +kernel
  have hkeys₂ : ((newWorld.build animalHeap 0 personRequest).2.registryAt 0).keys =
      ["Person"] := by decide +kernel
  have hdisjoint : ∀ name, (newWorld.build animalHeap 0 animalRequest).2.Holds 0 name →
      (newWorld.build animalHeap 0 personRequest).2.Holds 0 name → newWorld.Holds 0 name := by
    intro name hname₁ hname₂
    rw [Holds, hkeys₁] at hname₁
    rw [Holds, hkeys₂, List.mem_singleton] at hname₂
    subst hname₂
    exact absurd hname₁ (by decide)
  obtain ⟨u₂, v, u₁, v', hfirst, hsecond, -, hshown⟩ := builds_commute hheld hsound hanimal hperson
    build_animal (Prod.ext hresult rfl) hdisjoint
  have hv : v = ((newWorld.build animalHeap 0 animalRequest).2.build animalHeap 0
      personRequest).2 := (congrArg Prod.snd hfirst).symm
  have hv' : v' = ((newWorld.build animalHeap 0 personRequest).2.build animalHeap 0
      animalRequest).2 := (congrArg Prod.snd hsecond).symm
  have hlookup : v.lookup 0 "Animal" = some 1 := by rw [hv]; decide +kernel
  have hlookup' : v'.lookup 0 "Animal" = some 2 := by rw [hv']; decide +kernel
  obtain ⟨-, -, -, hfields⟩ := hshown "Animal" 1 2 hlookup hlookup'
  refine ⟨hheld, hsound, hanimal, hperson, u₂, v, u₁, v', hfirst, hsecond, ?_, ?_,
    hfields Unit Outside.none (Or.inl (by decide)) (), ?_⟩
  · rw [hv]
    decide +kernel
  · rw [hv']
    decide +kernel
  · rw [hv]
    decide +kernel

end DocumentTypes
