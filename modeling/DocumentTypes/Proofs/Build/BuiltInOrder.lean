import DocumentTypes.Proofs.Build.ClosedRegistry
import DocumentTypes.Proofs.Build.Positions

/-!
Requests that are built one after the other (`BuiltInOrder`). When their names are different and
neither these nor the fields at their positions have underscores (`PlainRequests`), all positions of
all requests have different names, so no build finds what another one has registered. In an empty
registry every position then has a type of its own, generated for it, and the registry holds these
types and no others (`BuiltFaithfully`).
-/

set_option autoImplicit false

namespace DocumentTypes

variable {P : Producers} {heap : SchemaHeap} {registry : RegistryId}
  {request r : BuildRequest P} {requests : List (BuildRequest P)} {types : List TypeId}
  {w w' : World P} {path : List String} {name : String} {t : TypeId}

open World

/-- The requests are built one after the other, and give the types. -/
inductive BuiltInOrder (heap : SchemaHeap) (registry : RegistryId) :
    List (BuildRequest P) → List TypeId → World P → World P → Prop
  | nil (w : World P) : BuiltInOrder heap registry [] [] w w
  | cons {request : BuildRequest P} {requests : List (BuildRequest P)} {t : TypeId}
      {types : List TypeId} {w w₁ w' : World P} (h : w.build heap registry request = (.ok t, w₁))
      (hrest : BuiltInOrder heap registry requests types w₁ w') :
      BuiltInOrder heap registry (request :: requests) (t :: types) w w'

/-- The requests have different names without underscores, and the fields at their positions have
none either. -/
structure PlainRequests (heap : SchemaHeap) (requests : List (BuildRequest P)) : Prop where
  distinct : (requests.map BuildRequest.name).Nodup
  names : ∀ request ∈ requests, IsPlainName request.name
  fields : ∀ request ∈ requests, request.HasPlainFields heap

theorem PlainRequests.tail (h : PlainRequests heap (request :: requests)) :
    PlainRequests heap requests where
  distinct := (List.nodup_cons.mp h.distinct).2
  names := (List.forall_mem_cons.mp h.names).2
  fields := (List.forall_mem_cons.mp h.fields).2

namespace BuiltInOrder

theorem later (h : BuiltInOrder heap registry requests types w w')
    (hheld : w.HasRegistry registry) : Later w w' ∧ w'.HasRegistry registry := by
  induction h with
  | nil w => exact ⟨Later.refl w, hheld⟩
  | cons hbuild _ ih =>
    obtain ⟨hfirst, hheld₁⟩ := later_build hheld hbuild
    obtain ⟨hrest, hheld'⟩ := ih hheld₁
    exact ⟨hfirst.trans hrest, hheld'⟩

/-- The types that are given are registered under the requested names. -/
theorem registered (h : BuiltInOrder heap registry requests types w w')
    (hheld : w.HasRegistry registry) :
    List.Forall₂ (fun request t ↦ w'.lookup registry request.name = some t) requests types := by
  induction h with
  | nil w => exact .nil
  | cons hbuild hrest ih =>
    obtain ⟨-, hheld₁⟩ := later_build hheld hbuild
    obtain ⟨hlater, hheld'⟩ := hrest.later hheld₁
    exact .cons (hlater.lookup hheld' (lookup_buildWithin hheld hbuild)) (ih hheld₁)

/-- What is registered afterwards was registered before, or belongs to a position. -/
theorem exists_unfolds_of_lookup (h : BuiltInOrder heap registry requests types w w')
    (hheld : w.HasRegistry registry) (hlookup : w'.lookup registry name = some t) :
    w.lookup registry name = some t ∨
      ∃ request ∈ requests, ∃ path r, request.Unfolds heap path r ∧ r.name = name := by
  induction h with
  | nil w => exact Or.inl hlookup
  | cons hbuild hrest ih =>
    rcases ih (later_build hheld hbuild).2 hlookup with hfirst | ⟨request, hmem, hposition⟩
    · rcases exists_unfolds_of_build hheld hbuild hfirst with hbefore | hposition
      · exact Or.inl hbefore
      · exact Or.inr ⟨_, List.mem_cons_self, hposition⟩
    · exact Or.inr ⟨request, List.mem_cons_of_mem _ hmem, hposition⟩

/-- Plain requests that find nothing of their own registered give a new type for every position.
What one of them registers is within its own name, and so not within that of another. -/
theorem exists_fulfils (h : BuiltInOrder heap registry requests types w w')
    (hplain : PlainRequests heap requests) (hheld : w.HasRegistry registry)
    (hmisses : ∀ request ∈ requests, w.Misses registry request.name) (hmem : request ∈ requests)
    (hunfolds : request.Unfolds heap path r) :
    ∃ u, w.nextType ≤ u ∧ w'.Fulfils heap registry r u := by
  induction h with
  | nil w => exact absurd hmem List.not_mem_nil
  | @cons first rest t types w w₁ w' hbuild hrest ih =>
    obtain ⟨hlater, hheld₁⟩ := later_build hheld hbuild
    rcases List.mem_cons.mp hmem with rfl | hothers
    · obtain ⟨u, hnew, hfulfils⟩ := exists_fulfils_of_build hheld
        (hplain.fields _ List.mem_cons_self) (hmisses _ List.mem_cons_self) hbuild hunfolds
      obtain ⟨hlater', hheld'⟩ := hrest.later hheld₁
      exact ⟨u, hnew, hfulfils.later hlater' hheld'⟩
    · have hmisses₁ : ∀ other ∈ rest, w₁.Misses registry other.name := by
        intro other hother key hkey hwithin
        have hgrows : Grows registry (IsOwnName first) w (w.build heap registry first).2 :=
          buildWithin_grows heap [] first w
        rw [hbuild] at hgrows
        rcases hgrows.mem_keys hheld hkey with hold | hown
        · exact hmisses other (List.mem_cons_of_mem _ hother) key hold hwithin
        · have hsame : first.name = other.name :=
            eq_of_isWithinName_of_plain (hplain.names _ List.mem_cons_self)
              (hplain.names _ (List.mem_cons_of_mem _ hother)) hown hwithin
          have hdistinct := (List.nodup_cons.mp hplain.distinct).1
          exact hdistinct (hsame ▸ List.mem_map_of_mem hother)
      obtain ⟨u, hnew, hfulfils⟩ := ih hplain.tail hheld₁ hmisses₁ hothers
      exact ⟨u, hlater.nextType_le.trans hnew, hfulfils⟩

end BuiltInOrder

/-! ### Positions and types -/

/-- A place in a list of requests, and the fields that lead from there to a nested request. -/
abbrev Position := ℕ × List String

/-- The positions of all requests, those of the requests themselves included. -/
def positions (heap : SchemaHeap) (requests : List (BuildRequest P)) : Set Position :=
  {p | ∃ request r, requests[p.1]? = some request ∧ request.Unfolds heap p.2 r}

/-- The name of the type at a position. -/
def positionName (requests : List (BuildRequest P)) (p : Position) : String :=
  p.2.foldl subFieldName ((requests[p.1]?.map BuildRequest.name).getD "")

theorem positionName_eq {k : ℕ} (hrequest : requests[k]? = some request)
    (hunfolds : request.Unfolds heap path r) : positionName requests (k, path) = r.name := by
  rw [positionName, hrequest, hunfolds.name_eq]
  rfl

theorem PlainRequests.injOn_positionName (h : PlainRequests heap requests) :
    Set.InjOn (positionName requests) (positions heap requests) := by
  rintro ⟨k, path⟩ ⟨request, r, hrequest, hunfolds⟩ ⟨k', path'⟩
    ⟨request', r', hrequest', hunfolds'⟩ hname
  have hmem := List.mem_of_getElem? hrequest
  have hmem' := List.mem_of_getElem? hrequest'
  have hsame : path.foldl subFieldName request.name = path'.foldl subFieldName request'.name := by
    rwa [positionName_eq hrequest hunfolds, positionName_eq hrequest' hunfolds', hunfolds.name_eq,
      hunfolds'.name_eq] at hname
  have hwithin := isWithinName_foldl request.name path
  rw [hsame] at hwithin
  have hfirst : request.name = request'.name := eq_of_isWithinName_of_plain (h.names _ hmem)
    (h.names _ hmem') hwithin (isWithinName_foldl request'.name path')
  rw [hfirst] at hsame
  have hpath : path = path' := foldl_subFieldName_injective
    ((h.fields _ hmem).plain_path hunfolds) ((h.fields _ hmem').plain_path hunfolds') hsame
  have hlt : k < (requests.map BuildRequest.name).length := by
    rw [List.length_map]
    exact (List.getElem?_eq_some_iff.mp hrequest).1
  have hplace : k = k' := by
    refine (List.getElem?_inj hlt h.distinct).mp ?_
    rw [List.getElem?_map, List.getElem?_map, hrequest, hrequest', Option.map_some, Option.map_some,
      hfirst]
  rw [hplace, hpath]

/-- The positions are one for each request, and those of nested requests. -/
theorem ncard_positions (hfinite : (positions heap requests).Finite) :
    (positions heap requests).ncard =
      requests.length + {p ∈ positions heap requests | p.2 ≠ []}.ncard := by
  have hroots : Set.ncard ((fun k ↦ (k, [])) '' (Finset.range requests.length : Set ℕ) :
      Set Position) = requests.length := by
    rw [Set.ncard_image_of_injective _ fun k k' h ↦ (Prod.mk.inj h).1, Set.ncard_coe_finset,
      Finset.card_range]
  have hsplit : positions heap requests =
      (fun k ↦ (k, [])) '' (Finset.range requests.length : Set ℕ) ∪
        {p ∈ positions heap requests | p.2 ≠ []} := by
    ext ⟨k, path⟩
    constructor
    · rintro ⟨request, r, hrequest, hunfolds⟩
      by_cases hpath : path = []
      · subst hpath
        refine Or.inl ⟨k, ?_, rfl⟩
        exact Finset.mem_coe.mpr (Finset.mem_range.mpr (List.getElem?_eq_some_iff.mp hrequest).1)
      · exact Or.inr ⟨⟨request, r, hrequest, hunfolds⟩, hpath⟩
    · rintro (⟨k', hk, hpair⟩ | ⟨hposition, -⟩)
      · obtain ⟨rfl, rfl⟩ := Prod.mk.inj hpair
        have hlt := Finset.mem_range.mp (Finset.mem_coe.mp hk)
        exact ⟨requests[k'], _, List.getElem?_eq_getElem hlt, .root⟩
      · exact hposition
  have hdisjoint : Disjoint ((fun k ↦ (k, [])) '' (Finset.range requests.length : Set ℕ))
      {p ∈ positions heap requests | p.2 ≠ []} := by
    rw [Set.disjoint_left]
    rintro p ⟨k, -, rfl⟩ ⟨-, hpath⟩
    exact hpath rfl
  rw [hsplit] at hfinite
  conv_lhs => rw [hsplit]
  rw [Set.ncard_union_eq hdisjoint (hfinite.subset Set.subset_union_left)
    (hfinite.subset Set.subset_union_right), hroots]

/-- Every position has a type of its own, which is new and fulfils the request there, with the class
and the exclusions of the outermost one. The fields for embedded schemas lead from position to
position, and the registry holds these types and no others, each under one name. -/
structure BuiltFaithfully (heap : SchemaHeap) (registry : RegistryId)
    (requests : List (BuildRequest P)) (w w' : World P) (place : Position → TypeId) : Prop where
  fulfils : ∀ k request path r, requests[k]? = some request → request.Unfolds heap path r →
    w.nextType ≤ place (k, path) ∧ w'.Fulfils heap registry r (place (k, path)) ∧
      r.classKind = request.classKind ∧ r.exclude = request.exclude
  nested : ∀ k request path r, requests[k]? = some request → request.Unfolds heap path r →
    ∀ field d target, (field, d) ∈ heap.kept r.exclude r.schema →
      d.otherSchema? r.schema = some target →
      .field field (.ofType (.listIf d.isArray (.named (place (k, path ++ [field]))))) ∈
        (w'.typeAt (place (k, path))).fields
  bijOn : Set.BijOn place (positions heap requests) {t | w'.IsRegistered registry t}
  size : (w'.registryAt registry).entries.length =
    requests.length + {p ∈ positions heap requests | p.2 ≠ []}.ncard

/-- The type that the registry holds under the name of a position. -/
def World.typeAtPosition (w : World P) (registry : RegistryId) (requests : List (BuildRequest P))
    (p : Position) : TypeId :=
  (w.lookup registry (positionName requests p)).getD 0

theorem typeAtPosition_eq {k : ℕ} (hrequest : requests[k]? = some request)
    (hunfolds : request.Unfolds heap path r) (hlookup : w.lookup registry r.name = some t) :
    w.typeAtPosition registry requests (k, path) = t := by
  rw [typeAtPosition, positionName_eq hrequest hunfolds, hlookup, Option.getD_some]

namespace BuiltInOrder

/-- The types that are given are those at the positions of the requests themselves. -/
theorem types_eq (h : BuiltInOrder heap registry requests types w w')
    (hheld : w.HasRegistry registry) : types =
      (List.range requests.length).map fun k ↦ w'.typeAtPosition registry requests (k, []) := by
  have hregistered := h.registered hheld
  refine List.ext_getElem (by simp [hregistered.length_eq]) fun k hk hk' ↦ ?_
  have hlt : k < requests.length := hregistered.length_eq ▸ hk
  have hroot : requests[k].Unfolds heap [] requests[k] := .root
  have hlookup := (List.forall₂_iff_get.mp hregistered).2 k hlt hk
  rw [List.getElem_map, List.getElem_range,
    typeAtPosition_eq (List.getElem?_eq_getElem hlt) hroot hlookup]
  rfl

variable (h : BuiltInOrder heap registry requests types w w') (hplain : PlainRequests heap requests)
  (hheld : w.HasRegistry registry) (hempty : w.registryAt registry = ∅)

include h hplain hheld hempty

theorem fulfils_typeAtPosition {k : ℕ} (hrequest : requests[k]? = some request)
    (hunfolds : request.Unfolds heap path r) :
    w.nextType ≤ w'.typeAtPosition registry requests (k, path) ∧
      w'.Fulfils heap registry r (w'.typeAtPosition registry requests (k, path)) := by
  obtain ⟨u, hnew, hfulfils⟩ := h.exists_fulfils hplain hheld
    (fun other _ ↦ misses_of_registryAt_eq_empty hempty other.name)
    (List.mem_of_getElem? hrequest) hunfolds
  rw [typeAtPosition_eq hrequest hunfolds hfulfils.registered]
  exact ⟨hnew, hfulfils⟩

/-- The names of the positions are the registered names. -/
theorem bijOn_positionName : Set.BijOn (positionName requests) (positions heap requests)
    {name | name ∈ (w'.registryAt registry).keys} := by
  refine ⟨?_, hplain.injOn_positionName, ?_⟩
  · rintro ⟨k, path⟩ ⟨request, r, hrequest, hunfolds⟩
    obtain ⟨-, hfulfils⟩ := h.fulfils_typeAtPosition hplain hheld hempty hrequest hunfolds
    rw [positionName_eq hrequest hunfolds]
    exact OrderedMap.mem_keys_of_lookup? hfulfils.registered
  · intro name hname
    obtain ⟨t, ht⟩ := OrderedMap.mem_keys_iff.mp hname
    rcases h.exists_unfolds_of_lookup hheld ht with
      hbefore | ⟨request, hmem, path, r, hunfolds, rfl⟩
    · exact absurd ((lookup_of_empty hempty name).symm.trans hbefore) (by simp)
    · obtain ⟨k, hrequest⟩ := List.mem_iff_getElem?.mp hmem
      exact ⟨(k, path), ⟨request, r, hrequest, hunfolds⟩, positionName_eq hrequest hunfolds⟩

/-- The types at the positions are the registered types: one type has one name, and one name has one
position. -/
theorem bijOn_typeAtPosition : Set.BijOn (w'.typeAtPosition registry requests)
    (positions heap requests) {t | w'.IsRegistered registry t} := by
  have hnames := h.bijOn_positionName hplain hheld hempty
  refine ⟨?_, ?_, ?_⟩
  · rintro ⟨k, path⟩ ⟨request, r, hrequest, hunfolds⟩
    obtain ⟨-, hfulfils⟩ := h.fulfils_typeAtPosition hplain hheld hempty hrequest hunfolds
    exact ⟨r.name, hfulfils.registered⟩
  · rintro ⟨k, path⟩ ⟨request, r, hrequest, hunfolds⟩ ⟨k', path'⟩
      ⟨request', r', hrequest', hunfolds'⟩ hsame
    obtain ⟨-, hfulfils⟩ := h.fulfils_typeAtPosition hplain hheld hempty hrequest hunfolds
    obtain ⟨-, hfulfils'⟩ := h.fulfils_typeAtPosition hplain hheld hempty hrequest' hunfolds'
    refine hnames.injOn ⟨request, r, hrequest, hunfolds⟩ ⟨request', r', hrequest', hunfolds'⟩ ?_
    rw [positionName_eq hrequest hunfolds, positionName_eq hrequest' hunfolds', ← hfulfils.name_eq,
      ← hfulfils'.name_eq, hsame]
  · rintro t ⟨name, hlookup⟩
    obtain ⟨⟨k, path⟩, ⟨request, r, hrequest, hunfolds⟩, rfl⟩ :=
      hnames.surjOn (OrderedMap.mem_keys_of_lookup? hlookup)
    rw [positionName_eq hrequest hunfolds] at hlookup
    exact ⟨(k, path), ⟨request, r, hrequest, hunfolds⟩, typeAtPosition_eq hrequest hunfolds hlookup⟩

/-- The registry is as large as there are positions. -/
theorem length_entries : (w'.registryAt registry).entries.length =
    requests.length + {p ∈ positions heap requests | p.2 ≠ []}.ncard := by
  have hnames := h.bijOn_positionName hplain hheld hempty
  have hkeys : {name | name ∈ (w'.registryAt registry).keys} =
      ((w'.registryAt registry).keys.toFinset : Set String) := by
    ext name
    simp
  have hfinite : (positions heap requests).Finite := by
    rw [hnames.finite_iff_finite, hkeys]
    exact Finset.finite_toSet _
  have hsize : (w'.registryAt registry).keys.toFinset.card =
      (w'.registryAt registry).entries.length :=
    (List.toFinset_card_of_nodup (w'.registryAt registry).nodup_keys).trans (List.length_map _)
  calc (w'.registryAt registry).entries.length
      = {name | name ∈ (w'.registryAt registry).keys}.ncard := by
        rw [hkeys, Set.ncard_coe_finset, hsize]
    _ = (positions heap requests).ncard := by rw [← hnames.image_eq, hnames.injOn.ncard_image]
    _ = requests.length + {p ∈ positions heap requests | p.2 ≠ []}.ncard := ncard_positions hfinite

/-- In an empty registry, plain requests are built faithfully. -/
theorem builtFaithfully : BuiltFaithfully heap registry requests w w'
    (w'.typeAtPosition registry requests) where
  fulfils k request path r hrequest hunfolds := by
    obtain ⟨hnew, hfulfils⟩ := h.fulfils_typeAtPosition hplain hheld hempty hrequest hunfolds
    exact ⟨hnew, hfulfils, hunfolds.inherits⟩
  nested k request path r hrequest hunfolds field d target hkept hother := by
    obtain ⟨-, hfulfils⟩ := h.fulfils_typeAtPosition hplain hheld hempty hrequest hunfolds
    obtain ⟨u, hlookup, hfield⟩ := hfulfils.nested hkept hother
    rwa [typeAtPosition_eq hrequest (.nested hunfolds hkept hother) hlookup]
  bijOn := h.bijOn_typeAtPosition hplain hheld hempty
  size := h.length_entries hplain hheld hempty

end BuiltInOrder

end DocumentTypes
