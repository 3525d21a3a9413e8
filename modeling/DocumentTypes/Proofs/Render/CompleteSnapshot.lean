import DocumentTypes.Proofs.Render.BreadthFirst
import DocumentTypes.Proofs.Render.DepthFirst
import Mathlib.Data.Set.Card

/-!
The snapshot of a type is complete and can be read back. It expands each type that is reached from
the given one at one place (`Steady.mem_visited_iff`), and every other place where such a type
stands refers back to it. So it tells the fields of each reached type.
-/

set_option autoImplicit false

namespace DocumentTypes

open Json

theorem length_namedTypes (fields : FieldMap) :
    (namedTypes fields).length =
      fields.entries.countP fun field ↦ field.2.type.named?.isSome := by
  rw [namedTypes, OrderedMap.values, List.filterMap_map, List.length_filterMap_eq_countP]
  rfl

namespace World

variable {P : Producers} {σ : Type} {w : World P} {outside : Outside P σ} {s s' : σ} {t : TypeId}

theorem IsBreadthFirst.ncard_reachable {roots order : List TypeId}
    (h : w.IsBreadthFirst outside s roots order) :
    (w.reachable outside s roots).ncard = order.length := by
  have hset : w.reachable outside s roots = order.toFinset := by
    ext u
    rw [List.coe_toFinset]
    exact (h.mem_iff u).symm
  rw [hset, Set.ncard_coe_finset, List.toFinset_card_of_nodup h.nodup]

/-- A snapshot that is made is what is found when the type is expanded. -/
theorem snapshot_eq_ok {json : Json} (h : w.snapshot outside t s = (.ok json, s')) :
    ∃ visited seen', w.Expands outside [t] [] s visited seen' s' json.occurrences := by
  have hrenders : w.Renders outside _ [t] [] s _ := renders_expand t [] List.not_mem_nil s
  rw [snapshot] at h
  rcases hexpand : w.expand outside t [] List.not_mem_nil s with ⟨e | ⟨value, grown⟩, s₁⟩
  · rw [hexpand] at h
    exact absurd (Prod.mk.inj h).1 (by simp)
  · rw [hexpand] at h hrenders
    obtain ⟨hjson, rfl⟩ := Prod.mk.inj h
    obtain rfl := Except.ok.inj hjson
    obtain ⟨visited, found, hexpands, rfl, -⟩ := hrenders
    exact ⟨visited, grown.1, hexpands⟩

theorem snapshot_eq_error {e : BuildError} (h : w.snapshot outside t s = (.error e, s')) :
    w.Breaks outside [t] [] s e s' := by
  have hrenders : w.Renders outside _ [t] [] s _ := renders_expand t [] List.not_mem_nil s
  rw [snapshot] at h
  rcases hexpand : w.expand outside t [] List.not_mem_nil s with ⟨e' | ⟨value, grown⟩, s₁⟩
  · rw [hexpand] at h hrenders
    obtain ⟨herror, rfl⟩ := Prod.mk.inj h
    obtain rfl := Except.error.inj herror
    exact hrenders
  · rw [hexpand] at h
    exact absurd (Prod.mk.inj h).1 (by simp)

section Visited

variable {visited : List (TypeId × FieldMap)} {seen' : List String} {found : List Occurrence}

theorem Expands.nodup_names (h : w.Expands outside [t] [] s visited seen' s' found) :
    (visited.map fun visit ↦ (w.typeAt visit.1).name).Nodup := by
  have hnodup := h.nodup List.nodup_nil
  rwa [h.seen_eq, List.append_nil, List.nodup_reverse] at hnodup

theorem Expands.nodup_visited (h : w.Expands outside [t] [] s visited seen' s' found) :
    (visited.map Prod.fst).Nodup := by
  have hnames := h.nodup_names
  have hcomp : (visited.map fun visit ↦ (w.typeAt visit.1).name) =
      (visited.map Prod.fst).map fun u ↦ (w.typeAt u).name := by
    rw [List.map_map]
    rfl
  rw [hcomp] at hnames
  exact hnames.of_map

/-- The fields of each visited type can be read back by its name. -/
theorem Expands.fieldsOf?_eq {json : Json}
    (h : w.Expands outside [t] [] s visited seen' s' json.occurrences) :
    ∀ visit ∈ visited, json.fieldsOf? (w.typeAt visit.1).name =
      some (visit.2.entries.map w.fieldOutline) := by
  intro visit hvisit
  have houtlines : json.outlines = visited.map fun visit ↦ w.outline visit.1 visit.2 := h.outlines
  have hnodup : (json.outlines.map TypeOutline.name).Nodup := by
    rw [houtlines, List.map_map]
    exact h.nodup_names
  have hmem : w.outline visit.1 visit.2 ∈ json.outlines := by
    rw [houtlines]
    exact List.mem_map_of_mem hvisit
  exact fieldsOf?_of_mem hnodup hmem

/-- The visited types are those that are reached. -/
theorem Steady.mem_visited_iff (hsteady : w.Steady outside namedTypes s [t])
    (hnames : w.DistinctNames outside s [t])
    (h : w.Expands outside [t] [] s visited seen' s' found) (u : TypeId) :
    u ∈ visited.map Prod.fst ↔ u ∈ w.reachable outside s [t] := by
  have hroots : ∀ root ∈ [t], root ∈ w.reachable outside s [t] := fun root ↦ reachable_of_mem
  obtain ⟨-, hreached⟩ := hsteady.of_expands (Passes.refl _ s) hroots h
  have hfields := hsteady.visitEach_ok (Passes.refl _ s) hreached h.visitEach
  have hmet (u : TypeId) (hu : u ∈ w.reachable outside s [t])
      (hname : (w.typeAt u).name ∈ seen') : u ∈ visited.map Prod.fst := by
    rw [h.seen_eq, List.append_nil, List.mem_reverse, List.mem_map] at hname
    obtain ⟨visit, hvisit, hsame⟩ := hname
    have hvisited := List.mem_map_of_mem (f := Prod.fst) hvisit
    rwa [hnames (hreached visit.1 hvisited) hu hsame] at hvisited
  obtain ⟨hroot, hclosed⟩ := h.closed
  have hsubset : w.reachable outside s [t] ⊆ {u | u ∈ visited.map Prod.fst} := by
    refine reachable_subset (fun root h ↦ hmet root (hroots root h) (hroot root h)) ?_
    intro v hv u hu
    obtain ⟨visit, hvisit, rfl⟩ := List.mem_map.mp hv
    have hled := reachable_of_leads (hreached visit.1 hv) hu
    rw [(hfields visit hvisit).2] at hu
    exact hmet u hled (hclosed visit hvisit u hu)
  exact ⟨hreached u, fun hu ↦ hsubset hu⟩

/-- A type has a snapshot when the fields of every reached type can be evaluated. -/
theorem Steady.snapshot_ok_iff (hsteady : w.Steady outside namedTypes s [t])
    (hnames : w.DistinctNames outside s [t]) :
    (∃ json s', w.snapshot outside t s = (.ok json, s')) ↔
      ∀ u ∈ w.reachable outside s [t], w.HasFields outside s u := by
  have hroots : ∀ root ∈ [t], root ∈ w.reachable outside s [t] := fun root ↦ reachable_of_mem
  constructor
  · rintro ⟨json, s', hjson⟩ u hu
    obtain ⟨visited, seen', hexpands⟩ := snapshot_eq_ok hjson
    have hmem := hsteady.mem_visited_iff hnames hexpands
    obtain ⟨visit, hvisit, rfl⟩ := List.mem_map.mp ((hmem u).mpr hu)
    exact (hsteady.visitEach_ok (Passes.refl _ s) (fun v ↦ (hmem v).mp) hexpands.visitEach visit
      hvisit).1
  · intro hall
    rcases hjson : w.snapshot outside t s with ⟨e | json, s'⟩
    · obtain ⟨-, u, hu, herror⟩ :=
        hsteady.of_breaks (Passes.refl _ s) hroots (snapshot_eq_error hjson)
      obtain ⟨fields, hfields⟩ := hall u hu
      exact absurd (herror.symm.trans hfields) (by simp)
    · exact ⟨json, s', rfl⟩

end Visited

end World

open World

/-- The snapshot of a type, where what is reached from it is steady and has pairwise different
names. Expanding it nests at most as deep as there are reached types, whatever `expand` stands in
for the levels below these. There is a snapshot exactly when the fields of every reached type can
be evaluated. The reached types are then evaluated once each, and they are what the snapshot
expands, with all fields. A reference stands behind the place where its type begins. Each field
with a named type has one expansion or reference, and the given type has one more expansion. The
fields of each reached type can be read back by its name. -/
theorem snapshot_complete {P : Producers} {σ : Type} {w : World P} {outside : Outside P σ}
    {t : TypeId} {s : σ} (hsteady : w.Steady outside namedTypes s [t])
    (hnames : w.DistinctNames outside s [t]) :
    (∀ expand more, (w.expandStep outside)^[(w.reachable outside s [t]).ncard + more] expand t []
        List.not_mem_nil s = w.expand outside t [] List.not_mem_nil s) ∧
      ((∃ json s', w.snapshot outside t s = (.ok json, s')) ↔
        ∀ u ∈ w.reachable outside s [t], w.HasFields outside s u) ∧
      ∀ json s', w.snapshot outside t s = (.ok json, s') →
        ∃ visited : List (TypeId × FieldMap), (visited.map Prod.fst).Nodup ∧
          (∀ u, u ∈ visited.map Prod.fst ↔ u ∈ w.reachable outside s [t]) ∧
          w.visitEach outside (visited.map Prod.fst) s = (.ok visited, s') ∧
          json.outlines = visited.map (fun visit ↦ w.outline visit.1 visit.2) ∧
          (∀ before name after, json.occurrences = before ++ .reference name :: after →
            ∃ type, .expansion type ∈ before ∧ type.name = name) ∧
          json.outlines.length - 1 + json.references.length =
            (visited.flatMap fun visit ↦ visit.2.entries).countP
              (fun field ↦ field.2.type.named?.isSome) ∧
          ∀ visit ∈ visited, json.fieldsOf? (w.typeAt visit.1).name =
            some (visit.2.entries.map w.fieldOutline) := by
  refine ⟨fun expand more ↦ ?_, hsteady.snapshot_ok_iff hnames, fun json s' hjson ↦ ?_⟩
  · obtain ⟨order, horder, -⟩ := hsteady.exists_order hnames
    have hmem : ∀ u ∈ w.reachable outside s [t],
        (w.typeAt u).name ∈ order.map fun u ↦ (w.typeAt u).name :=
      fun u hu ↦ List.mem_map_of_mem ((horder.mem_iff u).mpr hu)
    refine iterate_expandStep hsteady hmem expand _ t [] List.not_mem_nil s
      (reachable_of_mem List.mem_cons_self) (Passes.refl _ s) ?_
    have hle := List.length_filter_le (fun name ↦ name ∉ [])
      (order.map fun u ↦ (w.typeAt u).name)
    rw [List.length_map, ← horder.ncard_reachable] at hle
    exact hle.trans (Nat.le_add_right _ _)
  · obtain ⟨visited, seen', hexpands⟩ := snapshot_eq_ok hjson
    have houtlines : json.outlines = visited.map fun visit ↦ w.outline visit.1 visit.2 :=
      hexpands.outlines
    refine ⟨visited, hexpands.nodup_visited, hsteady.mem_visited_iff hnames hexpands,
      hexpands.visitEach, houtlines, fun before name after hfound ↦ ?_, ?_,
      hexpands.fieldsOf?_eq⟩
    · rcases hexpands.references hfound with hmet | hbefore
      · exact absurd hmet List.not_mem_nil
      · exact hbefore
    · have hlength := hexpands.length_eq
      have hroot := (hsteady.mem_visited_iff hnames hexpands t).mpr
        (reachable_of_mem List.mem_cons_self)
      have hpos : 0 < visited.length := by
        rw [← List.length_map Prod.fst]
        exact List.length_pos_of_mem hroot
      rw [← length_outlines_add_length_references, List.length_singleton] at hlength
      have hsame : (visited.flatMap fun visit ↦ namedTypes visit.2).length =
          (visited.flatMap fun visit ↦ visit.2.entries).countP
            (fun field ↦ field.2.type.named?.isSome) := by
        rw [List.length_flatMap, List.countP_flatMap]
        simp only [length_namedTypes]
        rfl
      rw [← hsame]
      rw [houtlines, List.length_map] at hlength ⊢
      omega

/-- The snapshot of animals expands animals, places and sights, and every field of these with a
named type is an expansion or a reference. -/
theorem snapshot_complete_pasture :
    pasture.Steady Outside.none namedTypes () [0] ∧ pasture.DistinctNames Outside.none () [0] ∧
      ∃ (json : Json) (visited : List (TypeId × FieldMap)),
        pasture.snapshot Outside.none 0 () = (.ok json, ()) ∧
        (∀ u, u ∈ visited.map Prod.fst ↔ u ∈ pasture.reachable Outside.none () [0]) ∧
        json.outlines = visited.map (fun visit ↦ pasture.outline visit.1 visit.2) ∧
        json.outlines.length - 1 + json.references.length =
          (visited.flatMap fun visit ↦ visit.2.entries).countP
            (fun field ↦ field.2.type.named?.isSome) ∧
        ∀ visit ∈ visited, json.fieldsOf? (pasture.typeAt visit.1).name =
          some (visit.2.entries.map pasture.fieldOutline) := by
  have hsteady : pasture.Steady Outside.none namedTypes () [0] :=
    steady_of_subsingleton namedTypes () [0]
  have hroots : ∀ root ∈ [0], root < 3 := by decide
  have hnames := distinctNames_pasture hroots
  obtain ⟨-, hsucceeds, hsnapshot⟩ := snapshot_complete hsteady hnames
  obtain ⟨json, s', hjson⟩ :=
    hsucceeds.mpr fun u hu ↦ hasFields_pasture (lt_of_reachable_pasture hroots hu)
  obtain ⟨visited, -, hvisited, -, houtlines, -, hcount, hfields⟩ := hsnapshot json s' hjson
  exact ⟨hsteady, hnames, json, visited, hjson, hvisited, houtlines, hcount, hfields⟩

end DocumentTypes
