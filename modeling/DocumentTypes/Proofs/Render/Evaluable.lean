import DocumentTypes.Render.Sdl
import DocumentTypes.Render.Snapshot
import Mathlib.Data.List.Basic

/-!
Types that can be rendered. Where the fields of some types can all be evaluated and lead to types
among them only (`World.Evaluable`), walking through the fields never fails: neither breadth first
(`breadthFirst_ok`, `sdl_ok`) nor depth first (`expand_ok`, `snapshots_ok`).
-/

set_option autoImplicit false

namespace DocumentTypes.World

variable {P : Producers} {σ : Type} {w : World P} {outside : Outside P σ} {R : TypeId → Prop}

/-- The fields of the types can be evaluated, in every state, and their named types are types of
this kind again. -/
def Evaluable (w : World P) (outside : Outside P σ) (R : TypeId → Prop) : Prop :=
  ∀ t, R t → ∀ s, ∃ fields s', w.fields outside t s = (.ok fields, s') ∧
    ∀ u ∈ namedTypes fields, R u

/-- Whatever an evaluation of the fields of one of the types gives, it is fields with types of this
kind. -/
theorem Evaluable.of_fields (hR : w.Evaluable outside R) {t : TypeId} (ht : R t) {s s' : σ}
    {result : Except BuildError FieldMap} (h : w.fields outside t s = (result, s')) :
    ∃ fields, result = .ok fields ∧ ∀ u ∈ namedTypes fields, R u := by
  obtain ⟨fields, s'', hfields, hnamed⟩ := hR t ht s
  obtain ⟨rfl, -⟩ := Prod.mk.inj (h.symm.trans hfields)
  exact ⟨fields, rfl, hnamed⟩

/-! ### Breadth first -/

theorem breadthFirst_ok (hR : w.Evaluable outside R) (queue : List TypeId) (seen : List String)
    (s : σ) (hqueue : ∀ t ∈ queue, R t) :
    ∃ visited s', w.breadthFirst outside queue seen s = (.ok visited, s') := by
  induction queue, seen, s using breadthFirst.induct w outside with
  | case1 seen s => exact ⟨[], s, by rw [breadthFirst]⟩
  | case2 seen s type rest hseen ih =>
    obtain ⟨visited, s', hrest⟩ := ih (List.forall_mem_cons.mp hqueue).2
    exact ⟨visited, s', by rw [breadthFirst, dif_pos hseen, hrest]⟩
  | case3 seen s type rest hseen e s₁ hfailed =>
    obtain ⟨fields, hfields, -⟩ := hR.of_fields (List.forall_mem_cons.mp hqueue).1 hfailed
    exact absurd hfields (by simp)
  | case4 seen s type rest hseen fields s₁ hfields e s₂ hfailed ih =>
    obtain ⟨htype, hrest⟩ := List.forall_mem_cons.mp hqueue
    obtain ⟨_, hok, hnamed⟩ := hR.of_fields htype hfields
    obtain rfl := Except.ok.inj hok
    obtain ⟨visited, s'', hok⟩ := ih (List.forall_mem_append.mpr ⟨hrest, hnamed⟩)
    exact absurd (hfailed.symm.trans hok) (by simp)
  | case5 seen s type rest hseen fields s₁ hfields visited s₂ hrest ih =>
    refine ⟨(type, fields) :: visited, s₂, ?_⟩
    rw [breadthFirst, dif_neg hseen]
    simp only [hfields, hrest]

/-- The definitions of types that can be evaluated can be written. -/
theorem sdl_ok (hR : w.Evaluable outside R) {roots : List TypeId} (hroots : ∀ t ∈ roots, R t)
    (s : σ) : ∃ text s', w.sdl outside roots s = (.ok text, s') := by
  obtain ⟨visited, s', hvisited⟩ := breadthFirst_ok hR roots [] s hroots
  simp only [sdl, hvisited]
  exact ⟨_, _, rfl⟩

/-! ### Depth first -/

section Fields

variable {base : List String}
  {expand : (type : TypeId) → (seen : List String) → base ⊆ seen →
    (w.typeAt type).name ∉ seen → σ → Rendering seen σ Json}
  (hexpand : ∀ type seen h hnew s, R type →
    ∃ rendered s', expand type seen h hnew s = (.ok rendered, s'))

include hexpand

theorem typeJson_ok (type : TypeRef) (htype : ∀ u, type.named? = some u → R u)
    (seen : List String) (h : base ⊆ seen) (s : σ) :
    ∃ rendered s', w.typeJson expand type seen h s = (.ok rendered, s') := by
  induction type with
  | scalar scalar => exact ⟨_, s, rfl⟩
  | list element ih =>
    obtain ⟨⟨json, grown⟩, s', helement⟩ := ih htype
    simp only [typeJson, helement]
    exact ⟨_, _, rfl⟩
  | named type =>
    by_cases hseen : (w.typeAt type).name ∈ seen
    · exact ⟨_, s, by rw [typeJson, dif_pos hseen]⟩
    · obtain ⟨rendered, s', hok⟩ := hexpand type seen h hseen s (htype type rfl)
      exact ⟨rendered, s', by rw [typeJson, dif_neg hseen, hok]⟩

theorem fieldsJson_ok (fields : List (String × FieldSpec))
    (hfields : ∀ field ∈ fields, ∀ u, field.2.type.named? = some u → R u)
    (seen : List String) (h : base ⊆ seen) (s : σ) :
    ∃ rendered s', w.fieldsJson expand fields seen h s = (.ok rendered, s') := by
  induction fields generalizing seen s with
  | nil => exact ⟨_, s, rfl⟩
  | cons field rest ih =>
    obtain ⟨name, spec⟩ := field
    obtain ⟨hfield, hrest⟩ := List.forall_mem_cons.mp hfields
    obtain ⟨⟨json, grown⟩, s₁, htype⟩ := typeJson_ok hexpand spec.type hfield seen h s
    obtain ⟨⟨entries, grown'⟩, s₂, hentries⟩ :=
      ih hrest grown.1 (List.Subset.trans h grown.2) s₁
    simp only [fieldsJson, htype, hentries]
    exact ⟨_, _, rfl⟩

end Fields

/-- The fields of one of the types have types of this kind. -/
theorem Evaluable.entries (hR : w.Evaluable outside R) {t : TypeId} (ht : R t) {s s' : σ}
    {fields : FieldMap} (hfields : w.fields outside t s = (.ok fields, s')) :
    ∀ field ∈ fields.entries, ∀ u, field.2.type.named? = some u → R u := by
  intro field hfield u hu
  obtain ⟨_, hok, hnamed⟩ := hR.of_fields ht hfields
  obtain rfl := Except.ok.inj hok
  exact hnamed u (List.mem_filterMap.mpr ⟨field.2, List.mem_map_of_mem hfield, hu⟩)

theorem expand_ok (hR : w.Evaluable outside R) (type : TypeId) (seen : List String)
    (hnew : (w.typeAt type).name ∉ seen) (s : σ) (htype : R type) :
    ∃ rendered s', w.expand outside type seen hnew s = (.ok rendered, s') := by
  induction type, seen, hnew, s using expand.induct w outside with
  | case1 type seen hnew s e s₁ hfailed =>
    obtain ⟨fields, hfields, -⟩ := hR.of_fields htype hfailed
    exact absurd hfields (by simp)
  | case2 type seen hnew s fields s₁ hfields met inner e s₂ hfailed ih =>
    obtain ⟨rendered, s', hok⟩ := fieldsJson_ok (fun type seen h hnew s htype ↦
      ih type seen h hnew s htype) fields.entries (hR.entries htype hfields) met
      (List.Subset.refl met) s₁
    exact absurd (hfailed.symm.trans hok) (by simp)
  | case3 type seen hnew s fields s₁ hfields met inner entries grown s₂ hentries ih =>
    rw [expand]
    simp only [hfields]
    exact ⟨_, _, by rw [hentries]⟩

theorem snapshots_ok (hR : w.Evaluable outside R) (types : List TypeId)
    (htypes : ∀ t ∈ types, R t) (s : σ) :
    ∃ jsons s', w.snapshots outside types s = (.ok jsons, s') := by
  induction types generalizing s with
  | nil => exact ⟨[], s, rfl⟩
  | cons type rest ih =>
    obtain ⟨htype, hrest⟩ := List.forall_mem_cons.mp htypes
    obtain ⟨⟨json, grown⟩, s₁, hexpand⟩ := expand_ok hR type [] List.not_mem_nil s htype
    obtain ⟨jsons, s₂, hjsons⟩ := ih hrest s₁
    exact ⟨json :: jsons, s₂, by simp only [snapshots, snapshot, hexpand, hjsons]⟩

end DocumentTypes.World
