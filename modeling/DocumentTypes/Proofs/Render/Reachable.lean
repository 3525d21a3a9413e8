import DocumentTypes.Traversal
import Mathlib.Data.Set.Function
import Mathlib.Logic.Relation

/-!
The types that are reached from some types through the innermost named types of fields, as the
fields are in a state of the outside (`World.reachable`). Producers from outside may change that
state whenever they run, so evaluating one type may matter for the next. A rendering walks along one
graph when this does not touch what the graph is made of: where each reached type leads to, and
which of them fail (`World.Steady`). Then evaluating reached types one after the other, each once
(`World.visitEach`), fails at the first that fails in the given state (`Steady.visitEach_error`).
-/

set_option autoImplicit false

namespace DocumentTypes.World

variable {P : Producers} {σ α : Type}

/-! ### Reached types -/

/-- The fields of a type can be evaluated in a state. -/
def HasFields (w : World P) (outside : Outside P σ) (s : σ) (t : TypeId) : Prop :=
  ∃ fields, (w.fields outside t s).1 = .ok fields

/-- The innermost named types in the fields of a type, in order. A type whose fields cannot be
evaluated leads nowhere. -/
def leads (w : World P) (outside : Outside P σ) (s : σ) (t : TypeId) : List TypeId :=
  match (w.fields outside t s).1 with
  | .error _ => []
  | .ok fields => namedTypes fields

/-- The roots and the types that they lead to. -/
def reachable (w : World P) (outside : Outside P σ) (s : σ) (roots : List TypeId) : Set TypeId :=
  {t | ∃ root ∈ roots, Relation.ReflTransGen (fun t u ↦ u ∈ w.leads outside s t) root t}

/-- Reached types have pairwise different names. -/
def DistinctNames (w : World P) (outside : Outside P σ) (s : σ) (roots : List TypeId) : Prop :=
  Set.InjOn (fun t ↦ (w.typeAt t).name) (w.reachable outside s roots)

/-- The states that evaluations of the fields of some types lead to. -/
def Passes (w : World P) (outside : Outside P σ) (types : Set TypeId) : σ → σ → Prop :=
  Relation.ReflTransGen fun s s' ↦ ∃ t ∈ types, (w.fields outside t s).2 = s'

/-- Evaluating the fields of reached types changes nothing about how the fields of reached types
fail, and nothing that `view` shows of them. -/
def Steady (w : World P) (outside : Outside P σ) (view : FieldMap → α) (s : σ)
    (roots : List TypeId) : Prop :=
  ∀ s', w.Passes outside (w.reachable outside s roots) s s' →
    ∀ t ∈ w.reachable outside s roots,
      (w.fields outside t s').1.map view = (w.fields outside t s).1.map view

/-- Evaluates the fields of types, of each once and in order. The first that fails ends it. -/
def visitEach (w : World P) (outside : Outside P σ) :
    List TypeId → σ → Except BuildError (List (TypeId × FieldMap)) × σ
  | [], s => (.ok [], s)
  | t :: rest, s =>
    match w.fields outside t s with
    | (.error e, s) => (.error e, s)
    | (.ok fields, s) =>
      match w.visitEach outside rest s with
      | (.error e, s) => (.error e, s)
      | (.ok visited, s) => (.ok ((t, fields) :: visited), s)

variable {w : World P} {outside : Outside P σ} {roots : List TypeId} {s s₁ s₂ : σ} {t u : TypeId}

theorem mem_namedTypes_of_entries {fields : FieldMap} {field : String × FieldSpec} {u : TypeId}
    (hfield : field ∈ fields.entries) (hu : field.2.type.named? = some u) :
    u ∈ namedTypes fields :=
  List.mem_filterMap.mpr ⟨field.2, List.mem_map_of_mem hfield, hu⟩

theorem leads_eq_map (w : World P) (outside : Outside P σ) (s : σ) (t : TypeId) :
    w.leads outside s t = ((w.fields outside t s).1.map namedTypes).toOption.getD [] := by
  rw [leads]
  cases (w.fields outside t s).1 <;> rfl

theorem hasFields_iff_isOk (view : FieldMap → α) :
    w.HasFields outside s t ↔ ((w.fields outside t s).1.map view).isOk = true := by
  rw [HasFields]
  cases (w.fields outside t s).1 with
  | error e => exact ⟨fun ⟨_, h⟩ ↦ absurd h (by simp), fun h ↦ absurd h Bool.false_ne_true⟩
  | ok fields => exact ⟨fun _ ↦ rfl, fun _ ↦ ⟨fields, rfl⟩⟩

theorem reachable_of_mem (h : t ∈ roots) : t ∈ w.reachable outside s roots :=
  ⟨t, h, Relation.ReflTransGen.refl⟩

theorem reachable_of_leads (ht : t ∈ w.reachable outside s roots) (h : u ∈ w.leads outside s t) :
    u ∈ w.reachable outside s roots := by
  obtain ⟨root, hroot, hpath⟩ := ht
  exact ⟨root, hroot, hpath.tail h⟩

/-- Types that contain the roots and what they lead to contain everything that is reached. -/
theorem reachable_subset {types : Set TypeId} (hroots : ∀ root ∈ roots, root ∈ types)
    (hclosed : ∀ t ∈ types, ∀ u ∈ w.leads outside s t, u ∈ types) :
    w.reachable outside s roots ⊆ types := by
  rintro t ⟨root, hroot, hpath⟩
  induction hpath with
  | refl => exact hroots root hroot
  | tail _ hleads ih => exact hclosed _ ih _ hleads

/-- In a world whose first types lead to each other, everything that is reached from them is one of
them. -/
theorem lt_of_reachable {n : Nat} (hroots : ∀ root ∈ roots, root < n)
    (hclosed : ∀ t < n, ∀ u ∈ w.leads outside s t, u < n) (ht : t ∈ w.reachable outside s roots) :
    t < n := by
  have hsubset : w.reachable outside s roots ⊆ {t | t < n} := reachable_subset hroots hclosed
  exact hsubset ht

theorem Passes.refl (types : Set TypeId) (s : σ) : w.Passes outside types s s :=
  Relation.ReflTransGen.refl

theorem Passes.step {types : Set TypeId} {result : Except BuildError FieldMap}
    (h : w.Passes outside types s s₁) (ht : t ∈ types)
    (hfields : w.fields outside t s₁ = (result, s₂)) : w.Passes outside types s s₂ :=
  Relation.ReflTransGen.tail h ⟨t, ht, congrArg Prod.snd hfields⟩

/-- Where there is one state only, everything is steady. -/
theorem steady_of_subsingleton [Subsingleton σ] (view : FieldMap → α) (s : σ)
    (roots : List TypeId) : w.Steady outside view s roots := by
  intro s' _ t _
  rw [Subsingleton.elim s' s]

/-- What is steady for a view is steady for everything that the view determines. -/
theorem Steady.comp {β : Type} {view : FieldMap → α} (h : w.Steady outside view s roots)
    (coarser : α → β) : w.Steady outside (coarser ∘ view) s roots := by
  intro s' hpass t ht
  have hmap (result : Except BuildError FieldMap) :
      result.map (coarser ∘ view) = (result.map view).map coarser := by
    cases result <;> rfl
  rw [hmap, hmap, h s' hpass t ht]

section Steady

variable (hsteady : w.Steady outside namedTypes s roots)
  (hpass : w.Passes outside (w.reachable outside s roots) s s₁)
  (ht : t ∈ w.reachable outside s roots)

include hsteady hpass ht

theorem Steady.of_error {e : BuildError} (h : w.fields outside t s₁ = (.error e, s₂)) :
    (w.fields outside t s).1 = .error e := by
  have hview := hsteady s₁ hpass t ht
  rw [h] at hview
  cases hfields : (w.fields outside t s).1 with
  | error e' => rw [hfields] at hview; exact congrArg _ (Except.error.inj hview).symm
  | ok fields' => rw [hfields] at hview; exact absurd hview (by simp [Except.map])

theorem Steady.leads_eq {fields : FieldMap} (h : w.fields outside t s₁ = (.ok fields, s₂)) :
    w.leads outside s t = namedTypes fields := by
  rw [leads_eq_map, ← hsteady s₁ hpass t ht, h]
  rfl

theorem Steady.reachable_of_named {fields : FieldMap}
    (h : w.fields outside t s₁ = (.ok fields, s₂)) :
    ∀ u ∈ namedTypes fields, u ∈ w.reachable outside s roots := by
  intro u hu
  rw [← hsteady.leads_eq hpass ht h] at hu
  exact reachable_of_leads ht hu

end Steady

/-! ### Evaluating types one after the other -/

theorem visitEach_cons_of_error {rest : List TypeId} {e : BuildError}
    (h : w.fields outside t s = (.error e, s₁)) :
    w.visitEach outside (t :: rest) s = (.error e, s₁) := by
  rw [visitEach, h]

theorem visitEach_cons_of_ok {rest : List TypeId} {fields : FieldMap}
    (h : w.fields outside t s = (.ok fields, s₁)) :
    w.visitEach outside (t :: rest) s =
      let result := w.visitEach outside rest s₁
      (result.1.map ((t, fields) :: ·), result.2) := by
  rw [visitEach, h]
  dsimp only
  rcases w.visitEach outside rest s₁ with ⟨e | visited, s₂⟩
  · rfl
  · rfl

/-- What types give when their evaluation one after the other does not fail. -/
theorem visitEach_cons_eq_ok {rest : List TypeId} {visited : List (TypeId × FieldMap)}
    (h : w.visitEach outside (t :: rest) s = (.ok visited, s₂)) :
    ∃ fields s₁ more, w.fields outside t s = (.ok fields, s₁) ∧
      w.visitEach outside rest s₁ = (.ok more, s₂) ∧ visited = (t, fields) :: more := by
  rcases hfields : w.fields outside t s with ⟨e | fields, s₁⟩
  · rw [visitEach_cons_of_error hfields] at h
    exact absurd (Prod.mk.inj h).1 (by simp)
  · rw [visitEach_cons_of_ok hfields] at h
    rcases hrest : w.visitEach outside rest s₁ with ⟨e | more, s'⟩
    · rw [hrest] at h
      exact absurd (Prod.mk.inj h).1 (by simp [Except.map])
    · rw [hrest] at h
      obtain ⟨hvisited, rfl⟩ := Prod.mk.inj h
      exact ⟨fields, s₁, more, rfl, hrest, (Except.ok.inj hvisited).symm⟩

theorem visitEach_append_of_ok {first : List TypeId} {visited : List (TypeId × FieldMap)}
    (h : w.visitEach outside first s = (.ok visited, s₁)) (second : List TypeId) :
    w.visitEach outside (first ++ second) s =
      let result := w.visitEach outside second s₁
      (result.1.map (visited ++ ·), result.2) := by
  induction first generalizing s visited with
  | nil =>
    obtain ⟨hvisited, rfl⟩ := Prod.mk.inj h
    obtain rfl := Except.ok.inj hvisited
    rw [List.nil_append]
    rcases w.visitEach outside second s with ⟨e | more, s₂⟩ <;> rfl
  | cons t rest ih =>
    obtain ⟨fields, s', more, hfields, hrest, rfl⟩ := visitEach_cons_eq_ok h
    rw [List.cons_append, visitEach_cons_of_ok hfields, ih hrest]
    rcases w.visitEach outside second s₁ with ⟨e | last, s₂⟩ <;> rfl

theorem Passes.visitEach {types : Set TypeId} {order : List TypeId}
    (h : w.Passes outside types s s₁) (horder : ∀ t ∈ order, t ∈ types) :
    w.Passes outside types s (w.visitEach outside order s₁).2 := by
  induction order generalizing s₁ with
  | nil => exact h
  | cons t rest ih =>
    obtain ⟨ht, hrest⟩ := List.forall_mem_cons.mp horder
    rcases hfields : w.fields outside t s₁ with ⟨e | fields, s₂⟩
    · rw [visitEach_cons_of_error hfields]
      exact h.step ht hfields
    · rw [visitEach_cons_of_ok hfields]
      exact ih (h.step ht hfields) hrest

/-- What is shown of the fields of steady types is the same in all states that evaluations lead
to. -/
theorem Steady.visitEach_view {view : FieldMap → α} (hsteady : w.Steady outside view s roots)
    (hpass : w.Passes outside (w.reachable outside s roots) s s₁) {order : List TypeId}
    (horder : ∀ t ∈ order, t ∈ w.reachable outside s roots)
    {visited : List (TypeId × FieldMap)} (h : w.visitEach outside order s₁ = (.ok visited, s₂)) :
    ∀ visit ∈ visited, (w.fields outside visit.1 s).1.map view = .ok (view visit.2) := by
  induction order generalizing s₁ visited with
  | nil =>
    obtain rfl := Except.ok.inj (Prod.mk.inj h).1
    exact fun visit hvisit ↦ absurd hvisit List.not_mem_nil
  | cons t rest ih =>
    obtain ⟨ht, hrest⟩ := List.forall_mem_cons.mp horder
    obtain ⟨fields, s', more, hfields, hmore, rfl⟩ := visitEach_cons_eq_ok h
    refine List.forall_mem_cons.mpr ⟨?_, ih (hpass.step ht hfields) hrest hmore⟩
    rw [← hsteady s₁ hpass t ht, hfields]
    rfl

section VisitEach

variable (hsteady : w.Steady outside namedTypes s roots)
  (hpass : w.Passes outside (w.reachable outside s roots) s s₁) {order : List TypeId}
  (horder : ∀ t ∈ order, t ∈ w.reachable outside s roots)

include hsteady hpass horder

/-- Steady types that are evaluated one after the other have fields that lead where they lead in the
given state. -/
theorem Steady.visitEach_ok {visited : List (TypeId × FieldMap)}
    (h : w.visitEach outside order s₁ = (.ok visited, s₂)) :
    ∀ visit ∈ visited, w.HasFields outside s visit.1 ∧
      w.leads outside s visit.1 = namedTypes visit.2 := by
  intro visit hvisit
  have hview := hsteady.visitEach_view hpass horder h visit hvisit
  rw [hasFields_iff_isOk namedTypes, leads_eq_map, hview]
  exact ⟨rfl, rfl⟩

end VisitEach

section Passed

variable (hsteady : w.Steady outside namedTypes s roots)
  (hpass : w.Passes outside (w.reachable outside s roots) s s₁)

include hsteady hpass

end Passed

/-! ### A pasture -/

/-- Animals with their young and a home, places with what is seen there, and what that may be. -/
def pasture : World .none where
  types := #[
    ⟨"Animal", some "Any animal", .object,
      [.field "young" (.ofType (.list (.named 0))),
        .field "home" ⟨.named 1, some "Where it lives"⟩]⟩,
    ⟨"Place", none, .interface,
      [.field "seen" (.ofType (.list (.named 2))), .field "area" (.ofType (.scalar .int))]⟩,
    ⟨"Sight", none, .union,
      [.field "first" (.ofType (.named 0)), .field "herd" (.ofType (.list (.named 0))),
        .field "place" (.ofType (.named 1))]⟩]
  registries := #[]

theorem hasFields_pasture {t : TypeId} (ht : t < 3) : pasture.HasFields Outside.none () t := by
  have hall : ∀ t < 3, ((pasture.fields Outside.none t ()).1.map namedTypes).isOk = true := by
    decide
  exact (hasFields_iff_isOk namedTypes).mpr (hall t ht)

theorem lt_of_reachable_pasture {roots : List TypeId} (hroots : ∀ root ∈ roots, root < 3)
    {t : TypeId} (ht : t ∈ pasture.reachable Outside.none () roots) : t < 3 :=
  lt_of_reachable hroots (by decide) ht

theorem distinctNames_pasture {roots : List TypeId} (hroots : ∀ root ∈ roots, root < 3) :
    pasture.DistinctNames Outside.none () roots := by
  have hnames : ∀ t < 3, ∀ u < 3, (pasture.typeAt t).name = (pasture.typeAt u).name → t = u := by
    decide
  intro t ht u hu h
  exact hnames t (lt_of_reachable_pasture hroots ht) u (lt_of_reachable_pasture hroots hu) h

end DocumentTypes.World
