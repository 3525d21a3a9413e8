import DocumentTypes.Proofs.Build.Calls
import DocumentTypes.Proofs.Build.Growth

/-!
The calls of building in time. A call that is made starts in a later world than the one that makes
it and ends in an earlier one (`Call.Reaches.later_world`, `Call.Reaches.later_run`). Of two calls
below one call, either one is below the other, or one has ended before the other starts
(`Call.Reaches.comparable`). As a name that is registered stays registered, and the calls below a
call have longer names, no two calls find the same name missing (`Call.Reaches.eq_of_missing`).
-/

set_option autoImplicit false

namespace DocumentTypes

open World

variable {P : Producers} {heap : SchemaHeap} {registry : RegistryId}

/-- What a walk does after it has looked at a path. -/
theorem walk_grows_after {ancestors : Lineage} {request : BuildRequest P} {w w₁ w₂ : World P}
    {before : List (String × PathDescriptor SchemaLink)} {field : String}
    {d : PathDescriptor SchemaLink} {layers : FieldThunk (DeferredField P) (DeferredMap P)}
    {result : Except BuildError (FieldLayer (DeferredField P) (DeferredMap P))}
    (hfield : field ∉ request.exclude)
    (hbefore : walk request registry (nestedBuild heap registry ancestors request) before w =
      (.ok layers, w₁))
    (hlayer : pathLayer request registry (nestedBuild heap registry ancestors request) field d w₁ =
      (result, w₂))
    (after : List (String × PathDescriptor SchemaLink)) :
    Grows registry (IsNestedName request.name) w₂
      (walk request registry (nestedBuild heap registry ancestors request)
        (before ++ (field, d) :: after) w).2 := by
  rw [walk_append_of_ok hbefore]
  cases result with
  | error e =>
    rw [walk_cons_of_error hfield hlayer]
    exact Grows.refl _
  | ok layer =>
    rw [walk_cons_of_ok hfield hlayer]
    rcases hrest : walk request registry (nestedBuild heap registry ancestors request) after w₂ with
      ⟨e | more, w'⟩
    · exact walk_grows_nested hrest
    · exact walk_grows_nested hrest

namespace Call

variable {c c' : Call P}

theorem run_grows (c : Call P) :
    Grows registry (IsOwnName c.request) c.world (c.run heap registry).2 :=
  buildWithin_grows heap c.ancestors c.request c.world

theorem Makes.request_eq (h : Makes heap registry c c') :
    ∃ field d target, (field, d) ∈ heap.kept c.request.exclude c.request.schema ∧
      d.otherSchema? c.request.schema = some target ∧
      c'.request = c.request.nested field target := by
  obtain ⟨-, -, hkept, -, hother, -, -⟩ := h
  exact ⟨_, _, _, SchemaHeap.mem_kept.mpr (SchemaHeap.of_kept_eq_append hkept), hother, rfl⟩

/-- The world in which a call that is made ends is what its path leaves in the walk. -/
theorem pathLayer_run {field : String} {d : PathDescriptor SchemaLink} {target : SchemaId}
    {w : World P} (hother : d.otherSchema? c.request.schema = some target)
    (hcycle : target ∉ c.ancestors.schemas) (halive : heap.isAlive target = true) :
    (pathLayer c.request registry (nestedBuild heap registry c.ancestors c.request) field d w).2 =
      ((c.nested field target w).run heap registry).2 := by
  rcases hlayer : pathLayer c.request registry (nestedBuild heap registry c.ancestors c.request)
    field d w with ⟨result, w'⟩
  have hnested : ∀ hself : target ≠ c.request.schema,
      nestedBuild heap registry c.ancestors c.request field target hself w =
        (c.nested field target w).run heap registry := by
    intro hself
    rw [nestedBuild, nestedStep, if_neg hcycle, if_pos halive]
    rfl
  rcases pathLayer_cases hlayer with ⟨hnone, -, -⟩ | ⟨target', hself, hsome, hresult⟩
  · exact absurd (hother.symm.trans hnone) (by simp)
  · obtain rfl := Option.some.inj (hother.symm.trans hsome)
    rw [hnested hself] at hresult
    rcases hresult with ⟨e, hrun, -⟩ | ⟨type, hrun, -⟩
    · rw [hrun]
    · rw [hrun]

theorem Makes.grows_world (h : Makes heap registry c c') :
    Grows registry (IsNestedName c.request.name) c.world c'.world := by
  obtain ⟨-, -, -, hwalk, -, -, -⟩ := h
  exact walk_grows_nested hwalk

/-- A call goes on after each call that it makes. -/
theorem Makes.grows_run (h : Makes heap registry c c') :
    Grows registry (IsOwnName c.request) (c'.run heap registry).2 (c.run heap registry).2 := by
  obtain @⟨before, after, field, d, target, w, layers, hname, hnew, hkept, hwalk, hother, hcycle,
    halive⟩ := h
  obtain ⟨hpath, hfield⟩ := SchemaHeap.of_kept_eq_append hkept
  rcases hlayer : pathLayer c.request registry (nestedBuild heap registry c.ancestors c.request)
    field d w with ⟨layer, w₁⟩
  have hend : ((c.nested field target w).run heap registry).2 = w₁ := by
    rw [← pathLayer_run hother hcycle halive, hlayer]
  have hwalks := walk_grows_after hfield hwalk hlayer after
  rw [← hkept] at hwalks
  rw [hend]
  rcases hrun : c.run heap registry with ⟨result, w'⟩
  rcases buildWithin_cases hrun with ⟨hempty | hunnamed, -, -⟩ | ⟨t, hlookup, -⟩ |
    ⟨-, -, ⟨e, herror, -⟩ | ⟨layers', w₂, hok, hconstruct⟩⟩
  · rw [hempty] at hpath
    exact absurd hpath List.not_mem_nil
  · exact absurd hunnamed hname
  · exact absurd (hnew.symm.trans hlookup) (by simp)
  · rw [herror] at hwalks
    exact hwalks.mono fun name ↦ Or.inr
  · rw [hok] at hwalks
    exact (hwalks.mono fun name ↦ Or.inr).trans (Grows.of_construct (Or.inl rfl) hconstruct)

section Reaches

variable (halive : c.world.HasRegistry registry)

include halive

/-- The calls below a call start with its registry. -/
theorem Reaches.hasRegistry_world (h : Reaches heap registry c c') :
    c'.world.HasRegistry registry := by
  induction h with
  | refl => exact halive
  | tail _ hmakes ih => exact hmakes.grows_world.hasRegistry ih

/-- The calls below a call start later. -/
theorem Reaches.later_world (h : Reaches heap registry c c') : Later c.world c'.world := by
  induction h with
  | refl => exact Later.refl _
  | tail hreaches hmakes ih =>
    exact ih.trans (hmakes.grows_world.later (Reaches.hasRegistry_world halive hreaches))

/-- The calls below a call end earlier. -/
theorem Reaches.later_run (h : Reaches heap registry c c') :
    Later (c'.run heap registry).2 (c.run heap registry).2 := by
  induction h with
  | refl => exact Later.refl _
  | @tail b c' hreaches hmakes ih =>
    have hworld := hmakes.grows_world.hasRegistry (Reaches.hasRegistry_world halive hreaches)
    exact (hmakes.grows_run.later (c'.run_grows.hasRegistry hworld)).trans ih

end Reaches

/-- The calls below a call have longer names. -/
theorem Reaches.eq_or_isNestedName (h : Reaches heap registry c c') :
    c' = c ∨ IsNestedName c.request.name c'.request.name := by
  induction h with
  | refl => exact Or.inl rfl
  | tail _ hmakes ih =>
    obtain ⟨field, d, target, -, -, hrequest⟩ := hmakes.request_eq
    rw [hrequest]
    rcases ih with rfl | hnested
    · exact Or.inr (isNestedName_subFieldName _ field)
    · exact Or.inr (hnested.trans (isNestedName_subFieldName _ field))

/-- A walk that goes on after a path starts where the call for that path ends. -/
theorem later_of_walk {before middle : List (String × PathDescriptor SchemaLink)} {field : String}
    {d : PathDescriptor SchemaLink} {target : SchemaId} {w₁ w₂ : World P}
    {layers layers' : FieldThunk (DeferredField P) (DeferredMap P)}
    (hheld : c.world.HasRegistry registry) (hfield : field ∉ c.request.exclude)
    (hwalk : walk c.request registry (nestedBuild heap registry c.ancestors c.request) before
      c.world = (.ok layers, w₁))
    (hother : d.otherSchema? c.request.schema = some target)
    (hcycle : target ∉ c.ancestors.schemas) (halive : heap.isAlive target = true)
    (hnext : walk c.request registry (nestedBuild heap registry c.ancestors c.request)
      (before ++ (field, d) :: middle) c.world = (.ok layers', w₂)) :
    Later ((c.nested field target w₁).run heap registry).2 w₂ := by
  rcases hlayer : pathLayer c.request registry (nestedBuild heap registry c.ancestors c.request)
    field d w₁ with ⟨layer, w₃⟩
  have hend : ((c.nested field target w₁).run heap registry).2 = w₃ := by
    rw [← pathLayer_run hother hcycle halive, hlayer]
  have hgrows := walk_grows_after hfield hwalk hlayer middle
  rw [hnext] at hgrows
  rw [hend]
  have hthere := (walk_grows_nested hwalk).hasRegistry hheld
  exact hgrows.later ((pathLayer_grows_nested hlayer).hasRegistry hthere)

/-- Of two calls that one call makes, one has ended before the other starts, or they are the
same. -/
theorem Makes.comparable {first second : Call P} (hheld : c.world.HasRegistry registry)
    (hfirst : Makes heap registry c first) (hsecond : Makes heap registry c second) :
    first = second ∨ Later (first.run heap registry).2 second.world ∨
      Later (second.run heap registry).2 first.world := by
  obtain @⟨before₁, after₁, field₁, d₁, target₁, w₁, layers₁, -, -, hkept₁, hwalk₁, hother₁,
    hcycle₁, halive₁⟩ := hfirst
  obtain @⟨before₂, after₂, field₂, d₂, target₂, w₂, layers₂, -, -, hkept₂, hwalk₂, hother₂,
    hcycle₂, halive₂⟩ := hsecond
  have hfield₁ := (SchemaHeap.of_kept_eq_append hkept₁).2
  have hfield₂ := (SchemaHeap.of_kept_eq_append hkept₂).2
  by_cases hsame : before₁ = before₂
  · left
    subst hsame
    obtain ⟨hpath, -⟩ := List.cons.inj (List.append_cancel_left (hkept₁.symm.trans hkept₂))
    obtain ⟨rfl, rfl⟩ := Prod.mk.inj hpath
    obtain ⟨-, rfl⟩ := Prod.mk.inj (hwalk₁.symm.trans hwalk₂)
    obtain rfl := Option.some.inj (hother₁.symm.trans hother₂)
    rfl
  · right
    rcases List.append_eq_append_iff.mp (hkept₁.symm.trans hkept₂) with
      ⟨middle, hbefore, hrest⟩ | ⟨middle, hbefore, hrest⟩
    · cases middle with
      | nil => exact absurd (by rw [hbefore, List.append_nil]) hsame
      | cons path middle =>
        obtain ⟨rfl, -⟩ := List.cons.inj hrest
        subst hbefore
        exact Or.inl (later_of_walk hheld hfield₁ hwalk₁ hother₁ hcycle₁ halive₁ hwalk₂)
    · cases middle with
      | nil => exact absurd (by rw [hbefore, List.append_nil]) hsame
      | cons path middle =>
        obtain ⟨rfl, -⟩ := List.cons.inj hrest
        subst hbefore
        exact Or.inr (later_of_walk hheld hfield₂ hwalk₂ hother₂ hcycle₂ halive₂ hwalk₁)

/-- Of two calls below one call, one is below the other, or one has ended before the other starts.
The induction is on the way down to the first: where the ways part, two calls are made by one. -/
theorem Reaches.comparable {first second : Call P} (hheld : c.world.HasRegistry registry)
    (hfirst : Reaches heap registry c first) (hsecond : Reaches heap registry c second) :
    Reaches heap registry first second ∨ Reaches heap registry second first ∨
      Later (first.run heap registry).2 second.world ∨
      Later (second.run heap registry).2 first.world := by
  induction hfirst using Relation.ReflTransGen.head_induction_on with
  | refl => exact Or.inl hsecond
  | @head c next hmakes hreaches ih =>
    rcases Relation.ReflTransGen.cases_head hsecond with rfl | ⟨other, hmakes', hreaches'⟩
    · exact Or.inr (Or.inl (Relation.ReflTransGen.head hmakes hreaches))
    have hheld₁ := hmakes.grows_world.hasRegistry hheld
    have hheld₂ := hmakes'.grows_world.hasRegistry hheld
    rcases hmakes.comparable hheld hmakes' with rfl | hbefore | hafter
    · exact ih hheld₁ hreaches'
    · right; right; left
      exact ((Reaches.later_run hheld₁ hreaches).trans hbefore).trans
        (Reaches.later_world hheld₂ hreaches')
    · right; right; right
      exact ((Reaches.later_run hheld₂ hreaches').trans hafter).trans
        (Reaches.later_world hheld₁ hreaches)

/-- A call that has ended with its name registered is followed by no call that misses the name. -/
theorem not_later_of_missing {first second : Call P} {t : TypeId}
    (hheld : second.world.HasRegistry registry)
    (hregistered : (first.run heap registry).2.lookup registry first.request.name = some t)
    (hmissing : second.world.lookup registry second.request.name = none)
    (hname : first.request.name = second.request.name) :
    ¬ Later (first.run heap registry).2 second.world := by
  intro hlater
  have hfound := hlater.lookup hheld hregistered
  rw [hname, hmissing] at hfound
  exact absurd hfound (by simp)

end Call

end DocumentTypes
