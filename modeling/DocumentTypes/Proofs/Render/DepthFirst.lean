import DocumentTypes.Proofs.Render.Outline
import DocumentTypes.Proofs.Render.Reachable
import Mathlib.Data.List.Nodup
import Mathlib.Logic.Function.Iterate

/-!
Expanding types depth first. Where types stand in the fields of others, a name that was met before
is referred to, and another type is expanded with everything that stands in its own fields
(`World.Expands`), unless the fields of one of them cannot be evaluated (`World.Breaks`). Rendering
does one or the other (`renders_expand`). Every expansion meets one more name, so expansions nest at
most as deep as there are types to meet (`iterate_expandStep`).
-/

set_option autoImplicit false

namespace DocumentTypes

theorem Grown.subset_of_subset {seen met : List String} (h : seen ⊆ met) (grown : Grown met) :
    seen ⊆ grown.1 :=
  List.Subset.trans h grown.2

/-- Names that are met when more were met before, as names that are met when fewer were. -/
def Grown.ofSubset {seen met : List String} (h : seen ⊆ met) (grown : Grown met) : Grown seen :=
  ⟨grown.1, grown.subset_of_subset h⟩

namespace World

open Json

variable {P : Producers} {σ : Type}

/-- Writing types that stand one after the other, when the names in `seen` were met before: which
types are visited with which fields, the names that are met then, and what is found in the text. -/
inductive Expands (w : World P) (outside : Outside P σ) :
    List TypeId → List String → σ → List (TypeId × FieldMap) → List String → σ →
      List Occurrence → Prop
  | nil (seen : List String) (s : σ) : Expands w outside [] seen s [] seen s []
  | met {t : TypeId} {seen : List String} (s : σ) (hmet : (w.typeAt t).name ∈ seen) :
      Expands w outside [t] seen s [] seen s [.reference (w.typeAt t).name]
  | new {t : TypeId} {seen seen' : List String} {s s₁ s' : σ} {fields : FieldMap}
      {visited : List (TypeId × FieldMap)} {found : List Occurrence}
      (hnew : (w.typeAt t).name ∉ seen) (hfields : w.fields outside t s = (.ok fields, s₁))
      (hinner : Expands w outside (namedTypes fields) ((w.typeAt t).name :: seen) s₁ visited seen'
        s' found) :
      Expands w outside [t] seen s ((t, fields) :: visited) seen' s'
        (.expansion (w.outline t fields) :: found)
  | append {ts us : List TypeId} {seen seen₁ seen₂ : List String} {s s₁ s₂ : σ}
      {visited later : List (TypeId × FieldMap)} {found more : List Occurrence}
      (hfirst : Expands w outside ts seen s visited seen₁ s₁ found)
      (hlater : Expands w outside us seen₁ s₁ later seen₂ s₂ more) :
      Expands w outside (ts ++ us) seen s (visited ++ later) seen₂ s₂ (found ++ more)

/-- Writing types that stand one after the other, up to one whose fields cannot be evaluated. -/
inductive Breaks (w : World P) (outside : Outside P σ) :
    List TypeId → List String → σ → BuildError → σ → Prop
  | here {t : TypeId} {seen : List String} {s s' : σ} {e : BuildError}
      (hfields : w.fields outside t s = (.error e, s')) : Breaks w outside [t] seen s e s'
  | inner {t : TypeId} {seen : List String} {s s₁ s' : σ} {fields : FieldMap} {e : BuildError}
      (hfields : w.fields outside t s = (.ok fields, s₁))
      (h : Breaks w outside (namedTypes fields) ((w.typeAt t).name :: seen) s₁ e s') :
      Breaks w outside [t] seen s e s'
  | first {ts : List TypeId} {seen : List String} {s s' : σ} {e : BuildError}
      (h : Breaks w outside ts seen s e s') (us : List TypeId) :
      Breaks w outside (ts ++ us) seen s e s'
  | later {ts us : List TypeId} {seen seen₁ : List String} {s s₁ s' : σ} {e : BuildError}
      {visited : List (TypeId × FieldMap)} {found : List Occurrence}
      (hfirst : Expands w outside ts seen s visited seen₁ s₁ found)
      (h : Breaks w outside us seen₁ s₁ e s') : Breaks w outside (ts ++ us) seen s e s'

/-- A rendering of types that stand one after the other. `Reads` relates what was rendered to what
is found in it. -/
def Renders (w : World P) (outside : Outside P σ) {α : Type} (Reads : α → List Occurrence → Prop)
    (named : List TypeId) (seen : List String) (s : σ) : Rendering seen σ α → Prop
  | (.ok (a, grown), s') =>
    ∃ visited found, w.Expands outside named seen s visited grown.1 s' found ∧ Reads a found
  | (.error e, s') => w.Breaks outside named seen s e s'

/-- A value for a type reads as that type, with what is found in it. -/
def ReadsAs (expr : TypeExpr) (json : Json) (found : List Occurrence) : Prop :=
  json.occurrences = found ∧ json.typeExpr? = some expr

variable {w : World P} {outside : Outside P σ} {s : σ}

section Fields

variable {base : List String}
  {expand : (type : TypeId) → (seen : List String) → base ⊆ seen →
    (w.typeAt type).name ∉ seen → σ → Rendering seen σ Json}
  (hexpand : ∀ type seen h hnew s, w.Renders outside (ReadsAs (.named (w.typeAt type).name)) [type]
    seen s (expand type seen h hnew s))

include hexpand

theorem renders_typeJson (type : TypeRef) (seen : List String) (h : base ⊆ seen) (s : σ) :
    w.Renders outside (ReadsAs (w.typeExpr type)) type.named?.toList seen s
      (w.typeJson expand type seen h s) := by
  induction type with
  | scalar scalar =>
    refine ⟨[], [], Expands.nil seen s, ?_, ?_⟩
    · simp [occurrences]
    · simp [typeExpr?, typeExpr, Scalar.ofName?_name]
  | list element ih =>
    rcases helement : w.typeJson expand element seen h s with ⟨e | ⟨json, grown⟩, s'⟩
    · rw [helement] at ih
      simp only [typeJson, helement]
      exact ih
    · rw [helement] at ih
      obtain ⟨visited, found, hexpands, hfound, hexpr⟩ := ih
      simp only [typeJson, helement]
      refine ⟨visited, found, hexpands, ?_, ?_⟩
      · rw [occurrences_list, hfound]
      · rw [typeExpr?, hexpr]
        rfl
  | named type =>
    by_cases hmet : (w.typeAt type).name ∈ seen
    · rw [typeJson, dif_pos hmet]
      exact ⟨[], _, Expands.met s hmet, occurrences_reference _, by simp [typeExpr?, typeExpr]⟩
    · rw [typeJson, dif_neg hmet]
      exact hexpand type seen h hmet s

theorem renders_fieldsJson (fields : List (String × FieldSpec)) (seen : List String)
    (h : base ⊆ seen) (s : σ) :
    w.Renders outside
      (fun entries found ↦ memberOccurrences entries = found ∧
        entries.mapM fieldOutline? = some (fields.map w.fieldOutline))
      (fields.flatMap fun field ↦ field.2.type.named?.toList) seen s
      (w.fieldsJson expand fields seen h s) := by
  induction fields generalizing seen s with
  | nil => exact ⟨[], [], Expands.nil seen s, by simp [memberOccurrences], rfl⟩
  | cons field rest ih =>
    obtain ⟨name, spec⟩ := field
    have htype := renders_typeJson hexpand spec.type seen h s
    rw [List.flatMap_cons]
    rcases hjson : w.typeJson expand spec.type seen h s with ⟨e | ⟨json, grown⟩, s₁⟩
    · rw [hjson] at htype
      simp only [fieldsJson, hjson]
      exact Breaks.first htype _
    · rw [hjson] at htype
      obtain ⟨visited, found, hexpands, hfound, hexpr⟩ := htype
      have hrest := ih grown.1 (List.Subset.trans h grown.2) s₁
      rcases hentries : w.fieldsJson expand rest grown.1 (List.Subset.trans h grown.2) s₁ with
        ⟨e | ⟨entries, grown'⟩, s₂⟩
      · rw [hentries] at hrest
        simp only [fieldsJson, hjson, hentries]
        exact Breaks.later hexpands hrest
      · rw [hentries] at hrest
        obtain ⟨later, more, hlater, hmore, houtlines⟩ := hrest
        simp only [fieldsJson, hjson, hentries]
        refine ⟨_, _, Expands.append hexpands hlater, ?_, ?_⟩
        · rw [memberOccurrences, occurrences_fieldEntry, hfound, hmore]
        · rw [List.mapM_cons, fieldOutline?_fieldEntry hexpr, houtlines]
          rfl

end Fields

theorem namedTypes_eq_flatMap (fields : FieldMap) :
    namedTypes fields = fields.entries.flatMap fun field ↦ field.2.type.named?.toList := by
  rw [namedTypes, OrderedMap.values, List.filterMap_map, List.filterMap_eq_flatMap_toList]
  rfl

/-- A type that was not met before is expanded, or fails to be. -/
theorem renders_expand (type : TypeId) (seen : List String) (hnew : (w.typeAt type).name ∉ seen)
    (s : σ) :
    w.Renders outside (ReadsAs (.named (w.typeAt type).name)) [type] seen s
      (w.expand outside type seen hnew s) := by
  induction type, seen, hnew, s using expand.induct w outside with
  | case1 type seen hnew s e s₁ hfields =>
    rw [expand]
    simp only [hfields]
    exact Breaks.here hfields
  | case2 type seen hnew s fields s₁ hfields met inner e s₂ hfailed ih =>
    have hbreaks := renders_fieldsJson (fun type seen h hnew s ↦ ih type seen h hnew s)
      fields.entries met (List.Subset.refl met) s₁
    rw [← namedTypes_eq_flatMap] at hbreaks
    rw [hfailed] at hbreaks
    rw [expand]
    simp only [hfields]
    rw [hfailed]
    exact Breaks.inner hfields hbreaks
  | case3 type seen hnew s fields s₁ hfields met inner entries grown s₂ hentries ih =>
    have hexpands := renders_fieldsJson (fun type seen h hnew s ↦ ih type seen h hnew s)
      fields.entries met (List.Subset.refl met) s₁
    rw [← namedTypes_eq_flatMap] at hexpands
    rw [hentries] at hexpands
    obtain ⟨visited, found, hexpands, hfound, houtlines⟩ := hexpands
    rw [expand]
    simp only [hfields]
    rw [hentries]
    refine ⟨_, _, Expands.new hnew hfields hexpands, ?_, typeExpr?_expansion w type entries⟩
    rw [occurrences_expansion w type houtlines, hfound]

/-! ### What is expanded -/

section Expands

variable {ts : List TypeId} {seen seen' : List String} {s' : σ}
  {visited : List (TypeId × FieldMap)} {found : List Occurrence}

/-- The visited types are evaluated once each, in order. -/
theorem Expands.visitEach (h : w.Expands outside ts seen s visited seen' s' found) :
    w.visitEach outside (visited.map Prod.fst) s = (.ok visited, s') := by
  induction h with
  | nil => rfl
  | met => rfl
  | new hnew hfields _ ih =>
    rw [List.map_cons, visitEach_cons_of_ok hfields, ih]
    rfl
  | append _ _ hfirst hlater =>
    rw [List.map_append, visitEach_append_of_ok hfirst, hlater]
    rfl

/-- The names that are met are those of the visited types. -/
theorem Expands.seen_eq (h : w.Expands outside ts seen s visited seen' s' found) :
    seen' = (visited.map fun visit ↦ (w.typeAt visit.1).name).reverse ++ seen := by
  induction h with
  | nil => rfl
  | met => rfl
  | new _ _ _ ih =>
    rw [ih, List.map_cons, List.reverse_cons, List.append_assoc, List.singleton_append]
  | append _ _ hfirst hlater =>
    rw [hlater, hfirst, List.map_append, List.reverse_append, List.append_assoc]

theorem Expands.subset (h : w.Expands outside ts seen s visited seen' s' found) : seen ⊆ seen' := by
  rw [h.seen_eq]
  exact List.subset_append_right _ _

theorem Expands.nodup (h : w.Expands outside ts seen s visited seen' s' found)
    (hseen : seen.Nodup) : seen'.Nodup := by
  induction h with
  | nil => exact hseen
  | met => exact hseen
  | new hnew _ _ ih => exact ih (List.nodup_cons.mpr ⟨hnew, hseen⟩)
  | append _ _ hfirst hlater => exact hlater (hfirst hseen)

/-- What is written, and what stands in the visited types, was met before or is visited. -/
theorem Expands.closed (h : w.Expands outside ts seen s visited seen' s' found) :
    (∀ t ∈ ts, (w.typeAt t).name ∈ seen') ∧
      ∀ visit ∈ visited, ∀ u ∈ namedTypes visit.2, (w.typeAt u).name ∈ seen' := by
  induction h with
  | nil => simp
  | met s hmet => simpa using hmet
  | new _ _ hinner ih =>
    refine ⟨List.forall_mem_singleton.mpr ?_, List.forall_mem_cons.mpr ih⟩
    rw [hinner.seen_eq]
    exact List.mem_append_right _ List.mem_cons_self
  | append _ hlater ihfirst ihlater =>
    refine ⟨List.forall_mem_append.mpr ⟨fun t ht ↦ hlater.subset (ihfirst.1 t ht), ihlater.1⟩, ?_⟩
    exact List.forall_mem_append.mpr
      ⟨fun visit hvisit u hu ↦ hlater.subset (ihfirst.2 visit hvisit u hu), ihlater.2⟩

/-- The expansions are those of the visited types. -/
theorem Expands.outlines (h : w.Expands outside ts seen s visited seen' s' found) :
    found.filterMap Occurrence.outline? = visited.map fun visit ↦ w.outline visit.1 visit.2 := by
  induction h with
  | nil => rfl
  | met => rfl
  | new _ _ _ ih =>
    rw [List.map_cons, ← ih]
    rfl
  | append _ _ hfirst hlater => rw [List.filterMap_append, hfirst, hlater, List.map_append]

/-- Every type that is written, or stands in a visited type, is expanded or referred to. -/
theorem Expands.length_eq (h : w.Expands outside ts seen s visited seen' s' found) :
    found.length = ts.length + (visited.flatMap fun visit ↦ namedTypes visit.2).length := by
  induction h with
  | nil => rfl
  | met => rfl
  | new _ _ _ ih =>
    rw [List.length_cons, ih, List.flatMap_cons, List.length_append, List.length_singleton,
      Nat.add_comm]
  | append _ _ hfirst hlater =>
    rw [List.length_append, hfirst, hlater, List.flatMap_append, List.length_append,
      List.length_append]
    omega

/-- A name that is met then is a name that was met before, or its type is expanded. -/
theorem Expands.met_cases (h : w.Expands outside ts seen s visited seen' s' found) {name : String}
    (hname : name ∈ seen') : name ∈ seen ∨ ∃ type, .expansion type ∈ found ∧ type.name = name := by
  rw [h.seen_eq, List.mem_append, List.mem_reverse, List.mem_map] at hname
  rcases hname with ⟨visit, hvisit, rfl⟩ | hmet
  · have houtline : w.outline visit.1 visit.2 ∈ found.filterMap Occurrence.outline? := by
      rw [h.outlines]
      exact List.mem_map_of_mem hvisit
    obtain ⟨occurrence, hoccurrence, hexpansion⟩ := List.mem_filterMap.mp houtline
    rw [Occurrence.outline?_eq_some hexpansion] at hoccurrence
    exact Or.inr ⟨_, hoccurrence, rfl⟩
  · exact Or.inl hmet

/-- A name that is referred to was met before, or its type begins before the reference. -/
theorem Expands.references (h : w.Expands outside ts seen s visited seen' s' found)
    {before after : List Occurrence} {name : String}
    (hfound : found = before ++ .reference name :: after) :
    name ∈ seen ∨ ∃ type, .expansion type ∈ before ∧ type.name = name := by
  induction h generalizing before after with
  | nil => exact absurd hfound (by simp)
  | met s hmet =>
    cases before with
    | nil =>
      obtain rfl := Occurrence.reference.inj (List.cons.inj hfound).1
      exact Or.inl hmet
    | cons first rest => exact absurd (List.cons.inj hfound).2 (by simp)
  | @new t _ _ _ _ _ fields _ _ _ _ _ ih =>
    cases before with
    | nil => exact absurd (List.cons.inj hfound).1 (by simp)
    | cons first rest =>
      obtain ⟨rfl, hrest⟩ := List.cons.inj hfound
      rcases ih hrest with hmet | ⟨type, htype, hname⟩
      · rcases List.mem_cons.mp hmet with rfl | hmet
        · exact Or.inr ⟨w.outline t fields, List.mem_cons_self, rfl⟩
        · exact Or.inl hmet
      · exact Or.inr ⟨type, List.mem_cons_of_mem _ htype, hname⟩
  | append hfirst _ ihfirst ihlater =>
    rcases List.append_eq_append_iff.mp hfound with ⟨middle, rfl, hmore⟩ | ⟨middle, hwritten, hmore⟩
    · rcases ihlater hmore with hmet | ⟨type, htype, hname⟩
      · rcases hfirst.met_cases hmet with hmet | ⟨type, htype, hname⟩
        · exact Or.inl hmet
        · exact Or.inr ⟨type, List.mem_append_left _ htype, hname⟩
      · exact Or.inr ⟨type, List.mem_append_right _ htype, hname⟩
    · cases middle with
      | nil =>
        rw [List.append_nil] at hwritten
        have hlast : _ = [] ++ Occurrence.reference name :: after := hmore.symm
        rcases ihlater hlast with hmet | ⟨type, htype, -⟩
        · exact hwritten ▸ hfirst.met_cases hmet
        · exact absurd htype List.not_mem_nil
      | cons first rest =>
        obtain ⟨rfl, -⟩ := List.cons.inj hmore
        exact ihfirst hwritten

end Expands

/-! ### Steady types -/

section Steady

variable {roots ts : List TypeId} {seen : List String} {s₁ s₂ : σ}
  (hsteady : w.Steady outside namedTypes s roots)
  (hpass : w.Passes outside (w.reachable outside s roots) s s₁)
  (hts : ∀ t ∈ ts, t ∈ w.reachable outside s roots)

include hsteady hpass hts

/-- Types that are reached from the roots are expanded with types that are reached from them. -/
theorem Steady.of_expands {seen' : List String} {visited : List (TypeId × FieldMap)}
    {found : List Occurrence} (h : w.Expands outside ts seen s₁ visited seen' s₂ found) :
    w.Passes outside (w.reachable outside s roots) s s₂ ∧
      ∀ t ∈ visited.map Prod.fst, t ∈ w.reachable outside s roots := by
  induction h with
  | nil => exact ⟨hpass, fun visit hvisit ↦ absurd hvisit List.not_mem_nil⟩
  | met => exact ⟨hpass, fun visit hvisit ↦ absurd hvisit List.not_mem_nil⟩
  | new _ hfields _ ih =>
    have ht := hts _ List.mem_cons_self
    obtain ⟨hafter, hvisited⟩ := ih (hpass.step ht hfields)
      (hsteady.reachable_of_named hpass ht hfields)
    exact ⟨hafter, List.forall_mem_cons.mpr ⟨ht, hvisited⟩⟩
  | append _ _ ihfirst ihlater =>
    obtain ⟨hfirst, hlater⟩ := List.forall_mem_append.mp hts
    obtain ⟨hmiddle, hvisited⟩ := ihfirst hpass hfirst
    obtain ⟨hafter, hmore⟩ := ihlater hmiddle hlater
    rw [List.map_append]
    exact ⟨hafter, List.forall_mem_append.mpr ⟨hvisited, hmore⟩⟩

/-- Where the expansion of reached types breaks off, a reached type fails. -/
theorem Steady.of_breaks {e : BuildError} (h : w.Breaks outside ts seen s₁ e s₂) :
    w.Passes outside (w.reachable outside s roots) s s₂ ∧
      ∃ u ∈ w.reachable outside s roots, (w.fields outside u s).1 = .error e := by
  induction h with
  | @here t _ _ _ _ hfields =>
    have ht := hts t List.mem_cons_self
    exact ⟨hpass.step ht hfields, t, ht, hsteady.of_error hpass ht hfields⟩
  | inner hfields _ ih =>
    have ht := hts _ List.mem_cons_self
    exact ih (hpass.step ht hfields) (hsteady.reachable_of_named hpass ht hfields)
  | first _ us ih => exact ih hpass (List.forall_mem_append.mp hts).1
  | later hfirst _ ih =>
    obtain ⟨hts, hus⟩ := List.forall_mem_append.mp hts
    exact ih (hsteady.of_expands hpass hts hfirst).1 hus

end Steady

/-- Expanding a reached type passes from states to states that evaluations lead to. -/
theorem Steady.passes_expand {roots : List TypeId} (hsteady : w.Steady outside namedTypes s roots)
    {s₁ : σ} (hpass : w.Passes outside (w.reachable outside s roots) s s₁) {type : TypeId}
    (htype : type ∈ w.reachable outside s roots) {seen : List String}
    (hnew : (w.typeAt type).name ∉ seen) :
    w.Passes outside (w.reachable outside s roots) s (w.expand outside type seen hnew s₁).2 := by
  have hrenders : w.Renders outside _ [type] seen s₁ _ := renders_expand type seen hnew s₁
  have hts : ∀ t ∈ [type], t ∈ w.reachable outside s roots := List.forall_mem_singleton.mpr htype
  rcases hexpand : w.expand outside type seen hnew s₁ with ⟨e | ⟨json, grown⟩, s₂⟩
  · rw [hexpand] at hrenders
    exact (hsteady.of_breaks hpass hts hrenders).1
  · rw [hexpand] at hrenders
    obtain ⟨visited, found, hexpands, -⟩ := hrenders
    exact (hsteady.of_expands hpass hts hexpands).1

/-! ### How deep expansions nest -/

theorem subset_met (w : World P) (type : TypeId) (seen : List String) :
    seen ⊆ (w.typeAt type).name :: seen :=
  List.subset_cons_self _ _

/-- One level of expanding a type, with `expand` in the place of the levels below it. -/
def expandStep (w : World P) (outside : Outside P σ)
    (expand : (type : TypeId) → (seen : List String) → (w.typeAt type).name ∉ seen → σ →
      Rendering seen σ Json) (type : TypeId) (seen : List String)
    (_hnew : (w.typeAt type).name ∉ seen) (s : σ) : Rendering seen σ Json :=
  match w.fields outside type s with
  | (.error e, s) => (.error e, s)
  | (.ok fields, s) =>
    let met := (w.typeAt type).name :: seen
    let inner (type : TypeId) (seen : List String) (_hmet : met ⊆ seen)
        (hfresh : (w.typeAt type).name ∉ seen) (s : σ) := expand type seen hfresh s
    match w.fieldsJson inner fields.entries met (List.Subset.refl met) s with
    | (.error e, s) => (.error e, s)
    | (.ok (entries, grown), s) =>
      (.ok (w.expansion type entries, grown.ofSubset (w.subset_met type seen)), s)

theorem expand_eq_expandStep (type : TypeId) (seen : List String)
    (hnew : (w.typeAt type).name ∉ seen) (s : σ) :
    w.expand outside type seen hnew s =
      w.expandStep outside (w.expand outside) type seen hnew s := by
  rw [expand]
  rfl

section Congr

variable {base : List String} {types : Set TypeId} {I : σ → Prop}
  {expand other : (type : TypeId) → (seen : List String) → base ⊆ seen →
    (w.typeAt type).name ∉ seen → σ → Rendering seen σ Json}
  (hkeeps : ∀ type seen h hnew s, type ∈ types → I s → I (expand type seen h hnew s).2)
  (hsame : ∀ type seen h hnew s, type ∈ types → I s →
    other type seen h hnew s = expand type seen h hnew s)

include hkeeps hsame

theorem typeJson_congr (type : TypeRef) (htype : ∀ u, type.named? = some u → u ∈ types)
    (seen : List String) (h : base ⊆ seen) (s : σ) (hs : I s) :
    w.typeJson other type seen h s = w.typeJson expand type seen h s ∧
      I (w.typeJson expand type seen h s).2 := by
  induction type with
  | scalar scalar => exact ⟨rfl, hs⟩
  | list element ih =>
    obtain ⟨hsame, hafter⟩ := ih htype
    simp only [typeJson, hsame, true_and]
    rcases helement : w.typeJson expand element seen h s with ⟨e | ⟨json, grown⟩, s'⟩
    · rwa [helement] at hafter
    · rwa [helement] at hafter
  | named type =>
    by_cases hmet : (w.typeAt type).name ∈ seen
    · simp only [typeJson, dif_pos hmet, true_and]
      exact hs
    · simp only [typeJson, dif_neg hmet]
      exact ⟨hsame type seen h hmet s (htype type rfl) hs,
        hkeeps type seen h hmet s (htype type rfl) hs⟩

theorem fieldsJson_congr (fields : List (String × FieldSpec))
    (hfields : ∀ field ∈ fields, ∀ u, field.2.type.named? = some u → u ∈ types)
    (seen : List String) (h : base ⊆ seen) (s : σ) (hs : I s) :
    w.fieldsJson other fields seen h s = w.fieldsJson expand fields seen h s := by
  induction fields generalizing seen s with
  | nil => rfl
  | cons field rest ih =>
    obtain ⟨name, spec⟩ := field
    obtain ⟨hfield, hrest⟩ := List.forall_mem_cons.mp hfields
    obtain ⟨hsame, hafter⟩ := typeJson_congr hkeeps hsame spec.type hfield seen h s hs
    simp only [fieldsJson, hsame]
    rcases htype : w.typeJson expand spec.type seen h s with ⟨e | ⟨json, grown⟩, s'⟩
    · rfl
    · rw [htype] at hafter
      simp only [ih hrest grown.1 (List.Subset.trans h grown.2) s' hafter]

end Congr

/-- Expanding a reached type nests at most as deep as there are names of reached types that were not
met before. What stands in for the levels below is never asked. -/
theorem iterate_expandStep {roots : List TypeId} (hsteady : w.Steady outside namedTypes s roots)
    {names : List String} (hnames : ∀ t ∈ w.reachable outside s roots, (w.typeAt t).name ∈ names)
    (expand : (type : TypeId) → (seen : List String) → (w.typeAt type).name ∉ seen → σ →
      Rendering seen σ Json) (levels : Nat) (type : TypeId) (seen : List String)
    (hnew : (w.typeAt type).name ∉ seen) (s₁ : σ)
    (htype : type ∈ w.reachable outside s roots)
    (hpass : w.Passes outside (w.reachable outside s roots) s s₁)
    (hlevels : (unvisited names seen).length ≤ levels) :
    (w.expandStep outside)^[levels] expand type seen hnew s₁ =
      w.expand outside type seen hnew s₁ := by
  induction levels generalizing type seen s₁ with
  | zero =>
    have hmem : (w.typeAt type).name ∈ unvisited names seen :=
      mem_unvisited.mpr ⟨hnames type htype, hnew⟩
    exact absurd (List.length_pos_of_mem hmem) (Nat.not_lt.mpr hlevels)
  | succ levels ih =>
    rw [Function.iterate_succ_apply', expand_eq_expandStep, expandStep, expandStep]
    rcases hfields : w.fields outside type s₁ with ⟨e | fields, s₂⟩
    · rfl
    · have hnamed := hsteady.reachable_of_named hpass htype hfields
      have hkeeps (u : TypeId) (seen' : List String) (_ : (w.typeAt type).name :: seen ⊆ seen')
          (hfresh : (w.typeAt u).name ∉ seen') (s₃ : σ) (hu : u ∈ w.reachable outside s roots)
          (hpassed : w.Passes outside (w.reachable outside s roots) s s₃) :=
        hsteady.passes_expand hpassed hu hfresh
      have hsame (u : TypeId) (seen' : List String) (hmet : (w.typeAt type).name :: seen ⊆ seen')
          (hfresh : (w.typeAt u).name ∉ seen') (s₃ : σ) (hu : u ∈ w.reachable outside s roots)
          (hpassed : w.Passes outside (w.reachable outside s roots) s s₃) :
          (w.expandStep outside)^[levels] expand u seen' hfresh s₃ =
            w.expand outside u seen' hfresh s₃ := by
        have hlt := length_unvisited_lt (hnames type htype) hnew (hmet List.mem_cons_self)
          (List.Subset.trans (List.subset_cons_self _ _) hmet)
        exact ih u seen' hfresh s₃ hu hpassed (by omega)
      have hentries := fieldsJson_congr hkeeps hsame fields.entries
        (fun field hfield u hu ↦ hnamed u (mem_namedTypes_of_entries hfield hu))
        ((w.typeAt type).name :: seen) (List.Subset.refl _) s₂ (hpass.step htype hfields)
      dsimp only
      rw [hentries]

end World

end DocumentTypes
