import DocumentTypes.Proofs.Render.Readable
import DocumentTypes.Proofs.Render.Reachable

/-!
Whether the text in the schema definition language tells which types it defines. It does where the
types list fields and have names, and descriptions do not contain the marks that close them: the
types that fields name are visited themselves (`World.name_mem_of_breadthFirst`), so their names are
names too, and the definitions are readable (`World.readable_of_breadthFirst`). Descriptions are
written as they are, and one that contains its mark can go on with the definition of another type
(`PrintedType.block_forgedDescription`).
-/

set_option autoImplicit false

namespace DocumentTypes

/-- A type that lists fields, where the type and the fields have names. -/
structure PrintedType.HasNames (type : PrintedType) : Prop where
  kind : type.kind.listsFields
  name : TypeExpr.isName type.name.toList
  fields : ∀ field ∈ type.fields, TypeExpr.isName field.name.toList

/-- No mark that closes a description begins inside of it. -/
structure PrintedType.DescriptionsClose (type : PrintedType) : Prop where
  description : ∀ text ∈ type.description, Text.Closes typeMark text.toList
  fields : ∀ field ∈ type.fields, ∀ text ∈ field.description, Text.Closes fieldMark text.toList

namespace World

variable {P : Producers} {σ : Type} {w : World P} {outside : Outside P σ}

/-- The name of each type that waits or that a visited type leads to was met before, or is that of a
visited type. -/
theorem name_mem_of_breadthFirst {queue : List TypeId} {seen : List String} {s s' : σ}
    {visited : List (TypeId × FieldMap)}
    (h : w.breadthFirst outside queue seen s = (.ok visited, s')) :
    (∀ t ∈ queue, (w.typeAt t).name ∈ seen ++ visited.map fun visit ↦ (w.typeAt visit.1).name) ∧
      ∀ visit ∈ visited, ∀ t ∈ namedTypes visit.2,
        (w.typeAt t).name ∈ seen ++ visited.map fun visit ↦ (w.typeAt visit.1).name := by
  induction queue, seen, s using breadthFirst.induct w outside generalizing visited s' with
  | case1 seen s =>
    rw [breadthFirst] at h
    obtain rfl := Except.ok.inj (Prod.mk.inj h).1
    simp
  | case2 seen s type rest hseen ih =>
    rw [breadthFirst, dif_pos hseen] at h
    obtain ⟨hrest, hvisited⟩ := ih h
    exact ⟨List.forall_mem_cons.mpr ⟨List.mem_append_left _ hseen, hrest⟩, hvisited⟩
  | case3 seen s type rest hnew e s₁ hfields =>
    rw [breadthFirst, dif_neg hnew, hfields] at h
    exact absurd (Prod.mk.inj h).1 (by simp)
  | case4 seen s type rest hnew fields s₁ hfields e s₂ hrest ih =>
    rw [breadthFirst, dif_neg hnew] at h
    simp only [hfields, hrest] at h
    exact absurd (Prod.mk.inj h).1 (by simp)
  | case5 seen s type rest hnew fields s₁ hfields more s₂ hrest ih =>
    rw [breadthFirst, dif_neg hnew] at h
    simp only [hfields, hrest] at h
    obtain rfl := Except.ok.inj (Prod.mk.inj h).1
    obtain ⟨hqueue, hmore⟩ := ih hrest
    have hsame (name : String) :
        name ∈ (w.typeAt type).name :: seen ++ more.map (fun visit ↦ (w.typeAt visit.1).name) ↔
          name ∈ seen ++ ((type, fields) :: more).map fun visit ↦ (w.typeAt visit.1).name := by
      simp only [List.cons_append, List.mem_cons, List.mem_append, List.map_cons]
      exact or_left_comm
    simp only [hsame] at hqueue hmore
    obtain ⟨hwaiting, hnamed⟩ := List.forall_mem_append.mp hqueue
    refine ⟨List.forall_mem_cons.mpr ⟨?_, hwaiting⟩, List.forall_mem_cons.mpr ⟨hnamed, hmore⟩⟩
    exact (hsame _).mp List.mem_cons_self

/-- The text of a type has no line break when the innermost name has none. -/
theorem newline_notMem_typeText (type : TypeRef)
    (h : ∀ t, type.named? = some t → '\n' ∉ (w.typeAt t).name.toList) :
    '\n' ∉ (w.typeText type).toList := by
  induction type with
  | scalar scalar =>
    rw [typeText]
    cases scalar <;> decide
  | list element ih =>
    rw [typeText, String.toList_append, String.toList_append]
    simpa using ih h
  | named t => exact h t rfl

/-- What the definitions of visited types say. -/
def printedTypes (w : World P) (visited : List (TypeId × FieldMap)) : List PrintedType :=
  visited.map fun visit ↦ w.printed visit.1 visit.2

section Visited

variable {roots : List TypeId} {s s' : σ} {visited : List (TypeId × FieldMap)}
  (h : w.breadthFirst outside roots [] s = (.ok visited, s'))
  (hnames : ∀ type ∈ w.printedTypes visited, type.HasNames)

include h hnames

/-- Visited types with names have fields with types on one line: the types that these name are
visited as well. -/
theorem readable_of_breadthFirst
    (hcloses : ∀ type ∈ w.printedTypes visited, type.DescriptionsClose) :
    ∀ type ∈ w.printedTypes visited, type.Readable := by
  intro type htype
  have hname := hnames type htype
  have hclose := hcloses type htype
  obtain ⟨visit, hvisit, rfl⟩ := List.mem_map.mp htype
  refine ⟨hname.kind, hname.name, hclose.description, fun field hfield ↦
    ⟨hname.fields field hfield, ?_, hclose.fields field hfield⟩⟩
  obtain ⟨outlined, houtlined, rfl⟩ := List.mem_map.mp hfield
  obtain ⟨entry, hentry, rfl⟩ := List.mem_map.mp houtlined
  show '\n' ∉ (w.typeExpr entry.2.type).text.toList
  rw [text_typeExpr]
  refine newline_notMem_typeText entry.2.type fun t ht ↦ ?_
  have hmet := (name_mem_of_breadthFirst h).2 visit hvisit t (mem_namedTypes_of_entries hentry ht)
  obtain ⟨other, hother, hsame⟩ := List.mem_map.mp hmet
  rw [← hsame]
  exact notMem_of_isName (hnames _ (List.mem_map_of_mem hother)).name (by decide)

theorem sdl_eq_blocks : w.sdl outside roots s =
    (.ok ("\n".intercalate ((w.printedTypes visited).map PrintedType.block)), s') := by
  have hblocks : visited.map (fun visit ↦ w.sdlBlock visit.1 visit.2) =
      (w.printedTypes visited).map PrintedType.block := by
    rw [printedTypes, List.map_map]
    refine List.map_congr_left fun visit hvisit ↦ w.sdlBlock_eq_block visit.2 ?_
    exact (hnames _ (List.mem_map_of_mem hvisit)).kind
  rw [sdl, h, ← hblocks]

end Visited

end World

open World

/-- Two texts that define types which list fields and have names, and whose descriptions close. If
the texts are the same, the types are the same one by one, in name, class, description and fields,
and the fields in name, text of the type and description. -/
theorem sdl_unambiguous {P P' : Producers} {σ σ' : Type} {w : World P} {w' : World P'}
    {outside : Outside P σ} {outside' : Outside P' σ'} {roots roots' : List TypeId} {s s₁ : σ}
    {s' s₁' : σ'} {visited visited' : List (TypeId × FieldMap)}
    (hvisited : w.breadthFirst outside roots [] s = (.ok visited, s₁))
    (hvisited' : w'.breadthFirst outside' roots' [] s' = (.ok visited', s₁'))
    (hnames : ∀ type ∈ w.printedTypes visited, type.HasNames)
    (hnames' : ∀ type ∈ w'.printedTypes visited', type.HasNames)
    (hcloses : ∀ type ∈ w.printedTypes visited, type.DescriptionsClose)
    (hcloses' : ∀ type ∈ w'.printedTypes visited', type.DescriptionsClose)
    (htext : (w.sdl outside roots s).1 = (w'.sdl outside' roots' s').1) :
    w.printedTypes visited = w'.printedTypes visited' := by
  rw [sdl_eq_blocks hvisited hnames, sdl_eq_blocks hvisited' hnames'] at htext
  exact PrintedType.intercalate_inj (readable_of_breadthFirst hvisited hnames hcloses)
    (readable_of_breadthFirst hvisited' hnames' hcloses') (Except.ok.inj htext)

/-! ### A mill -/

def grain : PrintedType :=
  ⟨"Grain", .object, some "What is milled", [⟨"milledAt", "[Mill]", some "All of them"⟩]⟩

def mill : PrintedType :=
  ⟨"Mill", .object, some "Where it is milled", [⟨"wheels", "Int", none⟩]⟩

/-- Grain and a mill. -/
def mills : World .none where
  types := #[
    ⟨"Grain", some "What is milled", .object,
      [.field "milledAt" ⟨.list (.named 1), some "All of them"⟩]⟩,
    ⟨"Mill", some "Where it is milled", .object, [.field "wheels" (.ofType (.scalar .int))]⟩]
  registries := #[]

def grainFields : FieldMap :=
  .ofList [("milledAt", ⟨.list (.named 1), some "All of them"⟩)]

def millFields : FieldMap :=
  .ofList [("wheels", .ofType (.scalar .int))]

theorem hasNames_mills : ∀ type ∈ [grain, mill], type.HasNames := by
  have hgrain : grain.HasNames := ⟨rfl, by decide, by decide⟩
  have hmill : mill.HasNames := ⟨rfl, by decide, by decide⟩
  exact List.forall_mem_cons.mpr ⟨hgrain, List.forall_mem_singleton.mpr hmill⟩

theorem descriptionsClose_mills : ∀ type ∈ [grain, mill], type.DescriptionsClose := by
  have hgrain : grain.DescriptionsClose := by
    refine ⟨?_, List.forall_mem_singleton.mpr ?_⟩
    · rintro text ⟨⟩
      exact (closes_of_no_quotes (by decide)).1
    · rintro text ⟨⟩
      exact (closes_of_no_quotes (by decide)).2
  have hmill : mill.DescriptionsClose := by
    refine ⟨?_, List.forall_mem_singleton.mpr ?_⟩
    · rintro text ⟨⟩
      exact (closes_of_no_quotes (by decide)).1
    · rintro text ⟨⟩
  exact List.forall_mem_cons.mpr ⟨hgrain, List.forall_mem_singleton.mpr hmill⟩

theorem breadthFirst_mills {roots : List TypeId} (hroots : roots = [0, 1] ∨ roots = [0]) :
    ∃ visited, mills.breadthFirst Outside.none roots [] () = (.ok visited, ()) ∧
      mills.printedTypes visited = [grain, mill] := by
  have hgrain : mills.fields Outside.none 0 () = (.ok grainFields, ()) := by decide +kernel
  have hmill : mills.fields Outside.none 1 () = (.ok millFields, ()) := by decide +kernel
  have hgrainName : (mills.typeAt 0).name = "Grain" := rfl
  have hmillName : (mills.typeAt 1).name = "Mill" := rfl
  have hleads : namedTypes grainFields = [1] ∧ namedTypes millFields = [] := by decide
  refine ⟨[(0, grainFields), (1, millFields)], ?_, by decide +kernel⟩
  rcases hroots with rfl | rfl <;>
    simp [breadthFirst, hgrain, hmill, hgrainName, hmillName, hleads]

/-- Grain is defined with its mill, whether the mill is asked for or not. -/
theorem sdl_unambiguous_mills :
    ∃ visited visited', mills.breadthFirst Outside.none [0, 1] [] () = (.ok visited, ()) ∧
      mills.breadthFirst Outside.none [0] [] () = (.ok visited', ()) ∧
      (∀ type ∈ mills.printedTypes visited, type.HasNames ∧ type.DescriptionsClose) ∧
      (∀ type ∈ mills.printedTypes visited', type.HasNames ∧ type.DescriptionsClose) ∧
      (mills.sdl Outside.none [0, 1] ()).1 = (mills.sdl Outside.none [0] ()).1 ∧
      mills.printedTypes visited = mills.printedTypes visited' := by
  obtain ⟨visited, hvisited, hprinted⟩ := breadthFirst_mills (Or.inl rfl)
  obtain ⟨visited', hvisited', hprinted'⟩ := breadthFirst_mills (Or.inr rfl)
  have hnames : ∀ type ∈ mills.printedTypes visited, type.HasNames := hprinted ▸ hasNames_mills
  have hnames' : ∀ type ∈ mills.printedTypes visited', type.HasNames := hprinted' ▸ hasNames_mills
  have hcloses : ∀ type ∈ mills.printedTypes visited, type.DescriptionsClose :=
    hprinted ▸ descriptionsClose_mills
  have hcloses' : ∀ type ∈ mills.printedTypes visited', type.DescriptionsClose :=
    hprinted' ▸ descriptionsClose_mills
  have htext : (mills.sdl Outside.none [0, 1] ()).1 = (mills.sdl Outside.none [0] ()).1 := by
    rw [sdl_eq_blocks hvisited hnames, sdl_eq_blocks hvisited' hnames', hprinted, hprinted']
  refine ⟨visited, visited', hvisited, hvisited', fun type h ↦ ⟨hnames type h, hcloses type h⟩,
    fun type h ↦ ⟨hnames' type h, hcloses' type h⟩, htext, ?_⟩
  exact sdl_unambiguous hvisited hvisited' hnames hnames' hcloses hcloses' htext

/-! ### A description that defines a type -/

/-- A description that defines `first` in front of `second`, between descriptions of the two. -/
def PrintedType.forgedDescription (first : PrintedType) (p q : String) : String :=
  p ++ "\n\"\"\"\n" ++ { first with description := none }.block ++ "\n\"\"\"\n" ++ q

/-- A type with such a description reads as two. -/
theorem PrintedType.block_forgedDescription (first second : PrintedType) (p q : String) :
    { second with description := some (first.forgedDescription p q) }.block =
      { first with description := some p }.block ++ "\n" ++
        { second with description := some q }.block := by
  have hmark (rest : String) : "\n" ++ ("\"\"\"\n" ++ rest) = "\n\"\"\"\n" ++ rest := by
    rw [← String.append_assoc]
    rfl
  simp only [block, forgedDescription, descriptionBlock, String.append_assoc, String.empty_append,
    hmark]

/-- The mark that closes such a description begins inside of it. -/
theorem PrintedType.not_closes_forgedDescription (first : PrintedType) (p q : String) :
    ¬ Text.Closes typeMark (first.forgedDescription p q).toList := by
  rw [Text.Closes, not_not, forgedDescription]
  refine ⟨p.toList, ({ first with description := none }.block ++ "\n\"\"\"\n" ++ q).toList ++
    typeMark.dropLast, ?_⟩
  simp [String.toList_append, typeMark]

/-- A mill whose description defines grain. -/
def forgedMill : PrintedType :=
  { mill with description := some (grain.forgedDescription "What is milled" "Where it is milled") }

/-- A world with that mill only. -/
def forgedMills : World .none where
  types := #[⟨"Mill", forgedMill.description, .object,
    [.field "wheels" (.ofType (.scalar .int))]⟩]
  registries := #[]

/-- The text for grain and a mill, and for a mill whose description defines grain, is the same,
although the one defines two types and the other defines one. -/
theorem sdl_ambiguous_mills :
    ∃ text visited visited', mills.breadthFirst Outside.none [0, 1] [] () = (.ok visited, ()) ∧
      forgedMills.breadthFirst Outside.none [0] [] () = (.ok visited', ()) ∧
      (∀ type ∈ mills.printedTypes visited, type.HasNames) ∧
      (∀ type ∈ forgedMills.printedTypes visited', type.HasNames) ∧
      mills.sdl Outside.none [0, 1] () = (.ok text, ()) ∧
      forgedMills.sdl Outside.none [0] () = (.ok text, ()) ∧
      mills.printedTypes visited ≠ forgedMills.printedTypes visited' := by
  obtain ⟨visited, hvisited, hprinted⟩ := breadthFirst_mills (Or.inl rfl)
  obtain ⟨visited', hvisited', hprinted'⟩ : ∃ visited',
      forgedMills.breadthFirst Outside.none [0] [] () = (.ok visited', ()) ∧
        forgedMills.printedTypes visited' = [forgedMill] := by
    have hmill : forgedMills.fields Outside.none 0 () = (.ok millFields, ()) := by decide +kernel
    have hleads : namedTypes millFields = [] := by decide
    refine ⟨[(0, millFields)], ?_, by decide +kernel⟩
    simp [breadthFirst, hmill, hleads]
  have hnames : ∀ type ∈ mills.printedTypes visited, type.HasNames := hprinted ▸ hasNames_mills
  have hforged : forgedMill.HasNames := ⟨rfl, by decide, by decide⟩
  have hnames' : ∀ type ∈ forgedMills.printedTypes visited', type.HasNames :=
    hprinted' ▸ List.forall_mem_singleton.mpr hforged
  have hblocks : "\n".intercalate ([grain, mill].map PrintedType.block) = forgedMill.block :=
    (PrintedType.block_forgedDescription grain mill _ _).symm
  refine ⟨forgedMill.block, visited, visited', hvisited, hvisited', hnames, hnames', ?_, ?_, ?_⟩
  · rw [sdl_eq_blocks hvisited hnames, hprinted, hblocks]
  · rw [sdl_eq_blocks hvisited' hnames', hprinted']
    rfl
  · rw [hprinted, hprinted']
    exact fun h ↦ absurd (congrArg List.length h) (by decide)

end DocumentTypes
