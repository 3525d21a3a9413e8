import DocumentTypes.Proofs.Build.PlainNames

/-!
The positions of a request: the fields that lead from its schema, through embedded schemas that are
not excluded, to the requests nested in it (`BuildRequest.Unfolds`). What a build registers belongs
to a position (`exists_unfolds_of_build`). Where the fields at all positions are plain
(`BuildRequest.HasPlainFields`), different positions have different names
(`foldl_subFieldName_injective`), and a build that finds neither its name nor a name nested in it
builds a type of its own at every position (`exists_fulfils_of_build`).
-/

set_option autoImplicit false

namespace DocumentTypes

variable {P : Producers} {heap : SchemaHeap} {registry : RegistryId}

/-! ### Names of positions -/

theorem isWithinName_foldl (name : String) (path : List String) :
    IsWithinName name (path.foldl subFieldName name) := by
  induction path generalizing name with
  | nil => exact Or.inl rfl
  | cons field rest ih => exact Or.inr (ih (subFieldName name field)).isNestedName

/-- Below a name, plain fields are read off one after the other. -/
theorem foldl_subFieldName_injective {name : String} {path path' : List String}
    (hplain : ∀ field ∈ path, IsPlainName field) (hplain' : ∀ field ∈ path', IsPlainName field)
    (h : path.foldl subFieldName name = path'.foldl subFieldName name) : path = path' := by
  induction path generalizing name path' with
  | nil =>
    cases path' with
    | nil => rfl
    | cons field rest =>
      have hnested : IsNestedName name ((field :: rest).foldl subFieldName name) :=
        (isWithinName_foldl (subFieldName name field) rest).isNestedName
      exact absurd h.symm hnested.ne
  | cons field rest ih =>
    have hwithin := isWithinName_foldl (subFieldName name field) rest
    cases path' with
    | nil => exact absurd h hwithin.isNestedName.ne
    | cons field' rest' =>
      have hwithin' := isWithinName_foldl (subFieldName name field') rest'
      obtain ⟨hfield, hrest⟩ := List.forall_mem_cons.mp hplain
      obtain ⟨hfield', hrest'⟩ := List.forall_mem_cons.mp hplain'
      simp only [List.foldl_cons] at h
      rw [← h] at hwithin'
      have hsame : field = field' := eq_of_isWithinName hfield hfield' hwithin hwithin'
      rw [ih hrest hrest' (hsame ▸ h), hsame]

namespace BuildRequest

variable {request r : BuildRequest P} {path : List String}

/-- The fields in `path` lead from the schema of the request to that of the nested request `r`. -/
inductive Unfolds (heap : SchemaHeap) (request : BuildRequest P) :
    List String → BuildRequest P → Prop
  | root : Unfolds heap request [] request
  | nested {path : List String} {r : BuildRequest P} {field : String}
      {d : PathDescriptor SchemaLink} {target : SchemaId} (h : Unfolds heap request path r)
      (hkept : (field, d) ∈ heap.kept r.exclude r.schema)
      (hother : d.otherSchema? r.schema = some target) :
      Unfolds heap request (path ++ [field]) (r.nested field target)

theorem Unfolds.name_eq (h : request.Unfolds heap path r) :
    r.name = path.foldl subFieldName request.name := by
  induction h with
  | root => rfl
  | nested _ hkept hother ih =>
    rw [List.foldl_append, ← ih]
    rfl

/-- Nested requests have the class and the exclusions of the outer one. -/
theorem Unfolds.inherits (h : request.Unfolds heap path r) :
    r.classKind = request.classKind ∧ r.exclude = request.exclude := by
  induction h with
  | root => exact ⟨rfl, rfl⟩
  | nested _ hkept hother ih => exact ih

theorem Unfolds.embeddedAt (h : request.Unfolds heap path r) :
    EmbeddedAt heap request.exclude request.name request.schema r.name r.schema := by
  induction h with
  | root => exact .root
  | nested h hkept hother ih =>
    rw [h.inherits.2] at hkept
    exact .nested ih hkept hother

/-- The fields at all positions are plain. -/
def HasPlainFields (heap : SchemaHeap) (request : BuildRequest P) : Prop :=
  ∀ path r, request.Unfolds heap path r → ∀ path ∈ heap.kept r.exclude r.schema, IsPlainName path.1

theorem HasPlainFields.plain_path (hplain : request.HasPlainFields heap)
    (h : request.Unfolds heap path r) : ∀ field ∈ path, IsPlainName field := by
  induction h with
  | root => exact fun field hfield ↦ absurd hfield List.not_mem_nil
  | nested h hkept hother ih =>
    intro field hfield
    rcases List.mem_append.mp hfield with hbefore | hlast
    · exact ih field hbefore
    · obtain rfl := List.mem_singleton.mp hlast
      exact hplain _ _ h _ hkept

end BuildRequest

open World

/-! ### Calls and positions -/

namespace Call

variable {c c' : Call P} {t : TypeId} {path : List String} {r : BuildRequest P}

/-- Calls are made at positions. -/
theorem Reaches.exists_unfolds (h : Reaches heap registry c c') :
    ∃ path, c.request.Unfolds heap path c'.request := by
  induction h with
  | refl => exact ⟨[], .root⟩
  | tail _ hmakes ih =>
    obtain ⟨path, hunfolds⟩ := ih
    obtain ⟨field, d, target, hkept, hother, hrequest⟩ := hmakes.request_eq
    rw [hrequest]
    exact ⟨path ++ [field], .nested hunfolds hkept hother⟩

/-- A type that a call builds is a new one. -/
theorem Generates.nextType_le (h : c.Generates heap registry t)
    (hheld : c.world.HasRegistry registry) : c.world.nextType ≤ t := by
  obtain ⟨-, -, layers, w, hwalk, hconstruct⟩ := h.exists_walk
  have hrun : w.construct registry (c.request.type layers) = (.ok t, (c.run heap registry).2) :=
    hconstruct.trans (Prod.ext h.built rfl)
  obtain ⟨rfl, -⟩ := construct_eq_ok hrun
  exact ((walk_grows_nested hwalk).later hheld).nextType_le

/-- A call that misses its name, with the names nested in it, and succeeds makes a call at every
position, which builds a type. The induction is on the way to the position: the call above it has
built its type and so makes this one, which misses its name too. -/
theorem Generates.exists_generates (h : c.Generates heap registry t)
    (hheld : c.world.HasRegistry registry) (hplain : c.request.HasPlainFields heap)
    (hmisses : c.world.Misses registry c.request.name) (hunfolds : c.request.Unfolds heap path r) :
    ∃ c' u, Reaches heap registry c c' ∧ c'.request = r ∧ c'.Generates heap registry u := by
  induction hunfolds with
  | root => exact ⟨c, t, Relation.ReflTransGen.refl, rfl, h⟩
  | @nested path r field d target _ hkept hother ih =>
    obtain ⟨c', u, hreaches, rfl, hgenerates⟩ := ih
    obtain ⟨-, -, w, v, hmakes, hok⟩ := hgenerates.exists_makes hkept hother
    have hbelow := Relation.ReflTransGen.tail hreaches hmakes
    have hplain' : ∀ call, Reaches heap registry c call →
        ∀ path ∈ heap.kept call.request.exclude call.request.schema, IsPlainName path.1 := by
      intro call hcall
      obtain ⟨path, hunfolds⟩ := Reaches.exists_unfolds hcall
      exact hplain path _ hunfolds
    exact ⟨_, v, hbelow, rfl, (Reaches.misses hbelow hheld hplain' hmisses).lookup_eq_none, hok⟩

end Call

section Build

variable {request r : BuildRequest P} {w w' : World P} {path : List String} {name : String}
  {t : TypeId}

/-- A build that finds nothing of its own registered builds a new type at every position. -/
theorem exists_fulfils_of_build (hheld : w.HasRegistry registry)
    (hplain : request.HasPlainFields heap) (hmisses : w.Misses registry request.name)
    (hbuild : w.build heap registry request = (.ok t, w'))
    (hunfolds : request.Unfolds heap path r) :
    ∃ u, w.nextType ≤ u ∧ w'.Fulfils heap registry r u := by
  have hend : (Call.run heap registry ⟨[], request, w⟩).2 = w' := congrArg Prod.snd hbuild
  have hgenerates : Call.Generates heap registry ⟨[], request, w⟩ t :=
    ⟨hmisses.lookup_eq_none, congrArg Prod.fst hbuild⟩
  obtain ⟨c, u, hreaches, rfl, hbelow⟩ :=
    hgenerates.exists_generates hheld hplain hmisses hunfolds
  have hstart := Call.Reaches.hasRegistry_world hheld hreaches
  rw [← hend]
  exact ⟨u, (Call.Reaches.later_world hheld hreaches).nextType_le.trans (hbelow.nextType_le hstart),
    hbelow.fulfils_of_reaches hheld hreaches⟩

/-- What is registered after a build was registered before, or belongs to a position. -/
theorem exists_unfolds_of_build {result : Except BuildError TypeId} (hheld : w.HasRegistry registry)
    (hbuild : w.build heap registry request = (result, w'))
    (hlookup : w'.lookup registry name = some t) :
    w.lookup registry name = some t ∨ ∃ path r, request.Unfolds heap path r ∧ r.name = name := by
  have hend : (Call.run heap registry ⟨[], request, w⟩).2 = w' := congrArg Prod.snd hbuild
  rw [← hend] at hlookup
  rcases Call.generated_of_lookup ⟨[], request, w⟩ hheld hlookup with
    hbefore | ⟨schema, c, hreaches, hname, -, -⟩
  · exact Or.inl hbefore
  · obtain ⟨path, hunfolds⟩ := Call.Reaches.exists_unfolds hreaches
    exact Or.inr ⟨path, c.request, hunfolds, hname⟩

/-- What a build registers, also when it fails, is the type of a position. -/
theorem exists_fulfils_of_newly_registered {result : Except BuildError TypeId}
    (hheld : w.HasRegistry registry) (hbuild : w.build heap registry request = (result, w'))
    (hnew : w.lookup registry name = none) (hlookup : w'.lookup registry name = some t) :
    ∃ path r, request.Unfolds heap path r ∧ r.name = name ∧ w'.Fulfils heap registry r t := by
  have hend : (Call.run heap registry ⟨[], request, w⟩).2 = w' := congrArg Prod.snd hbuild
  rw [← hend] at hlookup ⊢
  rcases Call.generated_of_lookup ⟨[], request, w⟩ hheld hlookup with
    hbefore | ⟨schema, c, hreaches, hname, -, hgenerates⟩
  · exact absurd (hnew.symm.trans hbefore) (by simp)
  · obtain ⟨path, hunfolds⟩ := Call.Reaches.exists_unfolds hreaches
    exact ⟨path, c.request, hunfolds, hname, hgenerates.fulfils_of_reaches hheld hreaches⟩

end Build

end DocumentTypes
