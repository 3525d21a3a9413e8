import DocumentTypes.Proofs.Build.Failure
import DocumentTypes.Proofs.Build.MissingOption

/-!
Errors for embedding cycles. The types that enclose a call and the one it is for are nested in one
another, each for a kept path of the schema of the one before (`Call.Reaches.isChain_lineage`), and
each is being built by a call that the failing one is below (`Call.Reaches.exists_of_mem_lineage`).
The path that closes a cycle leads back to the schema of one of them. So the names in such an error
go once around a cycle of pairwise different schemas (`SchemaHeap.Cycle`,
`Call.Fails.exists_cycle`), and there is none where schemas embed only themselves in a cycle
(`SchemaHeap.Cycle.transGen`).
-/

set_option autoImplicit false

namespace DocumentTypes

open World

/-! ### Cycles of schemas -/

namespace SchemaHeap

variable {heap : SchemaHeap} {exclude path : List String} {schemas : List SchemaId}

/-- The second type is the one nested in the first for a kept path that embeds its schema. -/
def Nests (heap : SchemaHeap) (exclude : List String) (outer inner : String × SchemaId) : Prop :=
  ∃ field d link, (field, d) ∈ heap.kept exclude outer.2 ∧ d.element = .embedded link ∧
    link.target = inner.2 ∧ inner.1 = subFieldName outer.1 field

/-- The names in `path` go once around `schemas`, which are pairwise different: each is nested in
the name before, and the last one is for the first schema again. -/
structure Cycle (heap : SchemaHeap) (exclude path : List String) (schemas : List SchemaId) :
    Prop where
  nodup : schemas.Nodup
  two_le_length : 2 ≤ schemas.length
  length_path : path.length = schemas.length + 1
  nests : ∀ i < schemas.length, ∃ outer schema inner target,
    path[i]? = some outer ∧ schemas[i]? = some schema ∧ path[i + 1]? = some inner ∧
      schemas[(i + 1) % schemas.length]? = some target ∧
      heap.Nests exclude (outer, schema) (inner, target)

/-- In a lineage that is closed by one more name for its first schema, the schemas that come next
are those of the lineage in turn. -/
theorem exists_next_of_closed (first : String × SchemaId) (rest : Lineage) (last : String) {i : Nat}
    (hi : i < rest.length + 1) :
    ∃ next, (first :: rest ++ [(last, first.2)])[i + 1]? = some next ∧
      (Lineage.schemas (first :: rest))[(i + 1) % (rest.length + 1)]? = some next.2 := by
  by_cases hlast : i + 1 < rest.length + 1
  · have hget := List.getElem?_eq_getElem (l := first :: rest) hlast
    refine ⟨_, (List.getElem?_append_left hlast).trans hget, ?_⟩
    rw [Nat.mod_eq_of_lt hlast, Lineage.schemas, List.getElem?_map, hget, Option.map_some]
  · have hround : i + 1 = rest.length + 1 := by omega
    refine ⟨(last, first.2), ?_, ?_⟩
    · rw [hround]
      exact List.getElem?_concat_length
    · rw [hround, Nat.mod_self]
      rfl

/-- Types that are nested in one another close a cycle with one more name for the first schema. -/
theorem Cycle.of_isChain {first : String × SchemaId} {rest : Lineage} {last : String}
    (hrest : rest ≠ []) (hnodup : (Lineage.schemas (first :: rest)).Nodup)
    (hchain : List.IsChain (heap.Nests exclude) (first :: rest ++ [(last, first.2)])) :
    heap.Cycle exclude ((first :: rest).map Prod.fst ++ [last])
      (Lineage.schemas (first :: rest)) := by
  have hlength : (Lineage.schemas (first :: rest)).length = rest.length + 1 := by
    rw [Lineage.schemas, List.length_map, List.length_cons]
  have hpath : (first :: rest).map Prod.fst ++ [last] =
      (first :: rest ++ [(last, first.2)]).map Prod.fst := by
    rw [List.map_append, List.map_singleton]
  refine ⟨hnodup, ?_, ?_, ?_⟩
  · rw [hlength]
    exact Nat.succ_le_succ (List.length_pos_of_ne_nil hrest)
  · rw [hlength, List.length_append, List.length_map, List.length_cons, List.length_singleton]
  · intro i hi
    rw [hlength] at hi ⊢
    obtain ⟨outer, houter⟩ : ∃ outer, (first :: rest)[i]? = some outer :=
      ⟨_, List.getElem?_eq_getElem hi⟩
    have hclosed : (first :: rest ++ [(last, first.2)])[i]? = some outer :=
      (List.getElem?_append_left hi).trans houter
    obtain ⟨inner, hinner, hschema⟩ := exists_next_of_closed first rest last hi
    refine ⟨outer.1, outer.2, inner.1, inner.2, ?_, ?_, ?_, hschema, ?_⟩
    · rw [hpath, List.getElem?_map, hclosed, Option.map_some]
    · rw [Lineage.schemas, List.getElem?_map, houter, Option.map_some]
    · rw [hpath, List.getElem?_map, hinner, Option.map_some]
    · obtain ⟨hlt, rfl⟩ := List.getElem?_eq_some_iff.mp hinner
      obtain ⟨-, rfl⟩ := List.getElem?_eq_some_iff.mp hclosed
      exact hchain.getElem i hlt

theorem isAlive_of_mem_kept {schema : SchemaId} {entry : String × PathDescriptor SchemaLink}
    (h : entry ∈ heap.kept exclude schema) : heap.isAlive schema = true := by
  by_contra hdead
  have hempty := paths_of_not_isAlive (Bool.eq_false_iff.mpr hdead)
  exact absurd (hempty ▸ (mem_kept.mp h).1) List.not_mem_nil

/-- The schema embeds another one, which lives. -/
def EmbedsOther (heap : SchemaHeap) (schema target : SchemaId) : Prop :=
  heap.Embeds schema target ∧ target ≠ schema

/-- Each schema of a cycle embeds the next one. -/
theorem Cycle.embedsOther (h : heap.Cycle exclude path schemas) {i : Nat}
    {schema target : SchemaId} (hschema : schemas[i]? = some schema)
    (htarget : schemas[(i + 1) % schemas.length]? = some target) :
    heap.EmbedsOther schema target := by
  have hlength := h.two_le_length
  have hi := (List.getElem?_eq_some_iff.mp hschema).1
  have hnext : (i + 1) % schemas.length < schemas.length := Nat.mod_lt _ (by omega)
  obtain ⟨_, _, _, _, -, hschema', -, htarget', field, d, link, hkept, hlink, hpoints, -⟩ :=
    h.nests i hi
  obtain rfl := Option.some.inj (hschema.symm.trans hschema')
  obtain rfl := Option.some.inj (htarget.symm.trans htarget')
  obtain ⟨_, _, _, _, -, hnext', -, -, _, _, _, hkept', -⟩ := h.nests _ hnext
  obtain rfl := Option.some.inj (htarget.symm.trans hnext')
  refine ⟨⟨field, d, link, (mem_kept.mp hkept).1, hlink, hpoints, isAlive_of_mem_kept hkept'⟩, ?_⟩
  rintro rfl
  have hround : i = (i + 1) % schemas.length :=
    (List.getElem?_inj hi h.nodup).mp (hschema.trans htarget.symm)
  by_cases hlast : i + 1 < schemas.length
  · rw [Nat.mod_eq_of_lt hlast] at hround
    omega
  · have hfull : i + 1 = schemas.length := by omega
    rw [hfull, Nat.mod_self] at hround
    omega

/-- A cycle leads from its first schema back to it through schemas that embed others. The induction
is on how far the first schema leads. -/
theorem Cycle.transGen (h : heap.Cycle exclude path schemas) {first : SchemaId}
    (hfirst : schemas[0]? = some first) : Relation.TransGen heap.EmbedsOther first first := by
  have hlength := h.two_le_length
  have hleads : ∀ (i : Nat) (schema : SchemaId), schemas[i]? = some schema →
      Relation.ReflTransGen heap.EmbedsOther first schema := by
    intro i
    induction i with
    | zero =>
      intro schema hschema
      obtain rfl := Option.some.inj (hfirst.symm.trans hschema)
      exact Relation.ReflTransGen.refl
    | succ i ih =>
      intro schema hschema
      have hi := (List.getElem?_eq_some_iff.mp hschema).1
      obtain ⟨before, hbefore⟩ : ∃ before, schemas[i]? = some before :=
        ⟨_, List.getElem?_eq_getElem (Nat.lt_of_succ_lt hi)⟩
      refine (ih before hbefore).tail (h.embedsOther hbefore ?_)
      rwa [Nat.mod_eq_of_lt hi]
  obtain ⟨last, hlast⟩ : ∃ last, schemas[schemas.length - 1]? = some last :=
    ⟨_, List.getElem?_eq_getElem (by omega)⟩
  refine Relation.TransGen.tail' (hleads _ last hlast) (h.embedsOther hlast ?_)
  rwa [Nat.sub_add_cancel (by omega), Nat.mod_self]

end SchemaHeap

/-- Where a schema stands in a lineage, the names from there on are those that the path of a cycle
starts with. -/
theorem Lineage.exists_of_mem_schemas {lineage : Lineage} {schema : SchemaId}
    (h : schema ∈ lineage.schemas) :
    ∃ before name rest, lineage = before ++ (name, schema) :: rest ∧
      lineage.namesFrom schema = name :: rest.map Prod.fst := by
  induction lineage with
  | nil => exact absurd h List.not_mem_nil
  | cons enclosing lineage ih =>
    obtain ⟨name, other⟩ := enclosing
    by_cases hsame : other = schema
    · subst hsame
      refine ⟨[], name, lineage, rfl, ?_⟩
      rw [namesFrom, List.dropWhile_cons_of_neg (by simp)]
      rfl
    · obtain ⟨before, name', rest, rfl, hnames⟩ :=
        ih ((List.mem_cons.mp h).resolve_left fun heq ↦ hsame heq.symm)
      refine ⟨(name, other) :: before, name', rest, rfl, ?_⟩
      rw [namesFrom, List.dropWhile_cons_of_pos (by simpa using hsame)]
      exact hnames

/-! ### Calls and the types that enclose them -/

namespace Call

variable {P : Producers} {heap : SchemaHeap} {registry : RegistryId} {request : BuildRequest P}
  {w : World P} {c : Call P}

/-- The types that enclose the call and the one that it is for, with their schemas, outermost
first. -/
def lineage (c : Call P) : Lineage :=
  c.ancestors ++ [(c.request.name, c.request.schema)]

/-- The types of a lineage are being built, each by a call that the last one is below. -/
theorem Reaches.exists_of_mem_lineage (h : Reaches heap registry ⟨[], request, w⟩ c)
    {name : String} {schema : SchemaId} (hmem : (name, schema) ∈ c.lineage) :
    ∃ c', Reaches heap registry ⟨[], request, w⟩ c' ∧ Reaches heap registry c' c ∧
      c'.request.name = name ∧ c'.request.schema = schema := by
  induction h with
  | refl =>
    obtain ⟨rfl, rfl⟩ := Prod.mk.inj (List.mem_singleton.mp hmem)
    exact ⟨_, Relation.ReflTransGen.refl, Relation.ReflTransGen.refl, rfl, rfl⟩
  | tail hreaches hmakes ih =>
    have hnext := hmakes
    obtain ⟨-, -, -, -, -, -, -⟩ := hmakes
    rcases List.mem_append.mp hmem with henclosing | hlast
    · obtain ⟨c', habove, hbelow, hname, hschema⟩ := ih henclosing
      exact ⟨c', habove, hbelow.tail hnext, hname, hschema⟩
    · obtain ⟨rfl, rfl⟩ := Prod.mk.inj (List.mem_singleton.mp hlast)
      exact ⟨_, hreaches.tail hnext, Relation.ReflTransGen.refl, rfl, rfl⟩

/-- The types of a lineage and the one for a path of the call are nested in one another, when those
of the lineage are. -/
theorem isChain_lineage_append {exclude : List String} {field : String}
    {d : PathDescriptor SchemaLink} {target : SchemaId}
    (hchain : List.IsChain (heap.Nests exclude) c.lineage)
    (hkept : (field, d) ∈ heap.kept exclude c.request.schema)
    (hother : d.otherSchema? c.request.schema = some target) :
    List.IsChain (heap.Nests exclude)
      (c.lineage ++ [(subFieldName c.request.name field, target)]) := by
  obtain ⟨-, link, hlink, htarget⟩ := PathDescriptor.otherSchema?_eq_some hother
  rw [lineage, List.append_assoc, List.singleton_append, List.isChain_append_cons_cons]
  exact ⟨hchain, ⟨field, d, link, hkept, hlink, htarget, rfl⟩, List.isChain_singleton _⟩

/-- The types of a lineage are nested in one another. -/
theorem Reaches.isChain_lineage (h : Reaches heap registry ⟨[], request, w⟩ c) :
    List.IsChain (heap.Nests request.exclude) c.lineage := by
  induction h with
  | refl => exact List.isChain_singleton _
  | tail hreaches hmakes ih =>
    obtain ⟨-, -, hkept, -, hother, -, -⟩ := hmakes
    have hpath := SchemaHeap.mem_kept.mpr (SchemaHeap.of_kept_eq_append hkept)
    rw [(Reaches.request_eq hreaches).1] at hpath
    exact isChain_lineage_append ih hpath hother

/-- A call below the requested one that fails by itself for a cycle is below a call for the first
type of the cycle. -/
theorem Fails.exists_cycle {path : List String} (h : c.Fails heap (.embeddingCycle path))
    (hreaches : Reaches heap registry ⟨[], request, w⟩ c) :
    ∃ first schemas, Reaches heap registry ⟨[], request, w⟩ first ∧
      Reaches heap registry first c ∧ path[0]? = some first.request.name ∧
      schemas[0]? = some first.request.schema ∧ heap.Cycle request.exclude path schemas := by
  generalize he : BuildError.embeddingCycle path = e at h
  cases h with
  | empty hempty => exact absurd he (by simp)
  | unnamed hname => exact absurd he (by simp)
  | unknownKind hkept hkind hunknown => exact absurd he (by simp)
  | dead hkept hother hdead => exact absurd he (by simp)
  | @cycle field d target hkept hother hcycle =>
    rw [(Reaches.request_eq hreaches).1] at hkept
    obtain ⟨before, name, rest, hancestors, hnames⟩ := Lineage.exists_of_mem_schemas hcycle
    have hlineage : c.lineage =
        before ++ (name, target) :: (rest ++ [(c.request.name, c.request.schema)]) := by
      rw [lineage, hancestors, List.append_assoc, List.cons_append]
    have hmem : (name, target) ∈ c.lineage := by
      rw [hlineage]
      exact List.mem_append_cons_self
    obtain ⟨first, habove, hbelow, rfl, hschema⟩ := Reaches.exists_of_mem_lineage hreaches hmem
    have hnodup : (Lineage.schemas c.lineage).Nodup := by
      rw [lineage, Lineage.schemas, List.map_append]
      exact List.nodup_append_comm.mp hreaches.distinct
    have hchain := isChain_lineage_append hreaches.isChain_lineage hkept hother
    rw [hlineage, Lineage.schemas, List.map_append] at hnodup
    rw [hlineage, List.append_assoc] at hchain
    have hpath : path = ((first.request.name, target) ::
        (rest ++ [(c.request.name, c.request.schema)])).map Prod.fst ++
          [subFieldName c.request.name field] := by
      rw [BuildError.embeddingCycle.inj he, embeddingCycle, hnames, List.map_cons, List.map_append,
        List.map_singleton, List.cons_append, List.cons_append, List.append_assoc,
        List.singleton_append]
    have hround : heap.Cycle request.exclude path (Lineage.schemas
        ((first.request.name, target) :: (rest ++ [(c.request.name, c.request.schema)]))) := by
      rw [hpath]
      exact .of_isChain (by simp) (List.nodup_append.mp hnodup).2.1
        (List.isChain_append.mp hchain).2.1
    refine ⟨first, _, habove, hbelow, ?_, congrArg some hschema.symm, hround⟩
    rw [hpath]
    rfl

end Call

/-- A build that fails for a cycle was building the type that the cycle starts with. -/
theorem exists_cycle_of_build {P : Producers} {heap : SchemaHeap} {registry : RegistryId}
    {request : BuildRequest P} {w : World P} {path : List String} (hheld : w.HasRegistry registry)
    (hbuild : (w.build heap registry request).1 = .error (.embeddingCycle path)) :
    ∃ (first : Call P) (schemas : List SchemaId),
      Call.Reaches heap registry ⟨[], request, w⟩ first ∧
        (first.run heap registry).1 = .error (.embeddingCycle path) ∧
        IsOwnName request first.request.name ∧ path[0]? = some first.request.name ∧
        schemas[0]? = some first.request.schema ∧ heap.Cycle request.exclude path schemas := by
  obtain ⟨c, hreaches, herror, hfails⟩ := Call.exists_fails ⟨[], request, w⟩ hheld hbuild
  obtain ⟨first, schemas, habove, hbelow, hname, hschema, hcycle⟩ := hfails.exists_cycle hreaches
  refine ⟨first, schemas, habove, hbelow.run_eq_error herror, ?_, hname, hschema, hcycle⟩
  exact habove.eq_or_isNestedName.imp_left fun hroot ↦ by rw [hroot]

/-- Errors for embedding cycles are genuine. The names of such an error go around a cycle of at
least two pairwise different schemas, each nested in the one before for a kept path, from the name
and the schema of a type that was being built when the error came up: the requested one, or one
nested in it. So no request fails in this way when the schemas that are reached from the requested
one embed nothing but themselves in a cycle. -/
theorem embedding_cycle_is_genuine {P : Producers} (heap : SchemaHeap) (registry : RegistryId)
    (request : BuildRequest P) (w : World P) (hheld : w.HasRegistry registry) :
    (∀ path, (w.build heap registry request).1 = .error (.embeddingCycle path) →
      ∃ (first : Call P) (schemas : List SchemaId),
        Call.Reaches heap registry ⟨[], request, w⟩ first ∧
        (first.run heap registry).1 = .error (.embeddingCycle path) ∧
        IsOwnName request first.request.name ∧ path[0]? = some first.request.name ∧
        schemas[0]? = some first.request.schema ∧ heap.Cycle request.exclude path schemas) ∧
    ((∀ schema ∈ heap.reachable request.schema,
        ¬ Relation.TransGen heap.EmbedsOther schema schema) →
      ∀ path, (w.build heap registry request).1 ≠ .error (.embeddingCycle path)) := by
  constructor
  · intro path hbuild
    exact exists_cycle_of_build hheld hbuild
  · intro hacyclic path hbuild
    obtain ⟨first, schemas, hreaches, -, -, -, hschema, hcycle⟩ :=
      exists_cycle_of_build hheld hbuild
    exact hacyclic _ (hreaches.reachable _ List.mem_cons_self) (hcycle.transGen hschema)

/-- Zoos with a pen, pens with apes, and apes with their pen. -/
def zooHeap : SchemaHeap :=
  ⟨#[some (.ofList [("pen", ⟨.embedded (.shared 1), false⟩)]),
    some (.ofList [("ape", ⟨.embedded (.shared 2), true⟩)]),
    some (.ofList
      [("name", ⟨.primitive .string, false⟩), ("pen", ⟨.embedded (.cyclic 1), false⟩)])]⟩

def zooRequest : BuildRequest .none where
  name := "Zoo"
  description := none
  classKind := .object
  schema := 0
  exclude := []
  extend := .ready ∅
  props := .ready ∅

theorem animalHeap_lt_of_embedsOther {schema target : SchemaId}
    (h : animalHeap.EmbedsOther schema target) : schema < target := by
  obtain ⟨⟨field, d, link, hpath, hlink, rfl, -⟩, hother⟩ := h
  match schema with
  | 0 => exact Nat.pos_of_ne_zero hother
  | 1 =>
    have hplace : (field, d) ∈ [("city", (⟨.primitive .string, false⟩ : PathDescriptor _))] := hpath
    obtain ⟨-, rfl⟩ := Prod.mk.inj (List.mem_singleton.mp hplace)
    exact absurd hlink (by simp)
  | schema + 2 => exact absurd hpath List.not_mem_nil

/-- The pen of a zoo is embedded in itself by its apes. Animals embed nothing but themselves in a
cycle. -/
theorem embedding_cycle_is_genuine_zoo :
    newWorld.HasRegistry 0 ∧
      (newWorld.build zooHeap 0 zooRequest).1 =
        .error (.embeddingCycle ["Zoo_pen", "Zoo_pen_ape", "Zoo_pen_ape_pen"]) ∧
      (∃ schemas, zooHeap.Cycle []
        ["Zoo_pen", "Zoo_pen_ape", "Zoo_pen_ape_pen"] schemas) ∧
      (∀ schema ∈ animalHeap.reachable 0,
        ¬ Relation.TransGen animalHeap.EmbedsOther schema schema) ∧
      ∀ path, (newWorld.build animalHeap 0 animalRequest).1 ≠ .error (.embeddingCycle path) := by
  have hheld : newWorld.HasRegistry 0 := by decide
  have herror : (newWorld.build zooHeap 0 zooRequest).1 =
      .error (.embeddingCycle ["Zoo_pen", "Zoo_pen_ape", "Zoo_pen_ape_pen"]) := by
    decide +kernel
  have hacyclic : ∀ schema ∈ animalHeap.reachable 0,
      ¬ Relation.TransGen animalHeap.EmbedsOther schema schema := by
    intro schema _ hround
    have hlt : Relation.TransGen (· < ·) schema schema :=
      Relation.TransGen.mono (fun _ _ ↦ animalHeap_lt_of_embedsOther) _ _ hround
    rw [Relation.transGen_eq_self] at hlt
    exact absurd hlt (lt_irrefl schema)
  obtain ⟨hgenuine, -⟩ := embedding_cycle_is_genuine zooHeap 0 zooRequest newWorld hheld
  obtain ⟨-, schemas, -, -, -, -, -, hcycle⟩ := hgenuine _ herror
  exact ⟨hheld, herror, ⟨schemas, hcycle⟩, hacyclic,
    (embedding_cycle_is_genuine animalHeap 0 animalRequest newWorld hheld).2 hacyclic⟩

end DocumentTypes
