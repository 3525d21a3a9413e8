import DocumentTypes.Proofs.CommandLine.CheckedBuild
import DocumentTypes.Proofs.Json.RoundTrip

/-!
The report of a check. A check ends in one of four ways: the source is not read, it is read but
cannot be loaded or built, the fields of some registered type fail, or none do. The exit code tells
them apart, with and without JSON (`exitCode_runCheck`). As JSON the report is one line, which reads
as an object that says the same and lists the types that fail, or all that are registered
(`check_report`).
-/

set_option autoImplicit false

namespace DocumentTypes

open World

/-- There is no text at the source. -/
inductive LoadError.IsUnread : LoadError → Prop
  | fileNotFound (path : String) : IsUnread (.fileNotFound path)
  | readError (path : String) (fault : ReadFault) : IsUnread (.readError path fault)

theorem LoadError.IsUnread.exitCode_eq {e : LoadError} (h : e.IsUnread) : e.exitCode = 3 := by
  cases h <;> rfl

theorem LoadError.exitCode_of_not_isUnread {e : LoadError} (h : ¬ e.IsUnread) :
    e.exitCode = 2 := by
  cases e with
  | fileNotFound path => exact absurd (.fileNotFound path) h
  | readError path fault => exact absurd (.readError path fault) h
  | _ => rfl

theorem DeclarationFault.not_isUnread {e : LoadError} (h : DeclarationFault e) : ¬ e.IsUnread := by
  rintro (path | ⟨path, fault⟩) <;> cases h

namespace Definitions

variable {P : Producers} {definitions : Definitions} {heap : SchemaHeap} {registry : RegistryId}
  {w w' : World P} {e : LoadError}

theorem not_isUnread_of_buildOne {declaration : TypeDeclaration}
    (h : definitions.buildOne heap registry declaration w = (.error e, w')) : ¬ e.IsUnread := by
  rcases buildOne_cases h with ⟨e', hrequest, hsame, -⟩ | ⟨request, built, -, -, hsame⟩
  · obtain rfl := Except.error.inj hsame
    exact (request_eq_error hrequest).not_isUnread
  · cases built with
    | error e' =>
      obtain rfl := Except.error.inj hsame
      rintro ⟨⟩
    | ok t => exact absurd hsame (by simp [Except.mapError])

/-- Building reads nothing. -/
theorem not_isUnread_of_buildAll
    (h : definitions.buildAll heap registry w = (.error e, w')) : ¬ e.IsUnread := by
  unfold buildAll at h
  generalize definitions.types = declarations at h
  induction declarations generalizing w with
  | nil => exact absurd h (by simp [buildEach])
  | cons declaration rest ih =>
    rcases buildEach_cons_cases h with ⟨e', hfirst, hsame⟩ | ⟨t, w₁, others, -, hrest, hsame⟩
    · obtain rfl := Except.error.inj hsame
      exact not_isUnread_of_buildOne hfirst
    · cases others with
      | error e' =>
        obtain rfl := Except.error.inj hsame
        exact ih hrest
      | ok types => exact absurd hsame (by simp [Except.map])

end Definitions

/-! ### Types whose fields fail -/

namespace World

variable {w : World .none} {registry : RegistryId}

/-- The names of a registry whose types have fields that cannot be evaluated, with the errors, in
registration order. -/
def faults (w : World .none) (registry : RegistryId) : List (String × BuildError) :=
  (w.registryAt registry).entries.filterMap fun entry ↦
    match (w.fields .none entry.2 ()).1 with
    | .ok _ => none
    | .error e => some (entry.1, e)

theorem failuresOf_eq (w : World .none) (types : List TypeId) :
    (w.failuresOf .none types ()).1 = types.filterMap fun t ↦
      match (w.fields .none t ()).1 with
      | .ok _ => none
      | .error e => some ((w.typeAt t).name, e) := by
  induction types with
  | nil => rfl
  | cons t rest ih =>
    rcases hfields : w.fields .none t () with ⟨e | fields, s⟩
    · rw [failuresOf, List.filterMap_cons]
      simp only [hfields, ih]
    · rw [failuresOf, List.filterMap_cons]
      simp only [hfields, ih]

/-- In a closed registry the failures are told under the registered names. -/
theorem failures_eq_faults (hclosed : w.Closed registry) :
    (w.failures .none registry ()).1 = w.faults registry := by
  rw [failures, failuresOf_eq, OrderedMap.values, List.filterMap_map, faults]
  refine List.filterMap_congr fun entry hentry ↦ ?_
  have hname := (hclosed entry.1 entry.2 (OrderedMap.mem_entries_iff.mp hentry)).name_eq
  simp only [Function.comp_apply, hname]

theorem mem_faults_iff {name : String} {e : BuildError} : (name, e) ∈ w.faults registry ↔
    ∃ t, w.lookup registry name = some t ∧ (w.fields .none t ()).1 = .error e := by
  rw [faults, List.mem_filterMap]
  constructor
  · rintro ⟨⟨name', t⟩, hentry, hfault⟩
    cases hfields : (w.fields .none t ()).1 with
    | ok fields => exact absurd hfault (by simp [hfields])
    | error e' =>
      simp only [hfields, Option.some.injEq, Prod.mk.injEq] at hfault
      obtain ⟨rfl, rfl⟩ := hfault
      exact ⟨t, OrderedMap.mem_entries_iff.mp hentry, hfields⟩
  · rintro ⟨t, hlookup, hfields⟩
    exact ⟨(name, t), OrderedMap.mem_entries_iff.mpr hlookup, by simp only [hfields]⟩

theorem faults_ne_nil_iff : w.faults registry ≠ [] ↔
    ∃ name t e, w.lookup registry name = some t ∧ (w.fields .none t ()).1 = .error e := by
  constructor
  · intro hfaults
    obtain ⟨⟨name, e⟩, hfault⟩ := List.exists_mem_of_ne_nil _ hfaults
    obtain ⟨t, hlookup, hfields⟩ := mem_faults_iff.mp hfault
    exact ⟨name, t, e, hlookup, hfields⟩
  · rintro ⟨name, t, e, hlookup, hfields⟩
    exact List.ne_nil_of_mem (mem_faults_iff.mpr ⟨t, hlookup, hfields⟩)

theorem faults_eq_nil_iff : w.faults registry = [] ↔
    ∀ name t, w.lookup registry name = some t → ∃ fields, (w.fields .none t ()).1 = .ok fields := by
  rw [List.eq_nil_iff_forall_not_mem]
  constructor
  · intro hnone name t hlookup
    cases hfields : (w.fields .none t ()).1 with
    | error e => exact absurd (mem_faults_iff.mpr ⟨t, hlookup, hfields⟩) (hnone (name, e))
    | ok fields => exact ⟨fields, rfl⟩
  · rintro hall ⟨name, e⟩ hfault
    obtain ⟨t, hlookup, hfields⟩ := mem_faults_iff.mp hfault
    obtain ⟨fields, hok⟩ := hall name t hlookup
    exact absurd (hfields.symm.trans hok) (by simp)

end World

/-! ### The ends of a check -/

namespace CommandLine

variable {files : FileTree} {source : String} {options : CheckOptions} {w : Types}

/-- There is no text at the source. -/
def Unread (files : FileTree) (source : String) : Prop :=
  ∃ e, Definitions.ofSource .empty files source = .error e ∧ e.IsUnread

/-- The text at the source cannot be loaded, or its types cannot be built. -/
def Unusable (files : FileTree) (source : String) : Prop :=
  (∃ e, Definitions.ofSource .empty files source = .error e ∧ ¬ e.IsUnread) ∨
    ∃ (definitions : Definitions) (heap : SchemaHeap) (e : LoadError) (w : Types),
      Definitions.ofSource .empty files source = .ok (definitions, heap) ∧
        definitions.buildAll heap 0 (World.addRegistry .empty) = (.error e, w)

/-- The document at the source is loaded, and building its types leaves the world. -/
def Builds (files : FileTree) (source : String) (w : Types) : Prop :=
  ∃ (definitions : Definitions) (heap : SchemaHeap) (types : List TypeId),
    Definitions.ofSource .empty files source = .ok (definitions, heap) ∧
      definitions.buildAll heap 0 (World.addRegistry .empty) = (.ok types, w)

/-- The types at the source are built, and the fields of some registered type fail. -/
def Faulty (files : FileTree) (source : String) : Prop :=
  ∃ w, Builds files source w ∧
    ∃ name t e, w.lookup 0 name = some t ∧ (w.fields .none t ()).1 = .error e

/-- The types at the source are built, and the fields of all registered types are evaluated. -/
def Clean (files : FileTree) (source : String) : Prop :=
  ∃ w, Builds files source w ∧
    ∀ name t, w.lookup 0 name = some t → ∃ fields, (w.fields .none t ()).1 = .ok fields

theorem Builds.closed (h : Builds files source w) : w.Closed 0 := by
  obtain ⟨definitions, heap, types, -, hbuild⟩ := h
  have halive : (World.addRegistry .empty : Types).HasRegistry 0 := by decide
  exact Definitions.buildEach_closed halive (closed_of_registryAt_eq_empty rfl) hbuild

theorem Builds.unique {w' : Types} (h : Builds files source w) (h' : Builds files source w') :
    w = w' := by
  obtain ⟨definitions, heap, types, hload, hbuild⟩ := h
  obtain ⟨definitions', heap', types', hload', hbuild'⟩ := h'
  obtain ⟨rfl, rfl⟩ := Prod.mk.inj (Except.ok.inj (hload.symm.trans hload'))
  exact (Prod.mk.inj (hbuild.symm.trans hbuild')).2

theorem Builds.faulty_or_clean (h : Builds files source w) :
    (Faulty files source ∧ w.faults 0 ≠ []) ∨ (Clean files source ∧ w.faults 0 = []) := by
  by_cases hfaults : w.faults 0 = []
  · exact Or.inr ⟨⟨w, h, faults_eq_nil_iff.mp hfaults⟩, hfaults⟩
  · exact Or.inl ⟨⟨w, h, faults_ne_nil_iff.mp hfaults⟩, hfaults⟩

theorem build_cases (files : FileTree) (source : String) :
    Unread files source ∨ Unusable files source ∨ ∃ w, Builds files source w := by
  cases hload : Definitions.ofSource .empty files source with
  | error e =>
    by_cases hunread : e.IsUnread
    · exact Or.inl ⟨e, hload, hunread⟩
    · exact Or.inr (Or.inl (Or.inl ⟨e, hload, hunread⟩))
  | ok loaded =>
    obtain ⟨definitions, heap⟩ := loaded
    rcases hbuild : definitions.buildAll heap 0 (World.addRegistry .empty) with ⟨e | types, w⟩
    · exact Or.inr (Or.inl (Or.inr ⟨definitions, heap, e, w, hload, hbuild⟩))
    · exact Or.inr (Or.inr ⟨w, definitions, heap, types, hload, hbuild⟩)

/-- A check ends in one of four ways. -/
theorem end_cases (files : FileTree) (source : String) :
    Unread files source ∨ Unusable files source ∨ Faulty files source ∨ Clean files source := by
  rcases build_cases files source with h | h | ⟨w, h⟩
  · exact Or.inl h
  · exact Or.inr (Or.inl h)
  · exact Or.inr (Or.inr (h.faulty_or_clean.imp And.left And.left))

/-- The report has the exit code. It is an object with the members, as JSON, or leaves the output
empty unless it is a success. -/
structure Report.Tells (report : Report) (asJson : Bool) (exitCode : Nat)
    (members : List (String × Json)) : Prop where
  exitCode_eq : report.exitCode = exitCode
  plain : Json.IsPlain Json.depthLimit (.object members)
  valid : members.lookup "valid" = some (.bool (decide (exitCode = 0)))
  line : asJson = true → report.output = (Json.object members).text ++ "\n"
  silent : asJson = false → exitCode ≠ 0 → report.output = ""

theorem isPlain_pair {depth : Nat} {name name' : String} {value value' : Json}
    (hnames : name ≠ name') (hvalue : Json.IsPlain depth value)
    (hvalue' : Json.IsPlain depth value') :
    Json.IsPlain (depth + 1) (.object [(name, value), (name', value')]) := by
  refine .object ?_ ?_
  · simpa using hnames
  · simpa using ⟨hvalue, hvalue'⟩

theorem tells_failureMessage (files : FileTree) (asJson : Bool) {exitCode : Nat}
    (hcode : exitCode ≠ 0) (message : String) :
    (Report.failureMessage files asJson exitCode message).Tells asJson exitCode
      [("valid", .bool false), ("error", .string message)] := by
  refine ⟨Report.exitCode_failureMessage ..,
    isPlain_pair (by decide) (.bool false) (.string message), ?_, ?_, ?_⟩
  · rw [decide_eq_false hcode]
    rfl
  · rintro rfl
    rfl
  · rintro rfl -
    rfl

/-- Entries that are objects with two texts. -/
theorem isPlain_errors {α : Type} (items : List α) {name name' : String} (hnames : name ≠ name')
    (text text' : α → String) :
    Json.IsPlain Json.depthLimit (.object [("valid", .bool false), ("errors", .array
      (items.map fun item ↦ .object [(name, .string (text item)), (name', .string (text' item))]))])
    := by
  refine isPlain_pair (by decide) (.bool false) (.array (List.forall_mem_map.mpr fun item _ ↦ ?_))
  exact isPlain_pair hnames (.string (text item)) (.string (text' item))

theorem tells_loadFailure (files : FileTree) (asJson : Bool) (e : LoadError) :
    ∃ members, (loadFailure files asJson e).Tells asJson e.exitCode members := by
  have hcode := e.exitCode_ne_zero
  cases e with
  | invalidDocument violations =>
    refine ⟨[("valid", .bool false), ("errors", .array (violations.map violationJson))],
      exitCode_loadFailure .., isPlain_errors violations (by decide) _ _, ?_, ?_, ?_⟩
    · rw [decide_eq_false hcode]
      rfl
    · rintro rfl
      rfl
    · rintro rfl -
      rfl
  | _ => exact ⟨_, tells_failureMessage files asJson hcode _⟩

theorem tells_of_unread (h : Unread files options.source) :
    ∃ members, (runCheck files options).Tells options.asJson 3 members := by
  obtain ⟨e, hload, hunread⟩ := h
  have htells := tells_loadFailure files options.asJson e
  rw [hunread.exitCode_eq] at htells
  simpa only [runCheck, buildDeclared, hload] using htells

theorem tells_of_unusable (h : Unusable files options.source) :
    ∃ members, (runCheck files options).Tells options.asJson 2 members := by
  rcases h with ⟨e, hload, hread⟩ | ⟨definitions, heap, e, w, hload, hbuild⟩
  · have htells := tells_loadFailure files options.asJson e
    rw [LoadError.exitCode_of_not_isUnread hread] at htells
    simpa only [runCheck, buildDeclared, hload] using htells
  · have htells := tells_failureMessage files options.asJson e.exitCode_ne_zero e.message
    have hcode := LoadError.exitCode_of_not_isUnread (Definitions.not_isUnread_of_buildAll hbuild)
    rw [hcode] at htells
    simp only [runCheck, buildDeclared, hload, hbuild, hcode]
    exact ⟨_, htells⟩

/-- A type whose fields fail, as it is reported. -/
def faultJson (fault : String × BuildError) : Json :=
  .object [("type", .string fault.1), ("message", .string fault.2.message)]

theorem runCheck_of_builds (h : Builds files options.source w) :
    runCheck files options =
      if w.faults 0 = [] then .success files (
          if options.asJson then (Json.object [("valid", .bool true),
            ("types", .array ((w.registryAt 0).keys.map .string))]).text ++ "\n"
          else "OK: " ++ toString (w.registryAt 0).keys.length ++ " types\n")
      else evaluationFailure files options.asJson (w.faults 0) := by
  have hclosed := h.closed
  obtain ⟨definitions, heap, types, hload, hbuild⟩ := h
  simp only [runCheck, buildDeclared, hload, hbuild, World.failures_eq_faults hclosed]
  cases w.faults 0 with
  | nil => exact (if_pos rfl).symm
  | cons fault rest => exact (if_neg (List.cons_ne_nil fault rest)).symm

theorem tells_of_faults (h : Builds files options.source w) (hfaults : w.faults 0 ≠ []) :
    (runCheck files options).Tells options.asJson 1
      [("valid", .bool false), ("errors", .array ((w.faults 0).map faultJson))] := by
  rw [runCheck_of_builds h, if_neg hfaults, evaluationFailure]
  refine ⟨?_, isPlain_errors _ (by decide) _ _, rfl, ?_, ?_⟩
  · split <;> rfl
  · intro hjson
    rw [if_pos hjson]
    rfl
  · intro hjson _
    rw [if_neg (by simp [hjson])]
    rfl

theorem tells_of_no_faults (h : Builds files options.source w) (hfaults : w.faults 0 = []) :
    (runCheck files options).Tells options.asJson 0
      [("valid", .bool true), ("types", .array ((w.registryAt 0).keys.map .string))] := by
  rw [runCheck_of_builds h, if_pos hfaults]
  refine ⟨rfl, isPlain_pair (by decide) (.bool true)
    (.array (List.forall_mem_map.mpr fun name _ ↦ .string name)), rfl, ?_, ?_⟩
  · intro hjson
    simp only [hjson, if_true]
    rfl
  · intro _ hcode
    exact absurd rfl hcode

/-- The ends of a check have different exit codes, with and without JSON. Some end is reached, so
each code is that of one end only. -/
theorem exitCode_runCheck (files : FileTree) (options : CheckOptions) :
    ((runCheck files options).exitCode = 3 ↔ Unread files options.source) ∧
      ((runCheck files options).exitCode = 2 ↔ Unusable files options.source) ∧
      ((runCheck files options).exitCode = 1 ↔ Faulty files options.source) ∧
      ((runCheck files options).exitCode = 0 ↔ Clean files options.source) := by
  have hunread : Unread files options.source → (runCheck files options).exitCode = 3 :=
    fun h ↦ (tells_of_unread h).elim fun _ htells ↦ htells.exitCode_eq
  have hunusable : Unusable files options.source → (runCheck files options).exitCode = 2 :=
    fun h ↦ (tells_of_unusable h).elim fun _ htells ↦ htells.exitCode_eq
  have hfaulty : Faulty files options.source → (runCheck files options).exitCode = 1 :=
    fun ⟨w, hbuilds, hfaults⟩ ↦
      (tells_of_faults hbuilds (faults_ne_nil_iff.mpr hfaults)).exitCode_eq
  have hclean : Clean files options.source → (runCheck files options).exitCode = 0 :=
    fun ⟨w, hbuilds, hfaults⟩ ↦
      (tells_of_no_faults hbuilds (faults_eq_nil_iff.mpr hfaults)).exitCode_eq
  have hends := end_cases files options.source
  grind

/-- The exit code does not depend on how the report is printed. -/
theorem exitCode_runCheck_asJson (files : FileTree) (source : String) (asJson : Bool) :
    (runCheck files ⟨source, asJson⟩).exitCode = (runCheck files ⟨source, true⟩).exitCode := by
  obtain ⟨hunread, hunusable, hfaulty, hclean⟩ := exitCode_runCheck files ⟨source, asJson⟩
  obtain ⟨hunread', hunusable', hfaulty', hclean'⟩ := exitCode_runCheck files ⟨source, true⟩
  rcases end_cases files source with h | h | h | h
  · rw [hunread.mpr h, hunread'.mpr h]
  · rw [hunusable.mpr h, hunusable'.mpr h]
  · rw [hfaulty.mpr h, hfaulty'.mpr h]
  · rw [hclean.mpr h, hclean'.mpr h]

/-- What a check tells: its exit code, and what its end calls for. -/
theorem exists_tells (files : FileTree) (options : CheckOptions) :
    ∃ members, (runCheck files options).Tells options.asJson (runCheck files options).exitCode
        members ∧
      ((runCheck files options).exitCode = 1 → ∀ w, Builds files options.source w →
        members.lookup "errors" = some (.array ((w.faults 0).map faultJson))) ∧
      ((runCheck files options).exitCode = 0 → ∀ w, Builds files options.source w →
        members.lookup "types" = some (.array ((w.registryAt 0).keys.map .string))) := by
  rcases build_cases files options.source with h | h | ⟨w, hbuilds⟩
  · obtain ⟨members, htells⟩ := tells_of_unread h
    rw [htells.exitCode_eq]
    exact ⟨members, htells, fun hcode ↦ absurd hcode (by decide),
      fun hcode ↦ absurd hcode (by decide)⟩
  · obtain ⟨members, htells⟩ := tells_of_unusable h
    rw [htells.exitCode_eq]
    exact ⟨members, htells, fun hcode ↦ absurd hcode (by decide),
      fun hcode ↦ absurd hcode (by decide)⟩
  rcases hbuilds.faulty_or_clean with ⟨-, hfaults⟩ | ⟨-, hfaults⟩
  · have htells := tells_of_faults hbuilds hfaults
    rw [htells.exitCode_eq]
    refine ⟨_, htells, fun _ w' hbuilds' ↦ ?_, fun hcode ↦ absurd hcode (by decide)⟩
    rw [hbuilds'.unique hbuilds]
    rfl
  · have htells := tells_of_no_faults hbuilds hfaults
    rw [htells.exitCode_eq]
    refine ⟨_, htells, fun hcode ↦ absurd hcode (by decide), fun _ w' hbuilds' ↦ ?_⟩
    rw [hbuilds'.unique hbuilds]
    rfl

/-- A check of a source as JSON prints one line. It reads as a JSON object, whose member `valid`
says whether the exit code is zero. The exit code is three when there is no text at the source, two
when the text cannot be loaded or built, one when some registered type has fields that fail, and
zero otherwise. With exit code one the object lists these types, in registration order, with their
errors, and with exit code zero the names of all registered types. Without JSON the exit code is the
same, and nothing is printed unless it is zero. -/
theorem check_report (files : FileTree) {jsonArgs plainArgs : List String} {source : String}
    (hjson : read jsonArgs = .run (.check ⟨source, true⟩))
    (hplain : read plainArgs = .run (.check ⟨source, false⟩)) :
    (∃ line members, (run files jsonArgs).output = line ++ "\n" ∧ '\n' ∉ line.toList ∧
      Json.read line = .ok (.object members) ∧
      members.lookup "valid" = some (.bool (decide ((run files jsonArgs).exitCode = 0))) ∧
      ((run files jsonArgs).exitCode = 1 → ∀ w, Builds files source w →
        members.lookup "errors" = some (.array ((w.faults 0).map faultJson))) ∧
      ((run files jsonArgs).exitCode = 0 → ∀ w, Builds files source w →
        members.lookup "types" = some (.array ((w.registryAt 0).keys.map .string)))) ∧
    ((run files jsonArgs).exitCode = 3 ↔ Unread files source) ∧
    ((run files jsonArgs).exitCode = 2 ↔ Unusable files source) ∧
    ((run files jsonArgs).exitCode = 1 ↔ Faulty files source) ∧
    ((run files jsonArgs).exitCode = 0 ↔ Clean files source) ∧
    (run files plainArgs).exitCode = (run files jsonArgs).exitCode ∧
    ((run files plainArgs).exitCode ≠ 0 → (run files plainArgs).output = "") := by
  have hrunJson : run files jsonArgs = runCheck files ⟨source, true⟩ := by
    unfold run
    rw [hjson]
  have hrunPlain : run files plainArgs = runCheck files ⟨source, false⟩ := by
    unfold run
    rw [hplain]
  rw [hrunJson, hrunPlain]
  obtain ⟨hunread, hunusable, hfaulty, hclean⟩ := exitCode_runCheck files ⟨source, true⟩
  refine ⟨?_, hunread, hunusable, hfaulty, hclean, exitCode_runCheck_asJson files source false, ?_⟩
  · obtain ⟨members, htells, herrors, htypes⟩ := exists_tells files ⟨source, true⟩
    exact ⟨(Json.object members).text, members, htells.line rfl,
      Json.newline_notMem_text htells.plain, Json.read_text htells.plain, htells.valid, herrors,
      htypes⟩
  · obtain ⟨members, htells, -⟩ := exists_tells files ⟨source, false⟩
    exact htells.silent rfl

/-- Dogs at home with their keepers, who are declared nowhere. -/
def kennelDocument : Json :=
  .object [("schemas", .object
      [("Dog", .object
        [("name", .string "String"), ("home", .object [("schema", .string "Home")])]),
      ("Home", .object [("keeper", .object [("ref", .string "Person")])])]),
    ("types", .array
      [.object [("name", .string "Dog"), ("schema", .string "Dog"), ("class", .string "object")]])]

theorem isPlain_kennelDocument : Json.IsPlain Json.depthLimit kennelDocument := by
  have hfield {depth : Nat} (name text : String) :
      Json.IsPlain (depth + 1) (.object [(name, .string text)]) :=
    .object (List.nodup_singleton name) (by simp [Json.IsPlain.string])
  have hdeclaration : Json.IsPlain 125 (.object [("name", .string "Dog"), ("schema", .string "Dog"),
      ("class", .string "object")]) :=
    .object (by decide) (by simp [Json.IsPlain.string])
  refine isPlain_pair (by decide) (isPlain_pair (by decide) ?_ ?_) (.array ?_)
  · exact isPlain_pair (by decide) (.string "String") (hfield "schema" "Home")
  · exact .object (List.nodup_singleton _) (by simpa using hfield "ref" "Person")
  · exact List.forall_mem_singleton.mpr hdeclaration

theorem ofSource_kennel :
    Definitions.ofSource .empty (singleFile "a" kennelDocument.text) "a" =
      Definitions.ofJson .empty kennelDocument := by
  have hurl : isUrl "a" = false := by decide +kernel
  simp only [Definitions.ofSource, hurl, Definitions.ofFile, readText_singleFile,
    Definitions.ofText, Json.read_text isPlain_kennelDocument]
  rfl

/-- The dogs are built, and the homes that are nested in them fail. -/
theorem builds_kennel :
    ∃ w, Builds (singleFile "a" kennelDocument.text) "a" w ∧
      w.faults 0 = [("Dog_home", .unresolvedReference "Person" "Dog_home")] := by
  have hresult : (Definitions.ofJson .empty kennelDocument).map (fun loaded ↦
      ((loaded.1.buildAll loaded.2 0 (World.addRegistry .empty : Types)).1,
        (loaded.1.buildAll loaded.2 0 (World.addRegistry .empty : Types)).2.faults 0)) =
      .ok (.ok [1], [("Dog_home", .unresolvedReference "Person" "Dog_home")]) := by
    with_unfolding_all rfl
  obtain ⟨definitions, heap, hload, hresult⟩ := Definitions.exists_of_map_ofJson hresult
  obtain ⟨htypes, hfaults⟩ := Prod.mk.inj hresult
  exact ⟨_, ⟨definitions, heap, [1], ofSource_kennel.trans hload, Prod.ext htypes rfl⟩, hfaults⟩

/-- The check of the dogs tells that their homes fail, for want of the keepers. -/
theorem check_report_kennel :
    ∃ line members, (run (singleFile "a" kennelDocument.text) ["check", "a", "--json"]).output =
        line ++ "\n" ∧ Json.read line = .ok (.object members) ∧
      members.lookup "valid" = some (.bool false) ∧
      members.lookup "errors" =
        some (.array [faultJson ("Dog_home", .unresolvedReference "Person" "Dog_home")]) ∧
      (run (singleFile "a" kennelDocument.text) ["check", "a"]).exitCode = 1 ∧
      (run (singleFile "a" kennelDocument.text) ["check", "a"]).output = "" := by
  have hjsonArgs : read ["check", "a", "--json"] = .run (.check ⟨"a", true⟩) := by decide +kernel
  have hplainArgs : read ["check", "a"] = .run (.check ⟨"a", false⟩) := by decide +kernel
  obtain ⟨w, hbuilds, hfaults⟩ := builds_kennel
  have hfaulty : Faulty (singleFile "a" kennelDocument.text) "a" :=
    ⟨w, hbuilds, faults_ne_nil_iff.mp (by rw [hfaults]; exact List.cons_ne_nil _ _)⟩
  obtain ⟨⟨line, members, houtput, -, hread, hvalid, herrors, -⟩, -, -, hone, -, hsame, hsilent⟩ :=
    check_report (singleFile "a" kennelDocument.text) hjsonArgs hplainArgs
  have hcode := hone.mpr hfaulty
  rw [hcode] at hvalid hsame
  refine ⟨line, members, houtput, hread, hvalid, ?_, hsame, hsilent ?_⟩
  · rw [herrors hcode w hbuilds, hfaults]
    rfl
  · rw [hsame]
    decide

end CommandLine

end DocumentTypes
