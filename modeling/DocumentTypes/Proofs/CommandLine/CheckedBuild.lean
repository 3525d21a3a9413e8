import DocumentTypes.CommandLine
import DocumentTypes.Proofs.Build.Declarations
import DocumentTypes.Proofs.Render.Evaluable

/-!
A source that passes `check` can be built and printed. What fails to load or to build is reported
with another exit code than zero (`buildDeclared_cases`), so a check that succeeds has built the
declared types and evaluated the fields of every registered type (`of_runCheck_exitCode`). The
registry is closed: what the registered types lead to is registered too, and nothing on the way
fails to be evaluated (`World.evaluable_of_failures`). So both renderings succeed, for the declared
types and for any of them that are asked for (`build_succeeds_of_check`).
-/

set_option autoImplicit false

namespace DocumentTypes

open World

theorem LoadError.exitCode_ne_zero (e : LoadError) : e.exitCode ≠ 0 := by
  cases e with
  | build error => exact Nat.succ_ne_zero 1
  | _ => exact Nat.succ_ne_zero _

/-- Types of which none fails to be evaluated have fields. -/
theorem World.exists_fields_of_failuresOf {P : Producers} {w : World P} {outside : Outside P Unit}
    {types : List TypeId} (h : (w.failuresOf outside types ()).1 = []) :
    ∀ t ∈ types, ∃ fields, w.fields outside t () = (.ok fields, ()) := by
  induction types with
  | nil => exact fun t ht ↦ absurd ht List.not_mem_nil
  | cons type rest ih =>
    unfold failuresOf at h
    split at h
    · next fields s hfields => exact List.forall_mem_cons.mpr ⟨⟨fields, hfields⟩, ih h⟩
    · exact absurd h (by simp)

/-- The types of a closed registry can all be evaluated, with what they lead to, when none of them
fails. -/
theorem World.evaluable_of_failures {P : Producers} {w : World P} {outside : Outside P Unit}
    {registry : RegistryId} (hclosed : w.Closed registry)
    (h : (w.failures outside registry ()).1 = []) :
    w.Evaluable outside (w.IsRegistered registry) := by
  rintro t ⟨name, hname⟩ ⟨⟩
  obtain ⟨fields, hfields⟩ :=
    exists_fields_of_failuresOf h t (OrderedMap.mem_values_iff.mpr ⟨name, hname⟩)
  refine ⟨fields, (), hfields, ?_⟩
  rcases (hclosed name t hname).fields_cases ⟨name, hname⟩ outside () with
    ⟨e, hfailed, -⟩ | ⟨fields', hfields', hregistered⟩
  · exact absurd (hfields.symm.trans hfailed) (by simp)
  · obtain ⟨hok, -⟩ := Prod.mk.inj (hfields.symm.trans hfields')
    obtain rfl := Except.ok.inj hok
    exact hregistered

namespace CommandLine

variable {files : FileTree} {source : String}

/-- The names of the types that the document at a source declares. -/
def declaredNames (files : FileTree) (source : String) : List String :=
  match Definitions.ofSource .empty files source with
  | .error _ => []
  | .ok (definitions, _) => definitions.types.map TypeDeclaration.name

theorem Report.exitCode_failureMessage (files : FileTree) (asJson : Bool) (exitCode : Nat)
    (message : String) :
    (Report.failureMessage files asJson exitCode message).exitCode = exitCode := by
  cases asJson <;> rfl

theorem exitCode_loadFailure (files : FileTree) (asJson : Bool) (e : LoadError) :
    (loadFailure files asJson e).exitCode = e.exitCode := by
  unfold loadFailure
  split
  · cases asJson <;> rfl
  · exact Report.exitCode_failureMessage ..

/-- What building the declared types gives: a report of a failure, or what the definitions of the
source are built to. -/
theorem buildDeclared_cases (files : FileTree) (asJson : Bool) (source : String) :
    (∃ report, buildDeclared files asJson source = .error report ∧ report.exitCode ≠ 0) ∨
      ∃ definitions heap types w, buildDeclared files asJson source = .ok (types, w) ∧
        Definitions.ofSource .empty files source = .ok (definitions, heap) ∧
        definitions.buildAll heap 0 (World.addRegistry .empty) = (.ok types, w) := by
  unfold buildDeclared
  cases hload : Definitions.ofSource .empty files source with
  | error e =>
    refine Or.inl ⟨_, rfl, ?_⟩
    rw [exitCode_loadFailure]
    exact e.exitCode_ne_zero
  | ok loaded =>
    obtain ⟨definitions, heap⟩ := loaded
    dsimp only
    rcases hbuild : definitions.buildAll heap 0 (World.addRegistry .empty) with ⟨e | types, w⟩
    · refine Or.inl ⟨_, rfl, ?_⟩
      rw [Report.exitCode_failureMessage]
      exact e.exitCode_ne_zero
    · exact Or.inr ⟨definitions, heap, types, w, rfl, rfl, hbuild⟩

/-- A check that succeeds has built the declared types, and the fields of no registered type fail.
-/
theorem of_runCheck_exitCode {options : CheckOptions}
    (h : (runCheck files options).exitCode = 0) :
    ∃ definitions heap types w,
      Definitions.ofSource .empty files options.source = .ok (definitions, heap) ∧
      definitions.buildAll heap 0 (World.addRegistry .empty) = (.ok types, w) ∧
      (w.failures Outside.none 0 ()).1 = [] := by
  unfold runCheck at h
  rcases buildDeclared_cases files options.asJson options.source with
    ⟨report, hreport, hfailed⟩ | ⟨definitions, heap, types, w, hbuilt, hload, hbuild⟩
  · rw [hreport] at h
    exact absurd h hfailed
  · rw [hbuilt] at h
    refine ⟨definitions, heap, types, w, hload, hbuild, ?_⟩
    dsimp only at h
    split at h
    · assumption
    · unfold evaluationFailure at h
      split at h
      · exact absurd h (Nat.succ_ne_zero 0)
      · exact absurd h (Nat.succ_ne_zero 0)

theorem render_ok {w : Types} {R : TypeId → Prop} (hR : w.Evaluable Outside.none R)
    (options : BuildOptions) {types : List TypeId} (htypes : ∀ t ∈ types, R t) :
    ∃ text, render w options types = .ok text := by
  unfold render
  cases options.format with
  | sdl =>
    obtain ⟨text, s, htext⟩ := sdl_ok hR htypes ()
    exact ⟨text, congrArg Prod.fst htext⟩
  | json =>
    obtain ⟨jsons, s, hjsons⟩ := snapshots_ok hR types htypes ()
    rw [hjsons]
    exact ⟨_, rfl⟩

/-- A build succeeds when the types that are asked for are among those that were built, any of these
can be rendered, and every text can be delivered. -/
theorem exitCode_runBuild {options : BuildOptions} {types : List TypeId} {w : Types}
    (hbuilt : buildDeclared files false options.source = .ok (types, w))
    (hdeclared : ∀ name ∈ options.only, types.any (fun t ↦ (w.typeAt t).name = name) = true)
    (hrender : ∀ selected ⊆ types, ∃ text, render w options selected = .ok text)
    (hdeliver : ∀ text, (deliver files options.output text).exitCode = 0) :
    (runBuild files options).exitCode = 0 := by
  have hnone : options.only.filter
      (fun name ↦ !types.any fun t ↦ (w.typeAt t).name = name) = [] := by
    rw [List.filter_eq_nil_iff]
    intro name hname hmissing
    rw [hdeclared name hname] at hmissing
    exact absurd hmissing (by simp)
  obtain ⟨text, htext⟩ := hrender (types.filter fun t ↦
    options.only.isEmpty || options.only.contains (w.typeAt t).name) List.filter_sublist.subset
  unfold runBuild
  simp only [hbuilt, hnone, htext]
  exact hdeliver text

/-- A source that passes a check is built to types for its declarations, one by one and under their
names, and any of them can be rendered. -/
theorem exists_built_of_runCheck {options : CheckOptions}
    (h : (runCheck files options).exitCode = 0) :
    ∃ definitions heap types w,
      Definitions.ofSource .empty files options.source = .ok (definitions, heap) ∧
      buildDeclared files false options.source = .ok (types, w) ∧
      List.Forall₂ (fun declaration t ↦ (w.typeAt t).name = declaration.name)
        definitions.types types ∧
      ∀ build, ∀ selected ⊆ types, ∃ text, render w build selected = .ok text := by
  obtain ⟨definitions, heap, types, w, hload, hbuild, hfailures⟩ := of_runCheck_exitCode h
  have halive : (World.addRegistry .empty : Types).HasRegistry 0 := by decide
  have hempty : (World.addRegistry .empty : Types).registryAt 0 = ∅ := rfl
  have hclosed : w.Closed 0 :=
    Definitions.buildEach_closed halive (closed_of_registryAt_eq_empty hempty) hbuild
  have hregistered := Definitions.buildEach_registered halive hbuild
  have htypes : ∀ t ∈ types, w.IsRegistered 0 t := by
    intro t ht
    obtain ⟨declaration, -, hlookup⟩ := exists_partner_of_mem hregistered.flip ht
    exact ⟨declaration.name, hlookup⟩
  have hbuilt : buildDeclared files false options.source = .ok (types, w) := by
    unfold buildDeclared
    simp only [hload, hbuild]
  exact ⟨definitions, heap, types, w, hload, hbuilt,
    hregistered.imp fun declaration t hlookup ↦ (hclosed _ t hlookup).name_eq,
    fun build selected hselected ↦ render_ok (evaluable_of_failures hclosed hfailures) build
      fun t ht ↦ htypes t (hselected ht)⟩

/-- If a check of a source succeeds, a build of the source that prints what it renders succeeds, in
both formats, pretty or not, and for all lists of types to print that the document declares. -/
theorem build_succeeds_of_check {checkArgs buildArgs : List String} {check : CheckOptions}
    {build : BuildOptions} (hcheckArgs : read checkArgs = .run (.check check))
    (hbuildArgs : read buildArgs = .run (.build build)) (hsource : build.source = check.source)
    (houtput : build.output = none) (honly : build.only ⊆ declaredNames files build.source)
    (hcheck : (run files checkArgs).exitCode = 0) : (run files buildArgs).exitCode = 0 := by
  have hrunCheck : run files checkArgs = runCheck files check := by
    unfold run
    rw [hcheckArgs]
  have hrunBuild : run files buildArgs = runBuild files build := by
    unfold run
    rw [hbuildArgs]
  rw [hrunCheck] at hcheck
  rw [hrunBuild]
  obtain ⟨definitions, heap, types, w, hload, hbuilt, hnames, hrender⟩ :=
    exists_built_of_runCheck hcheck
  rw [← hsource] at hload hbuilt
  refine exitCode_runBuild hbuilt (fun name hname ↦ ?_) (hrender build) fun text ↦ ?_
  · have hmem := honly hname
    rw [declaredNames, hload] at hmem
    obtain ⟨declaration, hdeclaration, rfl⟩ := List.mem_map.mp hmem
    obtain ⟨t, ht, hname⟩ := exists_partner_of_mem hnames hdeclaration
    exact List.any_eq_true.mpr ⟨t, ht, decide_eq_true hname⟩
  · rw [houtput]
    rfl

/-- Nodes that embed nodes, as a text. -/
def nodeText : String :=
  "\x7b\"schemas\":\x7b\"S\":\x7b\"next\":\x7b\"schema\":\"S\"\x7d\x7d\x7d," ++
    "\"types\":[\x7b\"name\":\"Node\",\"schema\":\"S\",\"class\":\"object\"\x7d]\x7d"

def nodeDocument : Json :=
  .object [("schemas", .object [("S", .object [("next", .object [("schema", .string "S")])])]),
    ("types", .array
      [.object [("name", .string "Node"), ("schema", .string "S"), ("class", .string "object")]])]

/-- A tree with nothing but a file that has a text. -/
def singleFile (path text : String) : FileTree :=
  ⟨.ofList [(path, .file text.toUTF8)]⟩

/-- A letter is a path of one step. -/
theorem ofText_letter {letter : String} (h : letter = "a" ∨ letter = "b") :
    FilePath.ofText letter = ⟨false, [letter], false⟩ := by
  have hsteps : letter.splitOn "/" = [letter] := by
    rcases h with rfl | rfl
    all_goals
      rw [String.splitOn, if_neg (by decide), String.splitOnAux, if_neg (by decide +kernel),
        if_neg (by decide +kernel), String.splitOnAux, if_pos (by decide +kernel)]
      decide +kernel
  rw [FilePath.ofText, hsteps]
  rcases h with rfl | rfl <;> decide +kernel

theorem readText_singleFile (text : String) : (singleFile "a" text).readText "a" = .ok text := by
  have hfind (content : ByteArray) :
      FileTree.find ⟨.ofList [("a", .file content)]⟩ "a" = .ok (.file content) := by
    unfold FileTree.find FileTree.reach
    rw [ofText_letter (Or.inl rfl)]
    rfl
  have htext : String.fromUTF8? text.toUTF8 = some text := by
    simp [String.fromUTF8?, String.fromUTF8, String.isValidUTF8]
  unfold singleFile FileTree.readText
  rw [hfind]
  dsimp only
  rw [htext]

theorem ofSource_node :
    Definitions.ofSource .empty (singleFile "a" nodeText) "a" =
      Definitions.ofJson .empty nodeDocument := by
  have hurl : isUrl "a" = false := by decide +kernel
  have hjson : Json.read nodeText = .ok nodeDocument := by with_unfolding_all rfl
  simp only [Definitions.ofSource, hurl, Definitions.ofFile, readText_singleFile,
    Definitions.ofText, hjson]
  rfl

theorem runCheck_node : (runCheck (singleFile "a" nodeText) ⟨"a", false⟩).exitCode = 0 := by
  unfold runCheck buildDeclared
  dsimp only
  rw [ofSource_node]
  decide +kernel

/-- The check of the nodes succeeds, and so does the build of the nodes alone. -/
theorem build_succeeds_of_check_node :
    (run (singleFile "a" nodeText) ["check", "a"]).exitCode = 0 ∧
      (run (singleFile "a" nodeText) ["build", "a", "--format=json", "--only=Node"]).exitCode =
        0 := by
  have hcheckArgs : read ["check", "a"] = .run (.check ⟨"a", false⟩) := by decide +kernel
  have hbuildArgs : read ["build", "a", "--format=json", "--only=Node"] =
      .run (.build ⟨"a", ["Node"], .json, false, none⟩) := by decide +kernel
  have hdeclared : declaredNames (singleFile "a" nodeText) "a" = ["Node"] := by
    unfold declaredNames
    rw [ofSource_node]
    decide +kernel
  have honly : ["Node"] ⊆ declaredNames (singleFile "a" nodeText) "a" := by
    rw [hdeclared]
    exact List.Subset.refl _
  have hcheck : (run (singleFile "a" nodeText) ["check", "a"]).exitCode = 0 := by
    unfold run
    rw [hcheckArgs]
    exact runCheck_node
  exact ⟨hcheck, build_succeeds_of_check hcheckArgs hbuildArgs rfl rfl honly hcheck⟩

end CommandLine

end DocumentTypes
