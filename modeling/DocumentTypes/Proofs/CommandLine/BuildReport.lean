import DocumentTypes.Proofs.CommandLine.CheckedBuild
import DocumentTypes.Proofs.Document.TypeExpression
import DocumentTypes.Proofs.FileTree

/-!
What a build reports. A build that fails prints nothing and leaves all files as they are, wherever
it fails: at the source, at a declaration, at a type that is asked for but not declared, at the
fields of any type that is rendered, or at the file that is to be written
(`Report.IsSilentFailure`). One that succeeds has rendered the types that are asked for, in the
order of their declarations, and the whole text went into the output file or was printed
(`build_report`).
-/

set_option autoImplicit false

namespace DocumentTypes.CommandLine

open World

variable {files : FileTree} {options : BuildOptions} {report : Report} {w : Types}

/-- A failure that prints nothing and changes no file. -/
structure Report.IsSilentFailure (report : Report) (files : FileTree) : Prop where
  exitCode_ne_zero : report.exitCode ≠ 0
  output_eq : report.output = ""
  files_eq : report.files = files

/-- The text goes where it is meant to go, and nothing else is changed: into a file as it is, or to
the output, where a line break takes the place of the blanks at its end. -/
def Report.Delivers (report : Report) (files : FileTree) (output : Option String) (text : String) :
    Prop :=
  match output with
  | none => report.files = files ∧ ∃ body blanks, text.toList = body ++ blanks ∧
      (∀ c ∈ body.getLast?, Text.isBlank c = false) ∧ Text.IsBlankText blanks ∧
      report.output = String.ofList (body ++ ['\n'])
  | some path => report.output = "" ∧ report.files.find path = .ok (.file text.toUTF8) ∧
      ∃ place, ∀ other ≠ place, report.files.nodes.lookup? other = files.nodes.lookup? other

/-- The whole text of types: their schema, or the list of their snapshots. -/
def Renders (w : Types) (options : BuildOptions) (types : List TypeId) (text : String) : Prop :=
  match options.format with
  | .sdl => (w.sdl Outside.none types ()).1 = .ok text
  | .json => ∃ jsons, List.Forall₂ (fun type json ↦ (w.snapshot Outside.none type ()).1 = .ok json)
      types jsons ∧
      text = if options.isPretty then (Json.array jsons).prettyText else (Json.array jsons).text

/-! ### Failures -/

theorem Report.isSilentFailure_failure {exitCode : Nat} (h : exitCode ≠ 0) (text : String) :
    (Report.failure files exitCode text).IsSilentFailure files :=
  ⟨h, rfl, rfl⟩

theorem isSilentFailure_loadFailure (e : LoadError) :
    (loadFailure files false e).IsSilentFailure files := by
  unfold loadFailure
  split
  · exact Report.isSilentFailure_failure (LoadError.exitCode_ne_zero _) _
  · exact Report.isSilentFailure_failure (LoadError.exitCode_ne_zero _) _

theorem isSilentFailure_of_buildDeclared {source : String}
    (h : buildDeclared files false source = .error report) : report.IsSilentFailure files := by
  unfold buildDeclared at h
  split at h
  · cases h
    exact isSilentFailure_loadFailure _
  · split at h
    · cases h
      exact Report.isSilentFailure_failure (LoadError.exitCode_ne_zero _) _
    · cases h

/-! ### Renderings -/

theorem forall₂_of_snapshots {types : List TypeId} {jsons : List Json}
    (h : (w.snapshots Outside.none types ()).1 = .ok jsons) :
    List.Forall₂ (fun type json ↦ (w.snapshot Outside.none type ()).1 = .ok json) types jsons := by
  induction types generalizing jsons with
  | nil =>
    cases h
    exact .nil
  | cons type rest ih =>
    rw [snapshots] at h
    split at h
    · cases h
    · next json s hjson =>
      split at h
      · cases h
      · next jsons s' hjsons =>
        cases h
        exact .cons (congrArg Prod.fst hjson) (ih (congrArg Prod.fst hjsons))

theorem renders_of_render {types : List TypeId} {text : String}
    (h : render w options types = .ok text) : Renders w options types text := by
  unfold render at h
  unfold Renders
  cases hformat : options.format with
  | sdl =>
    rw [hformat] at h
    exact h
  | json =>
    rw [hformat] at h
    dsimp only at h ⊢
    cases hjsons : (w.snapshots Outside.none types ()).1 with
    | error e =>
      rw [hjsons] at h
      cases h
    | ok jsons =>
      rw [hjsons] at h
      cases h
      exact ⟨jsons, forall₂_of_snapshots hjsons, rfl⟩

/-! ### Deliveries -/

theorem deliver_cases (files : FileTree) (output : Option String) (text : String) :
    (deliver files output text).IsSilentFailure files ∨
      (deliver files output text).exitCode = 0 ∧
        (deliver files output text).Delivers files output text := by
  cases output with
  | none =>
    obtain ⟨blanks, hblanks, htext, hlast⟩ := Text.exists_trimEnd_eq text.toList
    exact Or.inr ⟨rfl, rfl, _, blanks, htext, hlast, hblanks, by simp [deliver, Report.success]⟩
  | some path =>
    rw [deliver]
    cases hwrite : files.write path text with
    | error fault => exact Or.inl (Report.isSilentFailure_failure (by decide) _)
    | ok written => exact Or.inr ⟨rfl, rfl, FileTree.find_of_write hwrite⟩

/-! ### Builds -/

/-- A build fails silently, or it delivers what is rendered of the types that are asked for. -/
theorem runBuild_cases (files : FileTree) (options : BuildOptions) :
    (runBuild files options).IsSilentFailure files ∨
      ∃ types w text, buildDeclared files false options.source = .ok (types, w) ∧
        (∀ name ∈ options.only, ∃ t ∈ types, (w.typeAt t).name = name) ∧
        Renders w options
          (types.filter fun t ↦ options.only = [] ∨ (w.typeAt t).name ∈ options.only) text ∧
        (runBuild files options).exitCode = 0 ∧
        (runBuild files options).Delivers files options.output text := by
  unfold runBuild
  cases hbuilt : buildDeclared files false options.source with
  | error report => exact Or.inl (isSilentFailure_of_buildDeclared hbuilt)
  | ok built =>
    obtain ⟨types, w⟩ := built
    dsimp only
    have hselected : (types.filter fun t ↦
        options.only.isEmpty || options.only.contains (w.typeAt t).name) =
          types.filter fun t ↦ options.only = [] ∨ (w.typeAt t).name ∈ options.only :=
      List.filter_congr fun t _ ↦ by cases options.only <;> simp
    split
    · next hnone =>
      rw [hselected]
      cases hrender : render w options
          (types.filter fun t ↦ options.only = [] ∨ (w.typeAt t).name ∈ options.only) with
      | error e => exact Or.inl (Report.isSilentFailure_failure (Nat.succ_ne_zero _) _)
      | ok text =>
        refine (deliver_cases files options.output text).imp_right fun hdelivered ↦
          ⟨types, w, text, rfl, fun name hname ↦ ?_, renders_of_render hrender, hdelivered⟩
        simpa using List.filter_eq_nil_iff.mp hnone name hname
    · exact Or.inl (Report.isSilentFailure_failure (by decide) _)

theorem run_eq_runBuild {args : List String} (hargs : read args = .run (.build options)) :
    run files args = runBuild files options := by
  unfold run
  rw [hargs]

/-- A build that fails prints nothing and leaves all files as they are. One that succeeds was asked
for declared types only, and the whole rendering of these, in the order of their declarations and of
all of them if none were asked for, was delivered. -/
theorem build_report {args : List String} (hargs : read args = .run (.build options)) :
    ((run files args).exitCode ≠ 0 →
      (run files args).output = "" ∧ (run files args).files = files) ∧
    ((run files args).exitCode = 0 →
      (∀ name ∈ options.only, name ∈ declaredNames files options.source) ∧
      ∃ definitions heap types w selected text,
        Definitions.ofSource .empty files options.source = .ok (definitions, heap) ∧
        definitions.buildAll heap 0 (World.addRegistry .empty) = (.ok types, w) ∧
        List.Forall₂ (fun declaration t ↦ w.lookup 0 declaration.name = some t)
          (definitions.types.filter fun d ↦ options.only = [] ∨ d.name ∈ options.only) selected ∧
        Renders w options selected text ∧
        (run files args).Delivers files options.output text) := by
  rw [run_eq_runBuild hargs]
  rcases runBuild_cases files options with
    hfailed | ⟨types, w, text, hbuilt, honly, hrenders, hzero, hdelivers⟩
  · exact ⟨fun _ ↦ ⟨hfailed.output_eq, hfailed.files_eq⟩, fun h ↦ absurd h hfailed.exitCode_ne_zero⟩
  refine ⟨fun h ↦ absurd hzero h, fun _ ↦ ?_⟩
  rcases buildDeclared_cases files false options.source with
    ⟨report, hreport, -⟩ | ⟨definitions, heap, types', w', hbuilt', hload, hbuild⟩
  · rw [hbuilt] at hreport
    cases hreport
  rw [hbuilt] at hbuilt'
  cases hbuilt'
  have halive : (World.addRegistry .empty : Types).HasRegistry 0 := by decide
  have hclosed : w.Closed 0 :=
    Definitions.buildEach_closed halive (closed_of_registryAt_eq_empty rfl) hbuild
  have hregistered := Definitions.buildEach_registered halive hbuild
  have hname {declaration : TypeDeclaration} {t : TypeId}
      (hlookup : w.lookup 0 declaration.name = some t) :
      (w.typeAt t).name = declaration.name := (hclosed _ t hlookup).name_eq
  refine ⟨fun name hmem ↦ ?_, definitions, heap, types, w, _, text, hload, hbuild, ?_, hrenders,
    hdelivers⟩
  · obtain ⟨t, ht, rfl⟩ := honly name hmem
    obtain ⟨declaration, hdeclaration, hlookup⟩ := exists_partner_of_mem hregistered.flip ht
    rw [declaredNames, hload, hname hlookup]
    exact List.mem_map_of_mem hdeclaration
  · refine List.rel_filter (fun declaration t hlookup ↦ ?_) hregistered
    simp [hname hlookup]

theorem deliver_node (text : String) :
    (deliver (singleFile "a" nodeText) (some "b") text).exitCode = 0 := by
  rw [deliver]
  unfold FileTree.write FileTree.reach
  rw [ofText_letter (Or.inr rfl)]
  rfl

/-- The nodes are written to a file. With a name that is not declared, nothing is. -/
theorem build_report_node :
    (run (singleFile "a" nodeText) ["build", "a", "--output=b"]).exitCode = 0 ∧
      (run (singleFile "a" nodeText) ["build", "a", "--output=b"]).output = "" ∧
      (∃ text, (run (singleFile "a" nodeText) ["build", "a", "--output=b"]).files.find "b" =
        .ok (.file (String.toUTF8 text))) ∧
      (run (singleFile "a" nodeText) ["build", "a", "--output=b", "--only=Tree"]).exitCode = 2 ∧
      (run (singleFile "a" nodeText) ["build", "a", "--output=b", "--only=Tree"]).files =
        singleFile "a" nodeText := by
  have hargs : read ["build", "a", "--output=b"] =
      .run (.build ⟨"a", [], .sdl, false, some "b"⟩) := by decide +kernel
  have hargs' : read ["build", "a", "--output=b", "--only=Tree"] =
      .run (.build ⟨"a", ["Tree"], .sdl, false, some "b"⟩) := by decide +kernel
  have hzero : (run (singleFile "a" nodeText) ["build", "a", "--output=b"]).exitCode = 0 := by
    obtain ⟨_, _, types, w, -, hbuilt, -, hrender⟩ := exists_built_of_runCheck runCheck_node
    rw [run_eq_runBuild hargs]
    exact exitCode_runBuild hbuilt (fun name hname ↦ absurd hname List.not_mem_nil) (hrender _)
      deliver_node
  have htwo : (run (singleFile "a" nodeText)
      ["build", "a", "--output=b", "--only=Tree"]).exitCode = 2 := by
    rw [run_eq_runBuild hargs']
    unfold runBuild buildDeclared
    dsimp only
    rw [ofSource_node]
    decide +kernel
  obtain ⟨-, -, _, _, _, _, _, text, -, -, -, -, houtput, hfind, -⟩ :=
    (build_report hargs).imp_right (· hzero)
  have hfiles := ((build_report hargs').1 (by rw [htwo]; decide)).2
  exact ⟨hzero, houtput, ⟨text, hfind⟩, htwo, hfiles⟩

end DocumentTypes.CommandLine
