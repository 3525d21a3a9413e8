import DocumentTypes.CommandLine.Arguments
import DocumentTypes.Render.Sdl
import DocumentTypes.Render.Snapshot
import DocumentTypes.Source

/-!
The commands, as functions from files to what is printed and written. A command that fails writes
nothing: everything is rendered before anything is printed or put into a file.
-/

set_option autoImplicit false

namespace DocumentTypes.CommandLine

/-- What goes to the diagnostic output: an explanation of the usage, or some text. -/
inductive Diagnostics where
  | usage
  | text (text : String)
deriving DecidableEq, Repr

/-- The outcome of a command. -/
structure Report where
  exitCode : Nat
  output : String
  diagnostics : Diagnostics
  files : FileTree

namespace Report

/-- A success that prints some text. -/
def success (files : FileTree) (output : String) : Report :=
  ⟨0, output, .text "", files⟩

/-- A failure that explains itself on the diagnostic output. -/
def failure (files : FileTree) (exitCode : Nat) (text : String) : Report :=
  ⟨exitCode, "", .text text, files⟩

/-- A failure that explains itself by a JSON value on the output. -/
def jsonFailure (files : FileTree) (exitCode : Nat) (value : Json) : Report :=
  ⟨exitCode, value.text ++ "\n", .text "", files⟩

/-- A failure with a message, as text or as JSON. -/
def failureMessage (files : FileTree) (asJson : Bool) (exitCode : Nat) (message : String) :
    Report :=
  if asJson then
    jsonFailure files exitCode (.object [("valid", .bool false), ("error", .string message)])
  else failure files exitCode ("Error: " ++ message ++ "\n")

end Report

/-- A violation as JSON. -/
def violationJson (v : Violation) : Json :=
  .object [("path", .string v.path.text), ("message", .string v.message)]

/-- The report of a document that cannot be used. -/
def loadFailure (files : FileTree) (asJson : Bool) (e : LoadError) : Report :=
  match e with
  | .invalidDocument violations =>
    if asJson then
      .jsonFailure files e.exitCode
        (.object [("valid", .bool false), ("errors", .array (violations.map violationJson))])
    else
      .failure files e.exitCode ("Invalid definitions document:\n" ++
        String.join (violations.map fun v ↦ "  " ++ v.text ++ "\n"))
  | _ => .failureMessage files asJson e.exitCode e.message

/-- The types that a command works on. -/
abbrev Types := World .none

/-- Loads the document at a source and builds its types in a new registry, which is at place zero.
-/
def buildDeclared (files : FileTree) (asJson : Bool) (source : String) :
    Except Report (List TypeId × Types) :=
  match Definitions.ofSource .empty files source with
  | .error e => .error (loadFailure files asJson e)
  | .ok (definitions, heap) =>
    match definitions.buildAll heap 0 (World.addRegistry .empty) with
    | (.error e, _) => .error (.failureMessage files asJson e.exitCode e.message)
    | (.ok types, w) => .ok (types, w)

/-- The text of the selected types. -/
def render (w : Types) (options : BuildOptions) (types : List TypeId) :
    Except BuildError String :=
  match options.format with
  | .sdl => (w.sdl .none types ()).1
  | .json =>
    (w.snapshots .none types ()).1.map fun jsons ↦
      if options.isPretty then (Json.array jsons).prettyText else (Json.array jsons).text

/-- Puts a text into the output file, or prints it with the blanks at its end replaced by a line
break. -/
def deliver (files : FileTree) (output : Option String) (text : String) : Report :=
  match output with
  | none => .success files (String.ofList (Text.trimEnd text.toList) ++ "\n")
  | some path =>
    match files.write path text with
    | .error fault =>
      .failure files 3 ("Error writing to " ++ path ++ ": " ++ fault.message ++ "\n")
    | .ok files => .success files ""

/-- Builds the declared types and renders those that are asked for. -/
def runBuild (files : FileTree) (options : BuildOptions) : Report :=
  match buildDeclared files false options.source with
  | .error report => report
  | .ok (types, w) =>
    let isDeclared (name : String) := types.any fun type ↦ (w.typeAt type).name = name
    match options.only.filter fun name ↦ !isDeclared name with
    | [] =>
      let isSelected (type : TypeId) :=
        options.only.isEmpty || options.only.contains (w.typeAt type).name
      match render w options (types.filter isSelected) with
      | .error e => .failureMessage files false e.exitCode e.message
      | .ok text => deliver files options.output text
    | undeclared =>
      .failureMessage files false 2
        ("--only names undeclared type(s): " ++ ", ".intercalate undeclared)

/-- The report of types whose fields cannot be evaluated. -/
def evaluationFailure (files : FileTree) (asJson : Bool)
    (failures : List (String × BuildError)) : Report :=
  if asJson then
    .jsonFailure files 1 (.object [("valid", .bool false),
      ("errors", .array (failures.map fun failure ↦
        .object [("type", .string failure.1), ("message", .string failure.2.message)]))])
  else
    .failure files 1 ("Field evaluation failed:\n" ++
      String.join (failures.map fun failure ↦
        "  " ++ failure.1 ++ ": " ++ failure.2.message ++ "\n"))

/-- Builds the declared types and evaluates the fields of every registered one. -/
def runCheck (files : FileTree) (options : CheckOptions) : Report :=
  match buildDeclared files options.asJson options.source with
  | .error report => report
  | .ok (_, w) =>
    match (w.failures .none 0 ()).1 with
    | [] =>
      let names := (w.registryAt 0).keys
      .success files (
        if options.asJson then
          (Json.object [("valid", .bool true), ("types", .array (names.map .string))]).text ++ "\n"
        else "OK: " ++ toString names.length ++ " types\n")
    | failures => evaluationFailure files options.asJson failures

/-- Runs the command that the arguments ask for. -/
def run (files : FileTree) (args : List String) : Report :=
  match read args with
  | .run (.build options) => runBuild files options
  | .run (.check options) => runCheck files options
  | .version => .success files "docschema-gql 0.1.0\n"
  | .help => ⟨0, "", .usage, files⟩
  | .misuse => ⟨2, "", .usage, files⟩

end DocumentTypes.CommandLine
