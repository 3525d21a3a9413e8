import DocumentTypes.CommandLine

/-!
The command line. The files that the arguments name are read, the command runs on them, and what it
printed and wrote is passed on.
-/

set_option autoImplicit false

namespace DocumentTypes.CommandLine

/-- The explanation of the usage. -/
def usage : String :=
  "Usage: docschema-gql [-v] build <SOURCE> [--only <NAME>]... [--format sdl|json] [--pretty]\n" ++
  "                          [--output <FILE>]\n" ++
  "       docschema-gql [-v] check <SOURCE> [--json]\n"

/-- What is at a place of the file system, if anything is. -/
def observe (place : String) : IO (Option FileNode) := do
  try
    return some (.file (← IO.FS.readBinFile place))
  catch e =>
    match e with
    | .inappropriateType .. => return some .directory
    | _ => return none

/-- The files and directories that a path leads through. -/
def observePath (tree : FileTree) (path : String) : IO FileTree := do
  let p := FilePath.ofText path
  let (tree, _) ← p.steps.foldlM (fun (tree, walked) step ↦ do
    let walked := FileTree.enter p.isAbsolute walked step
    let place := FileTree.place p.isAbsolute walked
    match ← observe place with
    | none => return (tree, walked)
    | some node => return (⟨tree.nodes.insert place node⟩, walked)) (tree, [])
  return tree

/-- The paths that the arguments name: the source and the output file. -/
def namedPaths (args : List String) : List String :=
  match read args with
  | .run (.build options) => options.source :: options.output.toList
  | .run (.check options) => [options.source]
  | _ => []

/-- Passes on the content of the output file, if the command wrote it. -/
def writeOutput (args : List String) (files : FileTree) : IO Unit := do
  match read args with
  | .run (.build options) =>
    match options.output with
    | none => return
    | some path =>
      match files.find path with
      | .ok (.file content) => IO.FS.writeBinFile path content
      | _ => return
  | _ => return

end DocumentTypes.CommandLine

open DocumentTypes CommandLine in
/-- Runs a command and gives its exit code. -/
def main (args : List String) : IO UInt32 := do
  let files ← (namedPaths args).foldlM observePath ⟨∅⟩
  let report := run files args
  if report.exitCode = 0 then
    try
      writeOutput args report.files
    catch fault =>
      IO.eprintln ("Error writing the output: " ++ toString fault)
      return 3
  IO.print report.output
  match report.diagnostics with
  | .usage => IO.eprint usage
  | .text text => IO.eprint text
  return report.exitCode.toUInt32
