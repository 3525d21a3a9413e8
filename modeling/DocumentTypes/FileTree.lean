import DocumentTypes.OrderedMap

/-!
Files and directories by path. Paths are followed step by step, so a step through something that is
no directory is told apart from a name that does not exist.
-/

set_option autoImplicit false

namespace DocumentTypes

/-- A path: its steps, whether they start at the root of all files, and whether a slash at the end
asks for a directory. -/
structure FilePath where
  isAbsolute : Bool
  steps : List String
  asksDirectory : Bool
deriving DecidableEq, Repr

/-- Reads a path. Repeated slashes count as one. -/
def FilePath.ofText (text : String) : FilePath where
  isAbsolute := text.startsWith "/"
  steps := (text.splitOn "/").filter (· ≠ "")
  asksDirectory := text.endsWith "/"

inductive FileNode where
  | directory
  | file (content : ByteArray)

/-- Why a path does not lead to a place. -/
inductive PathFault where
  | absent
  | notDirectory
  | isDirectory
  | nameTooLong
deriving DecidableEq, Repr

def PathFault.message : PathFault → String
  | absent => "No such file or directory (os error 2)"
  | notDirectory => "Not a directory (os error 20)"
  | isDirectory => "Is a directory (os error 21)"
  | nameTooLong => "File name too long (os error 36)"

/-- How many bytes a step may have. -/
def stepLimit : Nat := 255

/-- How many bytes a path may have. -/
def pathLimit : Nat := 4095

/-- Files and directories by place: the steps from the root or from the working directory, joined
by slashes. -/
structure FileTree where
  nodes : OrderedMap FileNode

namespace FileTree

/-- The place that some steps lead to. -/
def place (isAbsolute : Bool) (steps : List String) : String :=
  (if isAbsolute then "/" else "") ++ "/".intercalate steps

/-- What is at a place. The root, the working directory and those around it are always there. -/
def nodeAt (tree : FileTree) (isAbsolute : Bool) (steps : List String) : Option FileNode :=
  if steps.all (· = "..") then some .directory else tree.nodes.lookup? (place isAbsolute steps)

/-- Takes one step from a directory. A single dot stays there and two dots lead out of it; nothing
is outside the root. -/
def enter (isAbsolute : Bool) (walked : List String) (step : String) : List String :=
  if step = "." then walked
  else if step ≠ ".." then walked ++ [step]
  else if walked.all (· = "..") then if isAbsolute then walked else walked ++ [step]
  else walked.dropLast

/-- Follows steps. Every step is taken from a directory; the last one may lead to nothing. -/
def follow (tree : FileTree) (isAbsolute : Bool) (walked : List String) :
    List String → Except PathFault (List String)
  | [] => .ok walked
  | step :: rest =>
    match tree.nodeAt isAbsolute walked with
    | none => .error .absent
    | some (.file _) => .error .notDirectory
    | some .directory =>
      if stepLimit < step.utf8ByteSize then .error .nameTooLong
      else tree.follow isAbsolute (enter isAbsolute walked step) rest

/-- Follows the steps of a path. A path is not empty and not too long. -/
def reach (tree : FileTree) (path : String) (steps : List String) :
    Except PathFault (List String) :=
  if path.isEmpty then .error .absent
  else if pathLimit < path.utf8ByteSize then .error .nameTooLong
  else tree.follow (FilePath.ofText path).isAbsolute [] steps

/-- The node that a path leads to. -/
def find (tree : FileTree) (path : String) : Except PathFault FileNode :=
  let p := FilePath.ofText path
  match tree.reach path p.steps with
  | .error fault => .error fault
  | .ok steps =>
    match tree.nodeAt p.isAbsolute steps with
    | none => .error .absent
    | some .directory => .ok .directory
    | some (.file content) =>
      if p.asksDirectory then .error .notDirectory else .ok (.file content)

/-- Makes the content of a file, which may be new, a text. Where a directory is asked for, the path
up to the last step has to lead to one, and the last step is not taken. -/
def write (tree : FileTree) (path text : String) : Except PathFault FileTree :=
  let p := FilePath.ofText path
  if p.asksDirectory then
    match tree.reach path (p.steps.dropLast ++ ["."]) with
    | .error fault => .error fault
    | .ok _ => .error .isDirectory
  else
    match tree.reach path p.steps with
    | .error fault => .error fault
    | .ok steps =>
      match tree.nodeAt p.isAbsolute steps with
      | some .directory => .error .isDirectory
      | _ => .ok ⟨tree.nodes.insert (place p.isAbsolute steps) (.file text.toUTF8)⟩

end FileTree

end DocumentTypes
