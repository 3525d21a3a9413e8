import DocumentTypes.Definitions
import DocumentTypes.FileTree

/-!
Loading definitions from a source: the path of a file, or an address on the network. Addresses are
told apart by their scheme; nothing is fetched, so there is nothing at an address.
-/

set_option autoImplicit false

namespace DocumentTypes

/-- Whether a source is an address on the network. -/
def isUrl (source : String) : Bool :=
  source.startsWith "http://" || source.startsWith "https://"

namespace FileTree

/-- The text of a file. -/
def readText (tree : FileTree) (path : String) : Except LoadError String :=
  match tree.find path with
  | .error _ => .error (.fileNotFound path)
  | .ok .directory => .error (.readError path .isDirectory)
  | .ok (.file content) =>
    match String.fromUTF8? content with
    | none => .error (.readError path .notText)
    | some text => .ok text

end FileTree

namespace Definitions

/-- Loads the document in a file, adding its schemas to a heap. -/
def ofFile (heap : SchemaHeap) (tree : FileTree) (path : String) :
    Except LoadError (Definitions × SchemaHeap) :=
  match tree.readText path with
  | .error e => .error e
  | .ok text => ofText heap text

/-- Loads the document at a source, adding its schemas to a heap. -/
def ofSource (heap : SchemaHeap) (tree : FileTree) (source : String) :
    Except LoadError (Definitions × SchemaHeap) :=
  if isUrl source then .error (.fileNotFound source) else ofFile heap tree source

end Definitions

end DocumentTypes
