import DocumentTypes.BuildError
import DocumentTypes.Document.Shape
import DocumentTypes.Json.SyntaxError

/-!
What can go wrong while definitions are loaded and requests are made from them, and the wording.
-/

set_option autoImplicit false

namespace DocumentTypes

/-- Why a path that exists cannot be read as text. -/
inductive ReadFault where
  | isDirectory
  | notText
deriving DecidableEq, Repr

def ReadFault.message : ReadFault → String
  | isDirectory => "Is a directory (os error 21)"
  | notText => "stream did not contain valid UTF-8"

/-- Where a schema is referred to. -/
inductive SchemaContext where
  | field (schema name : String)
  | declaration (typeName : String)
  | document
deriving DecidableEq, Repr

def SchemaContext.text : SchemaContext → String
  | field schema name => "/schemas/" ++ schema ++ "/" ++ name
  | declaration typeName => "type \"" ++ typeName ++ "\""
  | document => "document"

inductive LoadError where
  | fileNotFound (path : String)
  | readError (path : String) (fault : ReadFault)
  | invalidJson (error : Json.SyntaxError)
  | invalidDocument (violations : List Violation)
  | undecodable
  | unknownSchema (schema : String) (context : SchemaContext)
  | embeddingCycle (path : List String)
  | invalidTypeExpr (expr : String)
  | build (error : BuildError)

namespace LoadError

def message : LoadError → String
  | fileNotFound path => "file not found: " ++ path
  | readError path fault => "cannot read " ++ path ++ ": " ++ fault.message
  | invalidJson error => "invalid JSON: " ++ error.message
  | invalidDocument violations =>
    "invalid definitions document (" ++ toString violations.length ++ " error(s))"
  | undecodable => "invalid JSON: the value is no definitions document"
  | unknownSchema schema context =>
    "unknown schema \"" ++ schema ++ "\" referenced from " ++ context.text
  | embeddingCycle path => "embedding cycle between schemas: " ++ arrowPath path
  | invalidTypeExpr expr => "invalid type expression \"" ++ expr ++ "\""
  | build error => error.message

/-- The exit code of a command that ends with the error: a source that cannot be read is told
apart from a document that cannot be used. -/
def exitCode : LoadError → Nat
  | fileNotFound _ | readError _ _ => 3
  | build error => error.exitCode
  | _ => 2

end LoadError

end DocumentTypes
