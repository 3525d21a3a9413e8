import DocumentTypes.CommandLine
import DocumentTypes.Main
import DocumentTypes.Workbench.Step
import DocumentTypes.Proofs.Build.AfterRegistry
import DocumentTypes.Proofs.Build.BuiltUp
import DocumentTypes.Proofs.Build.FieldsAfterBuild
import DocumentTypes.Proofs.Build.FreeName
import DocumentTypes.Proofs.Build.InertOverrides
import DocumentTypes.Proofs.Build.MissingOption
import DocumentTypes.Proofs.Build.Commutation
import DocumentTypes.Proofs.Build.Exclusion
import DocumentTypes.Proofs.Build.PostOrder
import DocumentTypes.Proofs.Build.Rebuilding
import DocumentTypes.Proofs.Document.TypeExpression
import DocumentTypes.Proofs.Load.PlainDocument
import DocumentTypes.Proofs.Load.AcceptedDocument
import DocumentTypes.Proofs.CommandLine.CheckedBuild
import DocumentTypes.Proofs.Render.Agreement
import DocumentTypes.Proofs.Render.Unambiguous
import DocumentTypes.Proofs.Render.CompleteSnapshot
import DocumentTypes.Proofs.Render.Block
import DocumentTypes.Proofs.Render.FieldTypes
import DocumentTypes.Proofs.Render.Readable
import DocumentTypes.Proofs.Json.RoundTrip
import DocumentTypes.Proofs.CommandLine.CheckReport
import DocumentTypes.Proofs.Build.FaultyDeclaration
import DocumentTypes.Proofs.FieldEvaluation
import DocumentTypes.Proofs.Document.LocatedViolations
import DocumentTypes.Proofs.CommandLine.BuildReport
