import AndroidResources.Main
import AndroidResources.Proofs.Path.Components
import AndroidResources.Proofs.Path.Steps
import AndroidResources.Proofs.Java.TypeSpelling
import AndroidResources.Proofs.Java.SourceTree
import AndroidResources.Proofs.Java.Stubs
import AndroidResources.Proofs.Xml.Document
import AndroidResources.Proofs.Xml.Tag
import AndroidResources.Proofs.Xml.Reading
import AndroidResources.Proofs.Layout.Declarations
import AndroidResources.Proofs.Layout.Files
import AndroidResources.Proofs.Xml.Acceptance
import AndroidResources.Proofs.Symbol.Contribution
import AndroidResources.Proofs.FileSystem.Lead
import AndroidResources.Proofs.FileSystem.Change
import AndroidResources.Proofs.FileSystem.Content
import AndroidResources.Proofs.FileSystem.Spelling
import AndroidResources.Proofs.FileSystem.Success
import AndroidResources.Proofs.Build.Action
import AndroidResources.Proofs.Build.Staging
import AndroidResources.Proofs.Build.Cleaning
import AndroidResources.Proofs.Build.Commit
import AndroidResources.Proofs.Build.StagedTree
import AndroidResources.Proofs.Build.Writing
import AndroidResources.Proofs.Build.Publish
import AndroidResources.Proofs.Merge.Offers
import AndroidResources.Proofs.Merge.Copying
import AndroidResources.Proofs.Merge.Stages
import AndroidResources.Proofs.Merge.Manifest
import AndroidResources.Proofs.Merge.Outcome
import AndroidResources.Proofs.Merge.Failure
import AndroidResources.Proofs.Merge.OutputDirectory
import AndroidResources.Proofs.Merge.CopyOrder
import AndroidResources.Proofs.Merge.ManifestBelow
import AndroidResources.Proofs.Compile.Stages
import AndroidResources.Proofs.Compile.Failure
import AndroidResources.Proofs.Compile.Success
import AndroidResources.Proofs.Symbol.Shapes
import AndroidResources.Proofs.Resource.Layouts
import AndroidResources.Proofs.Symbol.NewIds
import AndroidResources.Proofs.Xml.Occurrence
import AndroidResources.Proofs.Symbol.FieldIds
import AndroidResources.Proofs.Java.TypeRendering
import AndroidResources.Proofs.Java.StubFields
import AndroidResources.Proofs.Text.ByteOrder
import AndroidResources.Proofs.FileSystem.DepthFirst
import AndroidResources.Proofs.Layout.Includes
import AndroidResources.Proofs.Symbol.Documents
import AndroidResources.Proofs.Symbol.Styleables
import AndroidResources.Proofs.Symbol.Names
import AndroidResources.Proofs.Merge.CommonAncestor
import AndroidResources.Proofs.Layout.Names
import AndroidResources.Proofs.FileSystem.NewDirectory
import AndroidResources.Proofs.Merge.Placeholders
import AndroidResources.Proofs.Build.Destination
import AndroidResources.Proofs.Merge.Request
import AndroidResources.Proofs.Merge.Refusal
import AndroidResources.Proofs.Symbol.Tables
import AndroidResources.Proofs.Text.Words
import AndroidResources.Proofs.Symbol.RTxt
import AndroidResources.Proofs.Symbol.Files
import AndroidResources.Proofs.Java.RClassText
import AndroidResources.Proofs.Config.Patterns
import AndroidResources.Proofs.Java.BrClassText
import AndroidResources.Proofs.Java.ParameterList
