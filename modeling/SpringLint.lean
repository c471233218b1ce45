import SpringLint.Check.Assertion
import SpringLint.Check.Basic
import SpringLint.Check.BeanMethod
import SpringLint.Check.Component
import SpringLint.Check.Finding
import SpringLint.Check.FunctionalInterface
import SpringLint.Check.IndexOf
import SpringLint.Check.Injection
import SpringLint.Check.Lambda
import SpringLint.Check.PackageInfo
import SpringLint.Check.UnusedParameter
import SpringLint.CommandLine.Arguments
import SpringLint.CommandLine.Run
import SpringLint.CommandLine.Snapshot
import SpringLint.Config
import SpringLint.Error
import SpringLint.FileSystem
import SpringLint.Fix.ConstructorInjection
import SpringLint.Fix.Resolution
import SpringLint.Json.Reader
import SpringLint.Json.Value
import SpringLint.Main
import SpringLint.Marker.Basic
import SpringLint.Marker.Record
import SpringLint.Marker.Store
import SpringLint.Model.Bindings
import SpringLint.Model.Catalogue
import SpringLint.Model.Declaration
import SpringLint.Model.Expression
import SpringLint.Model.Index
import SpringLint.Model.Type
import SpringLint.Model.TypeScope
import SpringLint.Path
import SpringLint.Problem
import SpringLint.Project.Basic
import SpringLint.Project.Factories
import SpringLint.Project.Layout
import SpringLint.Project.Query
import SpringLint.Project.Unit
import SpringLint.Proofs.Check.Anchors
import SpringLint.Proofs.Check.Assertions
import SpringLint.Proofs.Check.Components
import SpringLint.Proofs.Check.Findings
import SpringLint.Proofs.Check.Functional
import SpringLint.Proofs.Check.Keys
import SpringLint.Proofs.Check.LambdaBlocks
import SpringLint.Proofs.Check.Markers
import SpringLint.Proofs.Check.Members
import SpringLint.Proofs.Check.PackageFiles
import SpringLint.Proofs.Check.ProxySearch
import SpringLint.Proofs.Check.Proxying
import SpringLint.Proofs.Check.Repetition
import SpringLint.Proofs.Check.Searches
import SpringLint.Proofs.CommandLine.DryRun
import SpringLint.Proofs.CommandLine.ShownChanges
import SpringLint.Proofs.FileSystem
import SpringLint.Proofs.Fix.AssignedFields
import SpringLint.Proofs.Fix.Atomicity
import SpringLint.Proofs.Fix.ConstructorInjection
import SpringLint.Proofs.Fix.Finals
import SpringLint.Proofs.Fix.InjectedFrame
import SpringLint.Proofs.Fix.InjectedText
import SpringLint.Proofs.Fix.LambdaParentheses
import SpringLint.Proofs.Fix.ParameterNames
import SpringLint.Proofs.Fix.Preview
import SpringLint.Proofs.Fix.Printing
import SpringLint.Proofs.Json.RoundTrip
import SpringLint.Proofs.Marker.Persistence
import SpringLint.Proofs.Marker.Record
import SpringLint.Proofs.Marker.Store
import SpringLint.Proofs.Model.Binding
import SpringLint.Proofs.Model.Declared
import SpringLint.Proofs.Model.Hierarchy
import SpringLint.Proofs.Model.Index
import SpringLint.Proofs.Model.Interfaces
import SpringLint.Proofs.Model.Reordering
import SpringLint.Proofs.Model.Resolution
import SpringLint.Proofs.Model.Scoping
import SpringLint.Proofs.Model.Search
import SpringLint.Proofs.Model.Supertypes
import SpringLint.Proofs.Path
import SpringLint.Proofs.Project.AnnotationViews
import SpringLint.Proofs.Project.Consistency
import SpringLint.Proofs.Project.Detached
import SpringLint.Proofs.Project.Discovery
import SpringLint.Proofs.Project.Elements
import SpringLint.Proofs.Project.Factories
import SpringLint.Proofs.Project.Linking
import SpringLint.Proofs.Project.Load
import SpringLint.Proofs.Project.MetaAnnotations
import SpringLint.Proofs.Project.Modules
import SpringLint.Proofs.Session.Analysis
import SpringLint.Proofs.Session.Cancellation
import SpringLint.Proofs.Session.Changes
import SpringLint.Proofs.Session.FullPass
import SpringLint.Proofs.Session.Operations
import SpringLint.Proofs.Session.Tally
import SpringLint.Proofs.Syntax.Additions
import SpringLint.Proofs.Syntax.Batch
import SpringLint.Proofs.Syntax.Calls
import SpringLint.Proofs.Syntax.Change
import SpringLint.Proofs.Syntax.Commutation
import SpringLint.Proofs.Syntax.Concatenation
import SpringLint.Proofs.Syntax.Covering
import SpringLint.Proofs.Syntax.Cuts
import SpringLint.Proofs.Syntax.Dropped
import SpringLint.Proofs.Syntax.Effects
import SpringLint.Proofs.Syntax.Hosts
import SpringLint.Proofs.Syntax.Imports
import SpringLint.Proofs.Syntax.Javadoc
import SpringLint.Proofs.Syntax.LinkNodes
import SpringLint.Proofs.Syntax.Links
import SpringLint.Proofs.Syntax.Nesting
import SpringLint.Proofs.Syntax.Numbering
import SpringLint.Proofs.Syntax.Overrun
import SpringLint.Proofs.Syntax.Parts
import SpringLint.Proofs.Syntax.Rebuild
import SpringLint.Proofs.Syntax.Removal
import SpringLint.Proofs.Syntax.Revision
import SpringLint.Proofs.Syntax.Seams
import SpringLint.Proofs.Syntax.Shape
import SpringLint.Proofs.Syntax.Splices
import SpringLint.Proofs.Syntax.StringLiteral
import SpringLint.Proofs.Syntax.Strokes
import SpringLint.Proofs.Syntax.Trace
import SpringLint.Proofs.Syntax.Traversal
import SpringLint.Proofs.Syntax.Update
import SpringLint.Proofs.Syntax.Words
import SpringLint.Proofs.Table
import SpringLint.Proofs.Text.Affixes
import SpringLint.Proofs.Text.Basic
import SpringLint.Proofs.Text.Blanks
import SpringLint.Proofs.Text.Continuation
import SpringLint.Proofs.Text.Escapes
import SpringLint.Proofs.Text.Joints
import SpringLint.Proofs.Text.LineIndex
import SpringLint.Proofs.Text.LogicalLines
import SpringLint.Proofs.Text.Offsets
import SpringLint.Proofs.Text.Properties
import SpringLint.Proofs.Text.Splice
import SpringLint.Proofs.Text.Written
import SpringLint.Report.Pretty
import SpringLint.Report.Structured
import SpringLint.Session
import SpringLint.Syntax.Edit
import SpringLint.Syntax.Javadoc
import SpringLint.Syntax.Kind
import SpringLint.Syntax.Listing
import SpringLint.Syntax.NodeMap
import SpringLint.Syntax.ParseTree
import SpringLint.Syntax.Printer
import SpringLint.Syntax.Source
import SpringLint.Syntax.StringLiteral
import SpringLint.Syntax.Tree
import SpringLint.Syntax.Walk
import SpringLint.Table
import SpringLint.Text.Basic
import SpringLint.Text.Diff
import SpringLint.Text.Glob
import SpringLint.Text.Properties
import SpringLint.Text.Quoted
import SpringLint.Text.Slice
import SpringLint.Text.Split
import SpringLint.Yaml
