import Phrasebook.Accessor
import Phrasebook.CommandLine.Command
import Phrasebook.CommandLine.Disk
import Phrasebook.CommandLine.Grammar
import Phrasebook.CommandLine.Run
import Phrasebook.CommandLine.Usage
import Phrasebook.Completeness
import Phrasebook.Decimal.Binary
import Phrasebook.Decimal.Layout
import Phrasebook.Decimal.Shortest
import Phrasebook.Error
import Phrasebook.FilePath
import Phrasebook.FileTree
import Phrasebook.Group.Basic
import Phrasebook.Group.Problem
import Phrasebook.Identifier
import Phrasebook.Json.Basic
import Phrasebook.Json.Numeral
import Phrasebook.Json.Printer
import Phrasebook.Json.Token
import Phrasebook.Json.Written
import Phrasebook.Keyed
import Phrasebook.Main
import Phrasebook.Message.Catalog
import Phrasebook.Message.Path
import Phrasebook.Message.Record
import Phrasebook.Namespace.Basic
import Phrasebook.Namespace.Build
import Phrasebook.Plan
import Phrasebook.Project.Basic
import Phrasebook.Project.Check
import Phrasebook.Project.Compile
import Phrasebook.Project.Load
import Phrasebook.Project.Scan
import Phrasebook.Proofs.Accessor
import Phrasebook.Proofs.Completeness
import Phrasebook.Proofs.FilePath
import Phrasebook.Proofs.FileTree.Change
import Phrasebook.Proofs.FileTree.Contents
import Phrasebook.Proofs.FileTree.Follow
import Phrasebook.Proofs.FileTree.MakeBelow
import Phrasebook.Proofs.FileTree.Place
import Phrasebook.Proofs.Group.Ambiguity
import Phrasebook.Proofs.Group.Analysis
import Phrasebook.Proofs.Group.Buildable
import Phrasebook.Proofs.Group.Closed
import Phrasebook.Proofs.Group.Elements
import Phrasebook.Proofs.Group.Exports
import Phrasebook.Proofs.Group.Gaps
import Phrasebook.Proofs.Group.LocaleOrder
import Phrasebook.Proofs.Group.Mirrored
import Phrasebook.Proofs.Group.Substitution
import Phrasebook.Proofs.Group.Translations
import Phrasebook.Proofs.Identifier
import Phrasebook.Proofs.Identifier.Joined
import Phrasebook.Proofs.Json.Inside
import Phrasebook.Proofs.Json.Reading
import Phrasebook.Proofs.Keyed
import Phrasebook.Proofs.Message.Display
import Phrasebook.Proofs.Message.Flatten
import Phrasebook.Proofs.Message.Gather
import Phrasebook.Proofs.Message.SourceOrder
import Phrasebook.Proofs.Message.Summary
import Phrasebook.Proofs.Namespace.Arrays
import Phrasebook.Proofs.Namespace.Existence
import Phrasebook.Proofs.Namespace.Leaves
import Phrasebook.Proofs.Namespace.Messages
import Phrasebook.Proofs.Namespace.Mirror
import Phrasebook.Proofs.Namespace.Nesting
import Phrasebook.Proofs.Outcome
import Phrasebook.Proofs.Project.AllOrNothing
import Phrasebook.Proofs.Project.Consistency
import Phrasebook.Proofs.Project.Loaded
import Phrasebook.Proofs.Project.Partition
import Phrasebook.Proofs.Project.Planned
import Phrasebook.Proofs.Project.Recompiled
import Phrasebook.Proofs.Project.Rescanned
import Phrasebook.Proofs.Project.Search
import Phrasebook.Proofs.Project.Specifiers
import Phrasebook.Proofs.Project.Writing
import Phrasebook.Proofs.Registry
import Phrasebook.Proofs.Registry.History
import Phrasebook.Proofs.Script.Agreement
import Phrasebook.Proofs.Script.Comment
import Phrasebook.Proofs.Script.Evaluation
import Phrasebook.Proofs.Script.GroupModule
import Phrasebook.Proofs.Script.Literal
import Phrasebook.Proofs.Script.NamespaceObject
import Phrasebook.Proofs.Script.SharedFunctions
import Phrasebook.Proofs.Script.Specifier
import Phrasebook.Proofs.Script.StringLiteral
import Phrasebook.Proofs.Script.TypeGrammar
import Phrasebook.Proofs.Script.ValueType
import Phrasebook.Proofs.Template.Dependence
import Phrasebook.Proofs.Template.Occurrence
import Phrasebook.Proofs.Template.Positions
import Phrasebook.Proofs.Template.Refilling
import Phrasebook.Proofs.Template.Search
import Phrasebook.Registry
import Phrasebook.Report.Basic
import Phrasebook.Report.Style
import Phrasebook.Script.Comment
import Phrasebook.Script.Expr
import Phrasebook.Script.Function
import Phrasebook.Script.GroupModule
import Phrasebook.Script.Index
import Phrasebook.Script.NamespaceObject
import Phrasebook.Script.Runtime
import Phrasebook.Script.ValueType
import Phrasebook.Settings.Basic
import Phrasebook.Settings.Document
import Phrasebook.Template
import Phrasebook.Text.CodeRange
import Phrasebook.Text.Cutting
import Phrasebook.Text.DecimalDigit
import Phrasebook.Text.Quoted
import Phrasebook.Text.Uppercase
import Phrasebook.Text.Word
