import ArgumentSchemes.Command.Execute
import ArgumentSchemes.Command.Invocation
import ArgumentSchemes.Command.Options
import ArgumentSchemes.Config.Load
import ArgumentSchemes.Config.Settings
import ArgumentSchemes.Config.Toml.Document
import ArgumentSchemes.Config.Toml.Number
import ArgumentSchemes.Config.Toml.Scan
import ArgumentSchemes.Config.Toml.Table
import ArgumentSchemes.Disk
import ArgumentSchemes.Emit.Artifact
import ArgumentSchemes.Emit.Binding
import ArgumentSchemes.Emit.Native
import ArgumentSchemes.Emit.Target
import ArgumentSchemes.Emit.Wrapper
import ArgumentSchemes.Files.Discover
import ArgumentSchemes.Files.Path
import ArgumentSchemes.Files.Pattern
import ArgumentSchemes.Files.Read
import ArgumentSchemes.Files.Site
import ArgumentSchemes.Files.Tree
import ArgumentSchemes.Files.Write
import ArgumentSchemes.Header.Checker
import ArgumentSchemes.Header.Cursor
import ArgumentSchemes.Header.Draft
import ArgumentSchemes.Header.Line
import ArgumentSchemes.Header.State
import ArgumentSchemes.Main
import ArgumentSchemes.Proofs.Acceptance
import ArgumentSchemes.Proofs.Checking
import ArgumentSchemes.Proofs.LineBreaks
import ArgumentSchemes.Proofs.LineShapes
import ArgumentSchemes.Proofs.Printing
import ArgumentSchemes.Proofs.Reading
import ArgumentSchemes.Proofs.Segments
import ArgumentSchemes.Proofs.Spelling
import ArgumentSchemes.Proofs.TreeGrowth
import ArgumentSchemes.Proofs.Trimming
import ArgumentSchemes.Report.Diagnostic
import ArgumentSchemes.Report.Event
import ArgumentSchemes.Report.Json
import ArgumentSchemes.Report.Told
import ArgumentSchemes.Run.Collection
import ArgumentSchemes.Run.Generate
import ArgumentSchemes.Run.Scan
import ArgumentSchemes.Scheme.Basic
import ArgumentSchemes.Scheme.Fault
import ArgumentSchemes.Scheme.Role
import ArgumentSchemes.Text.CharClass
import ArgumentSchemes.Text.Lines
import ArgumentSchemes.Text.Utf8
import ArgumentSchemes.Text.WordRanges
import ArgumentSchemes.Proofs.FailedRun
import ArgumentSchemes.Proofs.Accounting
import ArgumentSchemes.Proofs.NestedOpening
import ArgumentSchemes.Proofs.Flags
import ArgumentSchemes.Proofs.Modes
import ArgumentSchemes.Proofs.Utf8
import ArgumentSchemes.Proofs.Following
import ArgumentSchemes.Proofs.Discovery
import ArgumentSchemes.Proofs.Rendering
import ArgumentSchemes.Proofs.Convergence
import ArgumentSchemes.Proofs.Locality
import ArgumentSchemes.Proofs.Layout
import ArgumentSchemes.Proofs.Delimiters
import ArgumentSchemes.Proofs.DiagnosticText
import ArgumentSchemes.Proofs.TargetLines
import ArgumentSchemes.Proofs.HelperReading
import ArgumentSchemes.Proofs.ScriptBlocks
import ArgumentSchemes.Proofs.DraftShape
import ArgumentSchemes.Proofs.InertLines
import ArgumentSchemes.Proofs.EmptySchemes
import ArgumentSchemes.Proofs.FatalRuns
import ArgumentSchemes.Proofs.RescannedHeaders
import ArgumentSchemes.Proofs.ParameterLists
import ArgumentSchemes.Proofs.JsonText
import ArgumentSchemes.Proofs.ListedHeaders
import ArgumentSchemes.Proofs.ListingText
import ArgumentSchemes.Proofs.LineGrammar
import ArgumentSchemes.Proofs.LinePatterns
import ArgumentSchemes.Proofs.FaultOrder
import ArgumentSchemes.Proofs.NamedEntries
import ArgumentSchemes.Proofs.SummaryLines
import ArgumentSchemes.Proofs.CopiedTexts
import ArgumentSchemes.Proofs.Docstrings
import ArgumentSchemes.Proofs.DroppedBreaks
import ArgumentSchemes.Proofs.KeywordListing
import ArgumentSchemes.Proofs.OtherRole
import ArgumentSchemes.Proofs.ReservedMarkers
import ArgumentSchemes.Proofs.SettingLayers
import ArgumentSchemes.Proofs.LossyLines
import ArgumentSchemes.Proofs.LinkedPaths
import ArgumentSchemes.Proofs.FoundHeaders
import ArgumentSchemes.Proofs.AtomicWrites
import ArgumentSchemes.Proofs.IncludePaths
import ArgumentSchemes.Proofs.IncludeGuards
