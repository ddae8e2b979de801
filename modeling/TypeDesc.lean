import TypeDesc.Coloring.Description
import TypeDesc.Coloring.Reason
import TypeDesc.Coloring.Rule
import TypeDesc.Command.Arguments
import TypeDesc.Command.Basic
import TypeDesc.Command.Run
import TypeDesc.Command.Usage
import TypeDesc.Ctor
import TypeDesc.Description.Basic
import TypeDesc.Description.Emission
import TypeDesc.Description.Outline
import TypeDesc.Description.Printer
import TypeDesc.Description.Reader
import TypeDesc.Diagnostic
import TypeDesc.Diagnostic.Excerpt
import TypeDesc.Double.Basic
import TypeDesc.Double.Shortest
import TypeDesc.Editor.Position
import TypeDesc.Editor.Session
import TypeDesc.Editor.Word
import TypeDesc.Expr.Basic
import TypeDesc.Expr.Reason
import TypeDesc.Expr.Scope
import TypeDesc.Fault
import TypeDesc.FileTree.Basic
import TypeDesc.FileTree.Path
import TypeDesc.FileTree.Search
import TypeDesc.Finding
import TypeDesc.Identifier
import TypeDesc.Main
import TypeDesc.Project.Build
import TypeDesc.Project.Failure
import TypeDesc.Project.Scaffold
import TypeDesc.Proofs.Accepted
import TypeDesc.Proofs.BuiltOutputs
import TypeDesc.Proofs.ClosedModule
import TypeDesc.Proofs.CollectedRuns
import TypeDesc.Proofs.ColorCodes
import TypeDesc.Proofs.ColoredPieces
import TypeDesc.Proofs.ColoringAgrees
import TypeDesc.Proofs.CompileOutcome
import TypeDesc.Proofs.DeclaredNames
import TypeDesc.Proofs.DependencyOrder
import TypeDesc.Proofs.EmittedTypes
import TypeDesc.Proofs.ExcerptPlaces
import TypeDesc.Proofs.FirstDeclaration
import TypeDesc.Proofs.Formatting
import TypeDesc.Proofs.Gathered
import TypeDesc.Proofs.GeneratedText
import TypeDesc.Proofs.GovernedFiles
import TypeDesc.Proofs.Grammar
import TypeDesc.Proofs.GrammarComplete
import TypeDesc.Proofs.GrammarExact
import TypeDesc.Proofs.HoverWords
import TypeDesc.Proofs.Inhabitants
import TypeDesc.Proofs.KeptValues
import TypeDesc.Proofs.Layout
import TypeDesc.Proofs.ModuleText
import TypeDesc.Proofs.NamesChecked
import TypeDesc.Proofs.Nesting
import TypeDesc.Proofs.NewProject
import TypeDesc.Proofs.NewSettings
import TypeDesc.Proofs.Occurrences
import TypeDesc.Proofs.OpenDocuments
import TypeDesc.Proofs.Outcome
import TypeDesc.Proofs.OwnDeclarations
import TypeDesc.Proofs.ParseTree
import TypeDesc.Proofs.Pieces
import TypeDesc.Proofs.Places
import TypeDesc.Proofs.Preservation
import TypeDesc.Proofs.PrintedTypes
import TypeDesc.Proofs.QuotedTexts
import TypeDesc.Proofs.ReaderFrame
import TypeDesc.Proofs.ReadingEnds
import TypeDesc.Proofs.Redeclared
import TypeDesc.Proofs.RejectedBuild
import TypeDesc.Proofs.RootedTrees
import TypeDesc.Proofs.RoundTrip
import TypeDesc.Proofs.Scanned
import TypeDesc.Proofs.SettingsText
import TypeDesc.Proofs.SiteNotes
import TypeDesc.Proofs.Sites
import TypeDesc.Proofs.Source
import TypeDesc.Proofs.SourceOutcome
import TypeDesc.Proofs.SuggestedFix
import TypeDesc.Proofs.Tidied
import TypeDesc.Proofs.TouchedWord
import TypeDesc.Proofs.Translation
import TypeDesc.Proofs.TreeNotes
import TypeDesc.Proofs.TreeOutline
import TypeDesc.Proofs.TreeReading
import TypeDesc.Proofs.TreeWriting
import TypeDesc.Proofs.TypeParameters
import TypeDesc.Proofs.TypeText
import TypeDesc.Proofs.UnknownNames
import TypeDesc.Proofs.UnusedParams
import TypeDesc.Proofs.WellFormed
import TypeDesc.Proofs.WholeEdit
import TypeDesc.Proofs.WordPlaces
import TypeDesc.Proofs.WorkRuns
import TypeDesc.Proofs.Written
import TypeDesc.Reason.Basic
import TypeDesc.Reason.Printer
import TypeDesc.Scalar
import TypeDesc.Settings
import TypeDesc.Span
import TypeDesc.Text.Alphanumeric
import TypeDesc.Text.Blank
import TypeDesc.Text.Block
import TypeDesc.Text.Decimal
import TypeDesc.Text.Escape
import TypeDesc.Text.LetterCase
import TypeDesc.Text.Lines
import TypeDesc.Text.Printable
import TypeDesc.Text.Quoted
import TypeDesc.Text.Runs
import TypeDesc.Text.Similarity
import TypeDesc.Text.Slice
import TypeDesc.Token
import TypeDesc.Token.Scan
import TypeDesc.Toml.Document
import TypeDesc.Toml.Moment
import TypeDesc.Toml.Number
import TypeDesc.Toml.Reader
import TypeDesc.Toml.Text
import TypeDesc.Toml.Value
