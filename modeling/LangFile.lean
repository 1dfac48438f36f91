import LangFile.Text.CodePoint
import LangFile.Text.Ranges
import LangFile.Text.Unassigned
import LangFile.Text.Width
import LangFile.Text.Printable
import LangFile.Text.Blank
import LangFile.Text.Digit
import LangFile.Text.Integer
import LangFile.Text.Utf8
import LangFile.Format.Color
import LangFile.Format.Code
import LangFile.Format.State
import LangFile.Format.Run
import LangFile.Style.Basic
import LangFile.Style.Handles
import LangFile.Style.RichText
import LangFile.Text.Search
import LangFile.Text.Quoted
import LangFile.Json.Value
import LangFile.Json.Error
import LangFile.Json.Reader
import LangFile.Json.Quote
import LangFile.Entry.Scan
import LangFile.Entry.Keys
import LangFile.Skeleton
import LangFile.Decoration
import LangFile.Preview.Lines
import LangFile.Preview.Page
import LangFile.Preview.Panel
import LangFile.Completion
import LangFile.Path
import LangFile.Offset
import LangFile.Document
import LangFile.Finding
import LangFile.Comparison
import LangFile.Text.Display
import LangFile.Disk.Basic
import LangFile.Disk.File
import LangFile.Disk.Skeleton
import LangFile.Validation
import LangFile.CommandLine.Arguments
import LangFile.CommandLine.Log
import LangFile.CommandLine.Report
import LangFile.CommandLine.Program
import LangFile.Editor.Wrap
import LangFile.Editor.Coloring
import LangFile.Editor.Buffer
import LangFile.Editor.Overlay
import LangFile.Editor.Basic
import LangFile.Editor.Keys
import LangFile.Editor.Screen
import LangFile.Signal.Basic
import LangFile.Signal.Script
import LangFile.Session.Basic
import LangFile.Session.Changes
import LangFile.Session.Delivery
import LangFile.Session.Commands
import LangFile.Session.Recorder
import LangFile.App.Basic
import LangFile.App.Handlers
import LangFile.App.Actions
import LangFile.App.Bindings
import LangFile.Main
import LangFile.Proofs.Text.Lines
import LangFile.Proofs.Text.Literal
import LangFile.Proofs.Text.Leftmost
import LangFile.Proofs.Entry.Decomposition
import LangFile.Proofs.Entry.Layout
import LangFile.Proofs.Json.Number
import LangFile.Proofs.Json.Spelling
import LangFile.Proofs.Json.Members
import LangFile.Proofs.Entry.Distinct
import LangFile.Proofs.Entry.FlatObject
import LangFile.Proofs.Comparison.Difference
import LangFile.Proofs.Json.Quoting
import LangFile.Proofs.Json.Nesting
import LangFile.Proofs.Entry.Keys
import LangFile.Proofs.Skeleton
import LangFile.Proofs.Entry.Detour
import LangFile.Proofs.Comparison.Skeleton
import LangFile.Proofs.Comparison.Position
import LangFile.Proofs.Comparison.Relocation
import LangFile.Proofs.Comparison.Spans
import LangFile.Proofs.Format.Segmentation
import LangFile.Proofs.Disk.ReadBack
import LangFile.Proofs.Format.Styled
import LangFile.Proofs.Format.Visible
import LangFile.Proofs.Format.Stripped
import LangFile.Proofs.Format.Lasting
import LangFile.Proofs.Preview.Markup
import LangFile.Proofs.Preview.Page
import LangFile.Proofs.Session.LanguageFile
import LangFile.Proofs.Json.Grammar
import LangFile.Proofs.Json.Literals
import LangFile.Proofs.Decoration.Search
import LangFile.Proofs.Decoration.Grouping
import LangFile.Proofs.Decoration.Cover
import LangFile.Proofs.Text.Utf8
import LangFile.Proofs.Path
import LangFile.Proofs.Validation
import LangFile.Proofs.Session.Surroundings
import LangFile.Proofs.Session.Delivery
import LangFile.Proofs.Session.Documents
import LangFile.Proofs.Session.Currency
import LangFile.Proofs.Session.Operation
import LangFile.Proofs.Session.Findings
import LangFile.Proofs.Session.Quiet
import LangFile.Proofs.Session.Passes
import LangFile.Proofs.Session.MadeFile
import LangFile.Proofs.Session.Pointing
import LangFile.Proofs.Session.Observation
import LangFile.Proofs.Session.Drawing
import LangFile.Proofs.Session.LinkedScroll
import LangFile.Proofs.App.Reference
import LangFile.Proofs.Editor.Around
import LangFile.Proofs.Editor.Reachable
import LangFile.Proofs.Editor.FlatText
import LangFile.Proofs.Signal.History
import LangFile.Proofs.Signal.Script
import LangFile.Proofs.Session.Acts
import LangFile.Proofs.Session.PreviewHistory
import LangFile.Proofs.Session.Stopped
import LangFile.Proofs.Session.Previews
import LangFile.Proofs.Editor.History
import LangFile.Proofs.App.Course
import LangFile.Proofs.App.Unsaved
import LangFile.Proofs.App.Choice
import LangFile.Proofs.App.Refreshing
import LangFile.Proofs.App.Wiring
import LangFile.Proofs.App.Happening
import LangFile.Proofs.App.Synced
import LangFile.Proofs.App.FindingsShown
import LangFile.Proofs.App.PreviewShown
import LangFile.Proofs.RichText
import LangFile.Proofs.Editor.Wrap
import LangFile.Proofs.Editor.Readable
import LangFile.Proofs.Editor.Greedy
import LangFile.Proofs.Document
import LangFile.Proofs.Editor.LineTable
import LangFile.Proofs.Editor.KeptStyles
import LangFile.Proofs.Editor.Screen
import LangFile.Proofs.Editor.RowPieces
import LangFile.Proofs.Editor.CursorShown
import LangFile.Proofs.Editor.Drawn
import LangFile.Proofs.Editor.SpanPieces
import LangFile.Proofs.CommandLine.Report
import LangFile.Proofs.CommandLine.Check
import LangFile.Proofs.App.Opened
import LangFile.Proofs.CommandLine.Agreement
import LangFile.Proofs.Text.Storable
import LangFile.Proofs.Editor.Storable
import LangFile.Proofs.App.Actions
import LangFile.Proofs.App.Saved
import LangFile.Proofs.Disk.Existence
import LangFile.Proofs.Disk.FreeName
import LangFile.Proofs.CommandLine.Preview
import LangFile.Proofs.Editor.ReadOnly
import LangFile.Proofs.Editor.Coloring
