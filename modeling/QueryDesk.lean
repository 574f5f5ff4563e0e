import QueryDesk.Desk.Buffer
import QueryDesk.Desk.Editor
import QueryDesk.Desk.Menu
import QueryDesk.Desk.Notice
import QueryDesk.Desk.Panel
import QueryDesk.Desk.Startup
import QueryDesk.Desk.Tabs
import QueryDesk.Desk.User
import QueryDesk.Desk.Window
import QueryDesk.Desk.Workbench
import QueryDesk.Failure
import QueryDesk.Files.Change
import QueryDesk.Files.Fault
import QueryDesk.Files.Path
import QueryDesk.Files.Refusals
import QueryDesk.Files.Tree
import QueryDesk.Host.Basic
import QueryDesk.Host.Executable
import QueryDesk.Host.Launch
import QueryDesk.Host.Resolve
import QueryDesk.Host.Source
import QueryDesk.Json.Basic
import QueryDesk.Json.Display
import QueryDesk.Json.Printer
import QueryDesk.Json.Reader
import QueryDesk.Main
import QueryDesk.Number.Binary64
import QueryDesk.Number.Shortest
import QueryDesk.Proofs.Collect
import QueryDesk.Proofs.Desk.Again
import QueryDesk.Proofs.Desk.Arrival
import QueryDesk.Proofs.Desk.Broken
import QueryDesk.Proofs.Desk.Buffer
import QueryDesk.Proofs.Desk.Chronicle
import QueryDesk.Proofs.Desk.Consent
import QueryDesk.Proofs.Desk.Cursor
import QueryDesk.Proofs.Desk.Deeds
import QueryDesk.Proofs.Desk.Equipped
import QueryDesk.Proofs.Desk.Intact
import QueryDesk.Proofs.Desk.Loaded
import QueryDesk.Proofs.Desk.Navigation
import QueryDesk.Proofs.Desk.Newest
import QueryDesk.Proofs.Desk.OneTab
import QueryDesk.Proofs.Desk.Opened
import QueryDesk.Proofs.Desk.Place
import QueryDesk.Proofs.Desk.Reloaded
import QueryDesk.Proofs.Desk.Reported
import QueryDesk.Proofs.Desk.Resaved
import QueryDesk.Proofs.Desk.Row
import QueryDesk.Proofs.Desk.Saved
import QueryDesk.Proofs.Desk.Scope
import QueryDesk.Proofs.Desk.Shown
import QueryDesk.Proofs.Desk.Started
import QueryDesk.Proofs.Desk.Steps
import QueryDesk.Proofs.Desk.Target
import QueryDesk.Proofs.Desk.Told
import QueryDesk.Proofs.Files.Direct
import QueryDesk.Proofs.Files.Directory
import QueryDesk.Proofs.Files.Frame
import QueryDesk.Proofs.Files.Kind
import QueryDesk.Proofs.Files.Moved
import QueryDesk.Proofs.Files.Named
import QueryDesk.Proofs.Files.Overwrite
import QueryDesk.Proofs.Files.Path
import QueryDesk.Proofs.Files.Replace
import QueryDesk.Proofs.Files.Route
import QueryDesk.Proofs.Files.Walk
import QueryDesk.Proofs.Host.Asked
import QueryDesk.Proofs.Host.RealPath
import QueryDesk.Proofs.Host.Refill
import QueryDesk.Proofs.Host.Resolve
import QueryDesk.Proofs.Host.Rewritten
import QueryDesk.Proofs.Host.Source
import QueryDesk.Proofs.Json.Agree
import QueryDesk.Proofs.Json.Display
import QueryDesk.Proofs.Json.Given
import QueryDesk.Proofs.Json.Returns
import QueryDesk.Proofs.Json.Scalar
import QueryDesk.Proofs.Json.Sorted
import QueryDesk.Proofs.Json.Units
import QueryDesk.Proofs.Json.Written
import QueryDesk.Proofs.Query.Annotated
import QueryDesk.Proofs.Query.CommandLine
import QueryDesk.Proofs.Query.Decoded
import QueryDesk.Proofs.Query.Diagnostics
import QueryDesk.Proofs.Query.Document
import QueryDesk.Proofs.Query.Executed
import QueryDesk.Proofs.Query.Label
import QueryDesk.Proofs.Query.Launched
import QueryDesk.Proofs.Query.Measured
import QueryDesk.Proofs.Query.Offset
import QueryDesk.Proofs.Query.Position
import QueryDesk.Proofs.Query.Prepared
import QueryDesk.Proofs.Query.Refused
import QueryDesk.Proofs.Query.Requests
import QueryDesk.Proofs.Query.Resolved
import QueryDesk.Proofs.Query.Scopes
import QueryDesk.Proofs.Query.Session
import QueryDesk.Proofs.Query.Sources
import QueryDesk.Proofs.Query.Spelling
import QueryDesk.Proofs.Query.Story
import QueryDesk.Proofs.Repeats
import QueryDesk.Proofs.Settings.Answered
import QueryDesk.Proofs.Settings.Commute
import QueryDesk.Proofs.Settings.Course
import QueryDesk.Proofs.Settings.Filled
import QueryDesk.Proofs.Settings.Fit
import QueryDesk.Proofs.Settings.Kept
import QueryDesk.Proofs.Settings.Loading
import QueryDesk.Proofs.Settings.Names
import QueryDesk.Proofs.Settings.SearchPath
import QueryDesk.Proofs.Settings.Section
import QueryDesk.Proofs.Settings.Stored
import QueryDesk.Proofs.Table
import QueryDesk.Proofs.Text.Cell
import QueryDesk.Proofs.Text.Ending
import QueryDesk.Proofs.Text.Fed
import QueryDesk.Proofs.Text.Line
import QueryDesk.Proofs.Text.Measure
import QueryDesk.Proofs.Text.Numeral
import QueryDesk.Proofs.Text.Order
import QueryDesk.Proofs.Text.Segment
import QueryDesk.Proofs.Text.Split
import QueryDesk.Proofs.Text.Trim
import QueryDesk.Proofs.Text.Utf8
import QueryDesk.Proofs.Text.Word
import QueryDesk.Query.Document
import QueryDesk.Query.Invocation
import QueryDesk.Query.Invoker
import QueryDesk.Query.Marker
import QueryDesk.Query.Mode
import QueryDesk.Query.Position
import QueryDesk.Query.Refusal
import QueryDesk.Query.Session
import QueryDesk.Query.Toolchain
import QueryDesk.Settings.Desk
import QueryDesk.Settings.Name
import QueryDesk.Settings.Section
import QueryDesk.Settings.Store
import QueryDesk.Table
import QueryDesk.Text.Basic
import QueryDesk.Text.Digit
import QueryDesk.Text.Line
import QueryDesk.Text.Measure
import QueryDesk.Text.Printable
import QueryDesk.Text.Quoted
import QueryDesk.Text.Unpaired
import QueryDesk.Text.Utf8
