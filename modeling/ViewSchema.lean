import ViewSchema.Number.Decimal
import ViewSchema.Number.Shortest
import ViewSchema.Number.Fixed
import ViewSchema.Json.Text
import ViewSchema.Json.Reader
import ViewSchema.Text.Blank
import ViewSchema.ClassList
import ViewSchema.Merge
import ViewSchema.Reference
import ViewSchema.Breakpoint
import ViewSchema.Dictionary
import ViewSchema.Date.Reader
import ViewSchema.Date.Pattern
import ViewSchema.Format
import ViewSchema.Markup.Tree
import ViewSchema.Digest.Blake3
import ViewSchema.Component.Registry
import ViewSchema.Node.Basic
import ViewSchema.Node.Html
import ViewSchema.Compile.Compiler
import ViewSchema.Diff.Report
import ViewSchema.Responsive
import ViewSchema.Event.Bus
import ViewSchema.Container
import ViewSchema.Schema.Load
import ViewSchema.State.Store
import ViewSchema.Config.Toml
import ViewSchema.Route.Table
import ViewSchema.Config.App
import ViewSchema.Application.Basic
import ViewSchema.Application.Page
import ViewSchema.Application.RemoteSection
import ViewSchema.Fetch.Headers
import ViewSchema.Fetch.Request
import ViewSchema.Fetch.Fetcher
import ViewSchema.Fetch.Timeline
import ViewSchema.Fetch.Transport
import ViewSchema.Text.Case
import ViewSchema.Url.Escape
import ViewSchema.Url.Punycode
import ViewSchema.Url.Domain
import ViewSchema.Url.Host
import ViewSchema.Url.Basic
import ViewSchema.Url.Reader
import ViewSchema.Url.Query
import ViewSchema.File.Glob
import ViewSchema.File.Tree
import ViewSchema.File.Search
import ViewSchema.Command.Arguments
import ViewSchema.Command.Basic
import ViewSchema.Command.Run
import ViewSchema.Main
import ViewSchema.Proofs.Compile.TextFidelity
import ViewSchema.Proofs.Node.HtmlFidelity
import ViewSchema.Proofs.Fetch.Bookkeeping
import ViewSchema.Proofs.Fetch.Supersession
import ViewSchema.Proofs.Reference.Avoidance
import ViewSchema.Proofs.Application.StoredState
import ViewSchema.Proofs.Compile.Termination
import ViewSchema.Proofs.Compile.Visits
import ViewSchema.Proofs.Json.Literals
import ViewSchema.Proofs.Json.RoundTrip
import ViewSchema.Proofs.State.Calls
import ViewSchema.Proofs.State.Durability
import ViewSchema.Proofs.Node.Alike
import ViewSchema.Proofs.Compile.Budget
import ViewSchema.Proofs.Json.Decoding
import ViewSchema.Proofs.Json.Parsed
import ViewSchema.Proofs.Diff.Essence
import ViewSchema.Proofs.Diff.Nodes
import ViewSchema.Proofs.Diff.Agreement
import ViewSchema.Proofs.Diff.EmptyDiff
import ViewSchema.Proofs.Event.History
import ViewSchema.Proofs.Event.Delivery
import ViewSchema.Proofs.Container.Updates
import ViewSchema.Proofs.Container.Lifecycle
import ViewSchema.Proofs.Container.Arrivals
import ViewSchema.Proofs.Container.Debounce
import ViewSchema.Proofs.Container.LastSize
import ViewSchema.Proofs.Container.Unmounting
import ViewSchema.Proofs.Node.Idempotence
import ViewSchema.Proofs.State.Transparency
import ViewSchema.Proofs.Json.Mapping
import ViewSchema.Proofs.Json.MergedPaths
import ViewSchema.Proofs.Responsive.Overrides
import ViewSchema.Proofs.Responsive.Sections
import ViewSchema.Proofs.Responsive.Cascade
import ViewSchema.Proofs.Responsive.NamesLeft
import ViewSchema.Proofs.Breakpoint.Lookup
import ViewSchema.Proofs.Reference.Agreement
import ViewSchema.Proofs.Application.Hydration
import ViewSchema.Proofs.Reference.Substitution
import ViewSchema.Proofs.Diff.Keys
import ViewSchema.Proofs.State.Writes
import ViewSchema.Proofs.State.Atomicity
import ViewSchema.Proofs.State.Seeding
import ViewSchema.Proofs.Application.Language
import ViewSchema.Proofs.Compile.Inside
import ViewSchema.Proofs.Compile.Overrides
import ViewSchema.Proofs.Reference.Unresolved
import ViewSchema.Proofs.Compile.SectionProps
import ViewSchema.Proofs.Compile.SuppliedChildren
import ViewSchema.Proofs.Route.Matching
import ViewSchema.Proofs.Config.Setting
import ViewSchema.Proofs.Diff.Conservation
import ViewSchema.Proofs.Route.Detection
import ViewSchema.Proofs.Route.Flattening
import ViewSchema.Proofs.Markup.Nesting
import ViewSchema.Proofs.Node.MarkupText
import ViewSchema.Proofs.Markup.Decoding
import ViewSchema.Proofs.Container.Classes
import ViewSchema.Proofs.ClassList.Order
import ViewSchema.Proofs.Url.Form
import ViewSchema.Proofs.Fetch.Query
import ViewSchema.Proofs.ClassList.Toggling
import ViewSchema.Proofs.Number.FixedPlaces
import ViewSchema.Proofs.Format.Grouping
