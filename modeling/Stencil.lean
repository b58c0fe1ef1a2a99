import Stencil.Exchange.Failure
import Stencil.Exchange.Program
import Stencil.Exchange.Settings
import Stencil.Stream
import Stencil.Proofs.Render.Chunks
import Stencil.Proofs.Render.Links
import Stencil.Proofs.Render.Coupling
import Stencil.Proofs.Render.Ownership
import Stencil.Proofs.Render.Passage
import Stencil.Proofs.Engine.Loads
import Stencil.Proofs.Render.Prompt
import Stencil.Proofs.Render.Stalls
import Stencil.Proofs.Render.Events
import Stencil.Proofs.Render.Steps
import Stencil.Proofs.Render.FunctionFree
import Stencil.Proofs.Render.Termination
import Stencil.Proofs.Render.Schedules
import Stencil.Proofs.Engine.Twins
import Stencil.Proofs.Render.Amid
import Stencil.Proofs.Render.Settings
import Stencil.Proofs.Render.Congruence
import Stencil.Proofs.Render.Equal
import Stencil.Proofs.Render.Direct
import Stencil.Proofs.Render.Meaning
import Stencil.Proofs.Source.Print
import Stencil.Proofs.Source.Canonical
import Stencil.Proofs.Source.Lexemes
import Stencil.Proofs.Source.Quotes
import Stencil.Proofs.Source.Heads
import Stencil.Proofs.Source.Rereading
import Stencil.Proofs.Source.Reading
import Stencil.Proofs.Source.Roundtrip
import Stencil.Proofs.Source.Parts
import Stencil.Proofs.Source.Retention
import Stencil.Proofs.Text.Markup
import Stencil.Proofs.Source.References
import Stencil.Proofs.Render.Escaping
import Stencil.Proofs.Render.Playing
import Stencil.Proofs.Engine.Stocks
import Stencil.Proofs.Render.Overlooking
import Stencil.Proofs.Render.Registry
import Stencil.Proofs.Engine.Pointers
import Stencil.Proofs.Render.Sharing
import Stencil.Proofs.Render.Misses
import Stencil.Proofs.Engine.Sources
import Stencil.Proofs.Render.Labels
import Stencil.Proofs.Render.Abreast
import Stencil.Proofs.Render.Evenly
import Stencil.Proofs.Render.Level
import Stencil.Proofs.Render.Results
import Stencil.Proofs.Render.Caching
import Stencil.Proofs.Render.Rounds
import Stencil.Proofs.Render.Items
import Stencil.Proofs.Render.Drivers
import Stencil.Proofs.Render.Collecting
import Stencil.Proofs.Render.Quoting
import Stencil.Proofs.Json.Scalars
import Stencil.Proofs.Json.Values
import Stencil.Proofs.Exchange.Programs
import Stencil.Proofs.Exchange.Loading
import Stencil.Proofs.Engine.Redirects
import Stencil.Proofs.Render.History
import Stencil.Proofs.Render.Quiescence
import Stencil.Proofs.Render.SideText
import Stencil.Proofs.Render.Places
import Stencil.Proofs.Render.Entries
import Stencil.Proofs.Render.Lasting
import Stencil.Proofs.Render.Redirection
import Stencil.Proofs.Render.Nesting
import Stencil.Proofs.Render.Blame
import Stencil.Proofs.Render.Attribution
import Stencil.Proofs.Source.Spelling
import Stencil.Proofs.Render.Transparent
import Stencil.Proofs.Source.Hoisting
import Stencil.Proofs.Source.Progress
import Stencil.Proofs.Source.LineBreaks
import Stencil.Proofs.Render.Scoping
import Stencil.Proofs.Render.Slots
import Stencil.Proofs.Render.Holdings
import Stencil.Proofs.Render.Tenure
import Stencil.Proofs.Source.NormalForm
import Stencil.Proofs.Text.Decoding
import Stencil.Proofs.Json.Data
import Stencil.Proofs.Render.Portions
import Stencil.Proofs.Render.Iterations
import Stencil.Proofs.Render.Indexing
import Stencil.Proofs.Render.Chronicle
