import Pliego.Lib.Bytes
import Pliego.Lib.Hex
import Pliego.Lib.Fields
import Pliego.Lib.SortedMap
import Pliego.Lib.Sha2
import Pliego.Lib.Reach
import Pliego.Lib.Arena
import Pliego.Lib.Worklist
import Pliego.Log.Basic
import Pliego.Log.Chain
import Pliego.Log.Catalog
import Pliego.Fold.Projection
import Pliego.Fold.Replay
import Pliego.Fold.Scheduler
import Pliego.Fold.Agreement
import Pliego.Fold.Receipts
import Pliego.Data.Policy
import Pliego.Data.Idempotency
import Pliego.Data.Action
import Pliego.Data.AtMostOnce
import Pliego.Data.Builders
import Pliego.Data.Contract
import Pliego.Data.Grants
import Pliego.Data.Cache
import Pliego.Data.CacheManager
import Pliego.Data.CacheRun
import Pliego.Data.CacheIsolation
import Pliego.Data.Invalidation
import Pliego.Data.Session
import Pliego.Data.SessionRun
import Pliego.Hyphae.Wire
import Pliego.Hyphae.Signed
import Pliego.Hyphae.Payload
import Pliego.Hyphae.Replay
import Pliego.Hyphae.Grammar
import Pliego.Reactive.Runtime
import Pliego.Reactive.Machine
import Pliego.Reactive.Nodes
import Pliego.Reactive.Ownership
import Pliego.Reactive.Sound
import Pliego.Reactive.Operations
import Pliego.Reactive.Running
import Pliego.Reactive.Steps
import Pliego.Lib.Text
import Pliego.Lib.Sorting
import Pliego.Router.Pattern
import Pliego.Router.Spec
import Pliego.Router.Graph
import Pliego.Router.Match
import Pliego.Router.Resolve
import Pliego.Router.Order
import Pliego.Router.Digest
import Pliego.Lib.FileTree
import Pliego.Router.Canonical
import Pliego.Router.Plain
import Pliego.Pboc.Manifest
import Pliego.Pboc.Router
import Pliego.Pboc.Admission
import Pliego.Pboc.Export
import Pliego.Pboc.Bundle
import Pliego.Pboc.Boot
import Pliego.Sdk.Manifest
import Pliego.Sdk.Component
import Pliego.Sdk.Capability
import Pliego.Sdk.Runtime
import Pliego.Sdk.Host
import Pliego.Lib.JsonText
import Pliego.Artifact.Path
import Pliego.Artifact.Report
import Pliego.Artifact.Verify
import Pliego.Artifact.Layout
import Pliego.Artifact.Namespace
import Pliego.Artifact.Exact
import Pliego.Artifact.Verified
import Pliego.Artifact.Spread
import Pliego.Artifact.Ledger
import Pliego.Artifact.Budgets
import Pliego.Lib.Commute
import Pliego.Log.Builder
import Pliego.Log.Registration
import Pliego.Log.Sealing
import Pliego.Log.SchemaSet
import Pliego.Lib.Decimal
import Pliego.Lib.JsonGrammar
import Pliego.Lib.JsonValue
import Pliego.Log.CanonicalNumber
import Pliego.Log.CanonicalJson
import Pliego.Log.KeyScan
import Pliego.Log.CanonicalValue
import Pliego.Adapters.Accepted
import Pliego.Native.Delivery
import Pliego.Native.Leaks
import Pliego.Native.Capabilities
import Pliego.Data.LoaderSound
import Pliego.Content.Markdown
import Pliego.Assets.Adaptive
import Pliego.Ssg.HeadUrls
import Pliego.Artifact.Refused
import Pliego.Artifact.Graph
import Pliego.Native.Drain
import Pliego.Render.Boundary
import Pliego.Native.Diagnostics
import Pliego.Native.Terminal
import Pliego.Inspect.Exact
import Pliego.Pboc.RuntimeContract
import Pliego.Hyphae.Retry
import Pliego.Fold.Drain
import Pliego.Log.NumberWords
import Pliego.Log.Interchange
import Pliego.Log.FailedSeals
import Pliego.Dom.KeyedResult
import Pliego.Data.OutboundPermits
import Pliego.Dom.Attribute
import Pliego.Dom.Errors
import Pliego.Data.CacheCoalescing
import Pliego.Fold.Envelope
import Pliego.Assets.Search
import Pliego.Log.KeyIndex
import Pliego.Fold.Failures
import Pliego.Fold.StateShape
