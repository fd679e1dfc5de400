import ContextLayer.Text
import ContextLayer.Json
import ContextLayer.Proof.CanonicalJson
import ContextLayer.Proof.Vtoken
import ContextLayer.Proof.Gateway
import ContextLayer.Proof.Sessions
import ContextLayer.Proof.JobIds
import ContextLayer.Proof.Acquisition
import ContextLayer.Proof.Attempts
import ContextLayer.Proof.Picture
import ContextLayer.Proof.Ledger
import ContextLayer.Proof.Filings
import ContextLayer.Proof.Resolutions
import ContextLayer.Proof.Changelog
import ContextLayer.Proof.Inbox
import ContextLayer.Proof.Redelivery
import ContextLayer.Proof.Publish
import ContextLayer.Proof.PyJson
import ContextLayer.Proof.Snapshot
import ContextLayer.Proof.SnapshotDiff
import ContextLayer.Proof.Scan
import ContextLayer.Proof.Inventory
import ContextLayer.Proof.Severity
import ContextLayer.Render
import ContextLayer.Proof.PyText
import ContextLayer.Proof.Render
import ContextLayer.Proof.RenderTree
import ContextLayer.Proof.Slots
import ContextLayer.Proof.References
import ContextLayer.Proof.Connections
import ContextLayer.Proof.Runner
import ContextLayer.Proof.Kbread
import ContextLayer.Proof.Chains
import ContextLayer.Proof.Presses
import ContextLayer.Proof.LineageWalk
import ContextLayer.Proof.KbTools
import ContextLayer.Proof.Pages
import ContextLayer.Proof.Statuses
import ContextLayer.Proof.DiffLaws
import ContextLayer.Proof.Freshness
import ContextLayer.Proof.Acceptance
import ContextLayer.Proof.DeliveryRecord
import ContextLayer.Proof.SyncPrs
import ContextLayer.Proof.Triage
import ContextLayer.Proof.KbHealth
import ContextLayer.Proof.Emission
import ContextLayer.Proof.Wheel
import ContextLayer.Proof.Claiming
import ContextLayer.Proof.Finalize
import ContextLayer.Proof.Executors
import ContextLayer.Proof.WalkLaw
import ContextLayer.Proof.Attestations
import ContextLayer.Proof.Windows
import ContextLayer.Proof.Scrub
import ContextLayer.Proof.LedgerReads
import ContextLayer.Proof.Profiles
import ContextLayer.Proof.ArtifactQueries
import ContextLayer.Proof.PushDatasets
import ContextLayer.Proof.LineageVisibility
import ContextLayer.Proof.Search
import ContextLayer.Proof.Catalog
import ContextLayer.Proof.Pbir
import ContextLayer.Lib.Packing
import ContextLayer.Lib.Alignment
import ContextLayer.Worklist
import ContextLayer.Benchmark
import ContextLayer.Proof.Worklist
import ContextLayer.Proof.Benchmark
import ContextLayer.PyValues
import ContextLayer.Encoding
import ContextLayer.Proof.Encoding
import ContextLayer.PlanTables
import ContextLayer.Proof.PlanTables
import ContextLayer.DeliveryGate
import ContextLayer.Proof.DeliveryGate
import ContextLayer.Proof.Loads
import ContextLayer.GraphWriter
import ContextLayer.Proof.GraphWriter
import ContextLayer.Lib.Percent
import ContextLayer.LookerStudio
import ContextLayer.Proof.LookerStudio
import ContextLayer.Restamp
import ContextLayer.Proof.Restamp
import ContextLayer.Rerender
import ContextLayer.Proof.Rewrites
import ContextLayer.Proof.Rerender
import ContextLayer.Proof.RateLimits
import ContextLayer.Proof.Mcp
import ContextLayer.Proof.Migrate
import ContextLayer.Proof.Visibility
import ContextLayer.Proof.Vault
