import TieredCache.Main
import TieredCache.Recency.Order
import TieredCache.Proofs.Recency.Filled
import TieredCache.Proofs.Recency.Refinement
import TieredCache.Proofs.Recency.Answers
import TieredCache.Proofs.Recency.Entries
import TieredCache.Proofs.Recency.Checked
import TieredCache.Proofs.Recency.Slots
import TieredCache.Proofs.Engine.Tier
import TieredCache.Proofs.Engine.Contents
import TieredCache.Proofs.Engine.Items
import TieredCache.Proofs.Engine.Subtractions
import TieredCache.Proofs.Engine.Session
import TieredCache.Proofs.Engine.Answers
import TieredCache.Proofs.Engine.Tiers
import TieredCache.Proofs.Row.Selection
import TieredCache.Proofs.Row.RoundTrip
import TieredCache.Proofs.Decimal
import TieredCache.Proofs.KeySpace
import TieredCache.Proofs.Workload.Parameters
import TieredCache.Proofs.Store.Records
import TieredCache.Proofs.Store.Map
import TieredCache.Proofs.Workload.Records
import TieredCache.Proofs.Store.Stock
import TieredCache.Proofs.Store.Fresh
import TieredCache.Proofs.Store.Sharding
import TieredCache.Proofs.Store.Affinity
import TieredCache.Proofs.Store.Windows
import TieredCache.Proofs.Store.Lookups
import TieredCache.Proofs.Store.Writes
import TieredCache.Proofs.Store.Room
import TieredCache.Proofs.Phase.Built
import TieredCache.Proofs.Phase.Turns
import TieredCache.Proofs.Phase.Order
import TieredCache.Proofs.Phase.Operations
import TieredCache.Proofs.Phase.Underway
import TieredCache.Proofs.Phase.Failures
import TieredCache.Proofs.Phase.Results
import TieredCache.Proofs.Phase.Loading
import TieredCache.Proofs.Phase.Room
import TieredCache.Proofs.Phase.Hits
import TieredCache.Proofs.Phase.Division
import TieredCache.Proofs.Engine.Accounts
import TieredCache.Proofs.Engine.Isolation
import TieredCache.Proofs.Engine.Evictions
import TieredCache.Proofs.Workload.Numbers
import TieredCache.Proofs.Row.Damage
import TieredCache.Proofs.Engine.Budget
import TieredCache.Proofs.Store.Bindings
import TieredCache.Proofs.Store.PoolCalls
import TieredCache.Proofs.Store.Setup
import TieredCache.Proofs.Errors
import TieredCache.Proofs.Text
import TieredCache.Proofs.Settings.Properties
import TieredCache.Proofs.Settings.Spelling
import TieredCache.Proofs.Settings.Keys
import TieredCache.Proofs.Settings.Hierarchy
import TieredCache.Proofs.Settings.Paths
import TieredCache.Proofs.CommandLine.Sources
