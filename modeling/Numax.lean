import Numax.Theorems.AntiEntropy
import Numax.Theorems.Atomicity
import Numax.Theorems.BroadcastQueue
import Numax.Theorems.CandidateLeases
import Numax.Theorems.CheckpointCodec
import Numax.Theorems.ClusterPulls
import Numax.Theorems.CounterReads
import Numax.Theorems.Delivery
import Numax.Theorems.DiscoveryWatch
import Numax.Theorems.DnsLifetime
import Numax.Theorems.Generations
import Numax.Theorems.Isolation
import Numax.Theorems.KeyPaging
import Numax.Theorems.KeyTraversal
import Numax.Theorems.LegacyMigration
import Numax.Theorems.LocalWrites
import Numax.Theorems.MapLaws
import Numax.Theorems.MdnsEndpoints
import Numax.Theorems.MdnsInstances
import Numax.Theorems.MigrationBudget
import Numax.Theorems.ObservedRemove
import Numax.Theorems.OpLogDistinct
import Numax.Theorems.PeerView
import Numax.Theorems.Reconnect
import Numax.Theorems.RegisterLaws
import Numax.Theorems.Restart
import Numax.Theorems.RgaListing
import Numax.Theorems.SdkRefinement
import Numax.Theorems.SeedCache
import Numax.Theorems.SeedSchedule
