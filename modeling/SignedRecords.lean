import SignedRecords.Cache.Janitor
import SignedRecords.Dht.Bootstrap
import SignedRecords.Dht.Exchange
import SignedRecords.Main
import SignedRecords.Proofs.Authenticity
import SignedRecords.Proofs.Bencode
import SignedRecords.Proofs.BitBuffers
import SignedRecords.Proofs.Cache
import SignedRecords.Proofs.CacheAccounts
import SignedRecords.Proofs.CacheOrder
import SignedRecords.Proofs.CachePurges
import SignedRecords.Proofs.CacheRuns
import SignedRecords.Proofs.Codec
import SignedRecords.Proofs.Correlation
import SignedRecords.Proofs.Deadlines
import SignedRecords.Proofs.Durability
import SignedRecords.Proofs.FailedCalls
import SignedRecords.Proofs.FieldCounts
import SignedRecords.Proofs.ItemRuns
import SignedRecords.Proofs.Lookups
import SignedRecords.Proofs.NeutralKey
import SignedRecords.Proofs.NodeRuns
import SignedRecords.Proofs.OctetDistances
import SignedRecords.Proofs.PutAccounts
import SignedRecords.Proofs.PutOutcomes
import SignedRecords.Proofs.PutThenGet
import SignedRecords.Proofs.QueryCounts
import SignedRecords.Proofs.RateLimits
import SignedRecords.Proofs.ReadYourWrites
import SignedRecords.Proofs.ReplySizes
import SignedRecords.Proofs.RepublishPages
import SignedRecords.Proofs.RepublishRuns
import SignedRecords.Proofs.RepublishScans
import SignedRecords.Proofs.RoundTrip
import SignedRecords.Proofs.RoutingRuns
import SignedRecords.Proofs.SchedulerRuns
import SignedRecords.Proofs.SchedulerTimes
import SignedRecords.Proofs.SearchOutcomes
import SignedRecords.Proofs.SequentialCalls
import SignedRecords.Proofs.ServiceEvents
import SignedRecords.Proofs.ServicePieces
import SignedRecords.Proofs.ServiceRuns
import SignedRecords.Proofs.SignedOctets
import SignedRecords.Proofs.SpawnedNetworks
import SignedRecords.Proofs.Spelling
import SignedRecords.Proofs.Stall
import SignedRecords.Proofs.StoreKinds
import SignedRecords.Proofs.Stores
import SignedRecords.Proofs.Tables
import SignedRecords.Proofs.Targets
import SignedRecords.Proofs.Text
import SignedRecords.Proofs.Walks
import SignedRecords.Proofs.Wire
import SignedRecords.Proofs.WireForms
import SignedRecords.Proofs.WriteOrder
import SignedRecords.Proofs.ZBase32
import SignedRecords.Proofs.ZeroSequence
import SignedRecords.Simulation.Datagrams
import SignedRecords.Simulation.Dht
import SignedRecords.Simulation.Scheduler
import SignedRecords.Simulation.Service
import SignedRecords.Store.Scan
