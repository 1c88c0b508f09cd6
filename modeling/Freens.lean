import Freens.Dht.ReadPath
import Freens.Resolver.Authenticity
import Freens.Renewal.Succession
import Freens.Cli.Recover
import Freens.Dht.HonestMiss
import Freens.Dht.NodeLists
import Freens.Dht.PoolRenewal
import Freens.Resolver.RatchetRuns
import Freens.Resolver.ArrivalOrder
import Freens.Resolver.ClaimScreens
import Freens.Dht.Convergence
import Freens.Dht.FetchStamps
import Freens.Resolver.LapsedCopy
import Freens.Turn.Relaying
import Freens.Turn.Accounting
import Freens.Stun.Binding
import Freens.Dht.Seeding
import Freens.Claims.Winner
import Freens.Resolver.VerifierHierarchy
import Freens.Dht.BestOffer
import Freens.Dht.WitnessTiming
import Freens.Dht.HoldingPeriod
import Freens.Wire.RecoveryQuorum
import Freens.Resolver.CachePersistence
import Freens.Resolver.LedgerCapacity
import Freens.TrustSync.SweepConvergence
import Freens.Resolver.NameStructure
import Freens.Resolver.SingleFlight
import Freens.Dht.NameForms
import Freens.Crypto.VerifyMemo
import Freens.Dht.SigningDomains
import Freens.Dht.Hearsay
import Freens.Dht.BucketGeometry
import Freens.Dht.GossipMedian
import Freens.Renewal.WebRenewal
import Freens.Cli.Handoff
import Freens.Keychain.Backup
import Freens.Naming.Alias
import Freens.Dht.Limiter
import Freens.Blacklist
