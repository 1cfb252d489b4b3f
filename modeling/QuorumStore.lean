import QuorumStore.Cluster.Holding
import QuorumStore.Cluster.Upkeep
import QuorumStore.Config.Reader
import QuorumStore.DigestArena
import QuorumStore.Session
import QuorumStore.Proofs.Survival
import QuorumStore.Proofs.Staleness
import QuorumStore.Proofs.Calls
import QuorumStore.Proofs.Preservation
import QuorumStore.Proofs.Interruption
import QuorumStore.Proofs.Placement
import QuorumStore.Proofs.ReadRounds
import QuorumStore.Proofs.ReadLedger
import QuorumStore.Proofs.WriteLedger
import QuorumStore.Proofs.Operations
import QuorumStore.Proofs.Underway
import QuorumStore.Proofs.UnderwayLedger
import QuorumStore.Proofs.Schedules
import QuorumStore.Proofs.Landing
import QuorumStore.Proofs.StrictQuorum
import QuorumStore.Proofs.JsonText
import QuorumStore.Proofs.RecordText
import QuorumStore.Proofs.WrittenForms
import QuorumStore.Proofs.SettingsCheck
import QuorumStore.Proofs.HintKeeping
import QuorumStore.Proofs.StableFailures
import QuorumStore.Proofs.SloppyQuorum
import QuorumStore.Proofs.CalmCluster
import QuorumStore.Proofs.WriteIdentity
import QuorumStore.Proofs.Checksum
import QuorumStore.Proofs.LogFrames
import QuorumStore.Proofs.TornTail
import QuorumStore.Proofs.Recovery
import QuorumStore.Proofs.Convergence
import QuorumStore.Proofs.SessionHistory
import QuorumStore.Proofs.SessionReads
import QuorumStore.Proofs.StrictRounds
import QuorumStore.Proofs.WriteOrder
import QuorumStore.Proofs.DigestDiff
import QuorumStore.Proofs.RepairCalls
import QuorumStore.Proofs.SharedKeys
import QuorumStore.Proofs.RepairPass
import QuorumStore.Proofs.RepairIdle
import QuorumStore.Proofs.FailingPass
import QuorumStore.Proofs.RepairConvergence
import QuorumStore.Proofs.DeliverySteps
import QuorumStore.Proofs.HintCustody
import QuorumStore.Proofs.WriteSpread
import QuorumStore.Proofs.DeliveryPlan
import QuorumStore.Proofs.DeliveryRounds
import QuorumStore.Proofs.FullReplication
import QuorumStore.Proofs.EngineContents
import QuorumStore.Proofs.FingerprintText
import QuorumStore.Proofs.DigestContents
import QuorumStore.Proofs.ArenaLayout
import QuorumStore.Proofs.SiblingGroups
import QuorumStore.Proofs.Membership
import QuorumStore.Proofs.PlacementChange
import QuorumStore.Proofs.ClockwiseWalk
import QuorumStore.Proofs.CorruptedLog
import QuorumStore.Proofs.JsonExtent
import QuorumStore.Proofs.FalseLength
import QuorumStore.Proofs.DeliveryProgress
import QuorumStore.Proofs.HintContents
import QuorumStore.Proofs.QuorumCounts
import QuorumStore.Proofs.MergeNews
import QuorumStore.Proofs.VectorLattice
import QuorumStore.Proofs.ReadResolution
import QuorumStore.Proofs.PartialRepair
import QuorumStore.Proofs.SessionMemory
import QuorumStore.Proofs.SessionContext
import QuorumStore.Proofs.Supersession
import QuorumStore.Proofs.HeardNodes
import QuorumStore.Proofs.RepairPushes
import QuorumStore.Proofs.ReadRepair
import QuorumStore.Proofs.DigestDepth
import QuorumStore.Proofs.ConfiguredCluster
