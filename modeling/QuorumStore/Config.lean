import QuorumStore.DigestTree
import QuorumStore.HintDelivery
import QuorumStore.Log
import QuorumStore.Quorum
import QuorumStore.Text.Quoted

namespace QuorumStore

structure RingConfig where
  virtualNodes : Nat := 64
  deriving DecidableEq

structure QuorumConfig where
  n : Nat := 3
  r : Nat := 2
  w : Nat := 2
  -- milliseconds
  readTimeout : Nat := 5000
  writeTimeout : Nat := 5000
  readRepair : ReadRepair := .background
  policy : ConflictPolicy := .siblings
  sloppy : Bool := true
  deriving DecidableEq

structure HintConfig where
  enabled : Bool := true
  -- seconds
  interval : Nat := 30
  maxPerCycle : Nat := 100
  maxAttempts : Option Nat := none
  deriving DecidableEq

structure RepairConfig where
  -- seconds, zero for no passes
  interval : Nat := 60
  digestDepth : Nat := 8
  deriving DecidableEq

structure StorageConfig where
  directory : String := "data"
  sync : String := "always"
  -- milliseconds
  batchInterval : Nat := 50
  durable : Bool := false
  deriving DecidableEq

structure Config where
  nodeId : NodeId
  nodes : List NodeId
  ring : RingConfig := {}
  quorum : QuorumConfig := {}
  hints : HintConfig := {}
  repair : RepairConfig := {}
  storage : StorageConfig := {}
  deriving DecidableEq

inductive Inconsistency where
  | noNodes
  | emptyNode
  | duplicateNode (node : NodeId)
  | unlistedNode (node : NodeId)
  | noVirtualNodes
  | noReplicas
  | tooManyReplicas (n nodes : Nat)
  | badReadQuorum (r n : Nat)
  | badWriteQuorum (w n : Nat)
  | digestTooDeep (depth : Nat)
  | noAttempts
  | unknownSync (word : String)
  | noBatchInterval
  | unreadSync (word : String)
  deriving DecidableEq

namespace Inconsistency

def message : Inconsistency → String
  | .noNodes => "nodes must not be empty"
  | .emptyNode => "nodes must not contain empty ids"
  | .duplicateNode n => "duplicate node id " ++ quoted n
  | .unlistedNode n => "node_id " ++ quoted n ++ " is not listed in nodes"
  | .noVirtualNodes => "ring.virtual_nodes must be > 0"
  | .noReplicas => "kv.n must be > 0"
  | .tooManyReplicas n nodes =>
      "kv.n (" ++ toString n ++ ") must be <= number of nodes (" ++ toString nodes ++ ")"
  | .badReadQuorum r n => "kv.r (" ++ toString r ++ ") must be in 1..=kv.n (" ++ toString n ++ ")"
  | .badWriteQuorum w n => "kv.w (" ++ toString w ++ ") must be in 1..=kv.n (" ++ toString n ++ ")"
  | .digestTooDeep depth =>
      "repair.digest_depth (" ++ toString depth ++ ") must be <= " ++ toString Digest.maxDepth
  | .noAttempts => "hints.max_attempts must be > 0"
  | .unknownSync word =>
      "storage.fsync " ++ quoted word ++ " must be one of [" ++
        ", ".intercalate (SyncPolicy.words.map quoted) ++ "]"
  | .noBatchInterval => "storage.batch_sync_interval_ms must be > 0 with batch fsync"
  | .unreadSync word => "unknown fsync policy " ++ quoted word

end Inconsistency

inductive ConfigError where
  | unreadable
  | malformed
  | invalid (reason : Inconsistency)
  deriving DecidableEq

def ConfigError.message : ConfigError → String
  | .unreadable => "settings cannot be read"
  | .malformed => "settings are malformed"
  | .invalid reason => "invalid config: " ++ reason.message

namespace Config

def checkNodes (seen : List NodeId) : List NodeId → Except Inconsistency Unit
  | [] => .ok ()
  | n :: ns =>
      if n.isEmpty then .error .emptyNode
      else if n ∈ seen then .error (.duplicateNode n)
      else checkNodes (n :: seen) ns

def validate (c : Config) : Except Inconsistency Unit := do
  if c.nodes.isEmpty then .error .noNodes
  checkNodes [] c.nodes
  if c.nodeId ∉ c.nodes then .error (.unlistedNode c.nodeId)
  if c.ring.virtualNodes = 0 then .error .noVirtualNodes
  if c.quorum.n = 0 then .error .noReplicas
  if c.nodes.length < c.quorum.n then .error (.tooManyReplicas c.quorum.n c.nodes.length)
  if c.quorum.r = 0 ∨ c.quorum.n < c.quorum.r then .error (.badReadQuorum c.quorum.r c.quorum.n)
  if c.quorum.w = 0 ∨ c.quorum.n < c.quorum.w then .error (.badWriteQuorum c.quorum.w c.quorum.n)
  if Digest.maxDepth < c.repair.digestDepth then .error (.digestTooDeep c.repair.digestDepth)
  if c.hints.maxAttempts = some 0 then .error .noAttempts
  let word := c.storage.sync.toLower
  if word ∉ SyncPolicy.words then .error (.unknownSync c.storage.sync)
  if word = "batch" ∧ c.storage.batchInterval = 0 then .error .noBatchInterval

def quorumsOverlap (c : Config) : Bool := decide (c.quorum.n < c.quorum.r + c.quorum.w)

def toQuorum (c : QuorumConfig) : Quorum :=
  ⟨c.n, c.w, c.r, c.writeTimeout, c.readTimeout, c.readRepair, c.policy, c.sloppy⟩

def deliverySettings (c : HintConfig) : DeliverySettings := ⟨c.maxPerCycle, c.maxAttempts⟩

end Config

end QuorumStore
