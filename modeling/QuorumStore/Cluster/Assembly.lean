import QuorumStore.Cluster
import QuorumStore.Config
import QuorumStore.Coordinator

namespace QuorumStore

structure Disk where
  store : LogFile := .absent
  hints : LogFile := .absent
  deriving DecidableEq

inductive AssemblyError where
  | config (error : ConfigError)
  | store (error : StoreError)
  | hints (error : HintTableError)
  | coordinator (error : StoreFailure)
  deriving DecidableEq

def AssemblyError.message : AssemblyError → String
  | .config e => "config error: " ++ e.message
  | .store e => "store error: " ++ e.message
  | .hints e => "hint store error: " ++ e.message
  | .coordinator e => "kv error: " ++ e.message

namespace Replica

def open? (disk : Disk) : Except AssemblyError Replica :=
  match Store.open? disk.store, HintTable.open? disk.hints with
  | .error e, _ => .error (.store e)
  | .ok _, .error e => .error (.hints e)
  | .ok store, .ok hints => .ok ⟨store, hints⟩

def disk (r : Replica) : Disk := ⟨r.store.engine.file, r.hints.engine.file⟩

end Replica

namespace Config

def placement (c : Config) : Placement :=
  ⟨Ring.ofNodes c.ring.virtualNodes c.nodes, c.quorum.n⟩

def callTimeout (c : Config) : Nat := max c.quorum.readTimeout c.quorum.writeTimeout

def replicas (c : Config) (disks : SortedMap NodeId Disk) :
    Except AssemblyError (SortedMap NodeId Replica) :=
  if c.storage.durable then
    (c.nodes.mapM (fun n =>
      (Replica.open? ((disks.get? n).getD {})).map (fun r => (n, r)))).map SortedMap.ofList
  else .ok (SortedMap.ofList (c.nodes.map (fun n => (n, .volatile))))

def coordinators (c : Config) (ring : Ring) : Except AssemblyError (SortedMap NodeId Coordinator) :=
  ((c.nodes.mapM (fun n =>
    (Coordinator.create? n (Config.toQuorum c.quorum) ring).map (fun k => (n, k)))).map
      SortedMap.ofList).mapError .coordinator

def assemble (c : Config) (clock : UInt64) (disks : SortedMap NodeId Disk) :
    Except AssemblyError Cluster := do
  c.validate.mapError (fun reason => .config (.invalid reason))
  if (SyncPolicy.parse? c.storage.sync).isNone then
    .error (.config (.invalid (.unreadSync c.storage.sync)))
  let replicas ← c.replicas disks
  let _ ← c.coordinators c.placement.ring
  pure (Cluster.ofReplicas c.placement c.callTimeout clock replicas)

def coordinator? (c : Config) (cluster : Cluster) (n : NodeId) : Option Coordinator :=
  (c.coordinators cluster.placement.ring).toOption.bind (fun ks => ks.get? n)

end Config

def Cluster.disks (c : Cluster) : SortedMap NodeId Disk :=
  c.replicas.mapValues (fun _ r => r.disk)

end QuorumStore
