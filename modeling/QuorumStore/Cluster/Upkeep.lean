import QuorumStore.Cluster.Assembly

namespace QuorumStore

inductive Task where
  | delivery (node : NodeId)
  | repair
  deriving DecidableEq

structure Upkeep where
  tasks : List (InFlight Task)
  time : Nat

namespace Upkeep

def period (c : Config) : Task → Nat
  | .delivery _ => max c.hints.interval 1 * 1000
  | .repair => c.repair.interval * 1000

def run (c : Config) (task : Task) (cluster : Cluster) : Cluster :=
  match task with
  | .delivery n => (cluster.deliver (Config.deliverySettings c.hints) n).2
  | .repair => (cluster.syncFirst c.repair.digestDepth).2

def idle : Upkeep := ⟨[], 0⟩

def start (c : Config) (cluster : Cluster) : Upkeep × Cluster :=
  let deliveries := if c.hints.enabled then cluster.replicas.keys.map Task.delivery else []
  let repairs := if c.repair.interval = 0 then [] else [Task.repair]
  (⟨(deliveries ++ repairs).map (fun t => ⟨period c t, t⟩), 0⟩,
   deliveries.foldl (fun cluster t => run c t cluster) cluster)

def runDue (c : Config) (limit : Nat) :
    Nat → List (InFlight Task) → Cluster → List (InFlight Task) × Cluster
  | 0, tasks, cluster => (tasks, cluster)
  | fuel + 1, tasks, cluster =>
      match InFlight.earliest tasks with
      | none => (tasks, cluster)
      | some (next, rest) =>
          if limit < next.due then (tasks, cluster)
          else
            runDue c limit fuel (rest ++ [⟨next.due + period c next.answer, next.answer⟩])
              (run c next.answer cluster)

def pass (c : Config) (milliseconds : Nat) (u : Upkeep) (cluster : Cluster) : Upkeep × Cluster :=
  let limit := u.time + milliseconds
  -- every run is at least a second later than the last one of its task
  let (tasks, cluster) :=
    runDue c limit (u.tasks.length * (milliseconds / 1000 + 1)) u.tasks cluster
  (⟨tasks, limit⟩, cluster)

end Upkeep

end QuorumStore
