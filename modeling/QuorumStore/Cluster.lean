import QuorumStore.HintDelivery
import QuorumStore.Repair
import QuorumStore.Replica

namespace QuorumStore

structure Condition where
  delay : Nat := 0
  lies : List RequestKind := []
  cutOff : Bool := false
  down : Bool := false
  unregistered : Bool := false
  stalled : Bool := false
  deriving DecidableEq

structure Cluster where
  placement : Placement
  callTimeout : Nat
  clock : UInt64
  replicas : SortedMap NodeId Replica
  conditions : SortedMap NodeId Condition
  latency : Nat
  lossy : Bool
  -- who takes a further hint for the target and key of the next handoff, just before it
  race : Option (NodeId × Version)
  tally : Tally

namespace Cluster

def ofReplicas (placement : Placement) (callTimeout : Nat) (clock : UInt64)
    (replicas : SortedMap NodeId Replica) : Cluster :=
  ⟨placement, callTimeout, clock, replicas, ∅, 0, false, none, .empty⟩

def ofNodes (placement : Placement) (callTimeout : Nat) (clock : UInt64) (ns : List NodeId) :
    Cluster :=
  ofReplicas placement callTimeout clock (SortedMap.ofList (ns.map (fun n => (n, .volatile))))

def condition (c : Cluster) (n : NodeId) : Condition := (c.conditions.get? n).getD {}

def alter (c : Cluster) (n : NodeId) (f : Condition → Condition) : Cluster :=
  { c with conditions := c.conditions.insert n (f (c.condition n)) }

@[simp, grind =] theorem condition_alter (c : Cluster) (n m : NodeId) (f : Condition → Condition) :
    (c.alter n f).condition m = if m = n then f (c.condition n) else c.condition m := by
  by_cases hm : m = n <;> simp [condition, alter, hm]

@[simp] theorem lossy_alter (c : Cluster) (n : NodeId) (f : Condition → Condition) :
    (c.alter n f).lossy = c.lossy := rfl

def isUp (c : Cluster) (n : NodeId) : Bool := !(c.condition n).down

def isRegistered (c : Cluster) (n : NodeId) : Bool :=
  c.replicas.contains n && !(c.condition n).unregistered

@[simp, grind =] theorem isUp_alter (c : Cluster) (n m : NodeId) (f : Condition → Condition) :
    (c.alter n f).isUp m = if m = n then !(f (c.condition n)).down else c.isUp m := by
  by_cases hm : m = n <;> simp [isUp, hm]

@[simp, grind =] theorem isRegistered_alter (c : Cluster) (n m : NodeId) (f : Condition → Condition) :
    (c.alter n f).isRegistered m =
      if m = n then c.replicas.contains n && !(f (c.condition n)).unregistered
      else c.isRegistered m := by
  by_cases hm : m = n
  · subst hm
    simp [isRegistered, alter, condition]
  · simp only [isRegistered, condition_alter, if_neg hm]
    rfl

def count (m : Meter) (k : Nat) (c : Cluster) : Cluster := { c with tally := c.tally.add m k }

def place (c : Cluster) (n : NodeId) (r : Replica) : Cluster :=
  if c.replicas.contains n then { c with replicas := c.replicas.insert n r } else c

def replica (c : Cluster) (n : NodeId) : Replica := (c.replicas.get? n).getD .volatile

def handle (c : Cluster) (n : NodeId) (request : Request) :
    Except ReplicaError Response × Cluster :=
  let (answer, r) := (c.replica n).handle c.placement n c.clock request
  let c := c.place n r
  (answer, if request.kind = .putHinted then c.count .hintsStored 1 else c)

def reach (c : Cluster) (n : NodeId) (request : Request) : Reply × Cluster :=
  if !c.isRegistered n || !c.isUp n then (⟨.error (.unreachable n), 0⟩, c)
  else if (c.condition n).stalled && request.usesStore then
    (⟨.error (.timeout n), c.callTimeout⟩, c)
  else
    let (answer, c) := c.handle n request
    (⟨answer.mapError (fun e => .failed n e.message), 0⟩, c)

def reachCounted (c : Cluster) (n : NodeId) (request : Request) : Reply × Cluster :=
  let (reply, c) := (c.count (.sent request.kind) 1).reach n request
  (reply, if reply.answer.isOk then c else c.count (.failed request.kind) 1)

def overtake (c : Cluster) (n : NodeId) (request : Request) : Cluster :=
  match request, c.race with
  | .handoff key _, some (holder, v) => ({ c with race := none }.handle holder (.putHinted n key v)).2
  | _, _ => c

def send (n : NodeId) (request : Request) (c : Cluster) : Reply × Cluster :=
  let condition := c.condition n
  let c := c.overtake n request
  if request.kind ∈ condition.lies then (⟨.ok .ack, condition.delay⟩, c)
  else if condition.cutOff then (⟨.error (.unreachable n), condition.delay⟩, c)
  else if c.lossy then
    (⟨.error (.failed n "chaos: random failure"), condition.delay + c.latency⟩, c)
  else
    let (reply, c) := c.reachCounted n request
    ({ reply with delay := condition.delay + c.latency + reply.delay }, c)

def network : Network Cluster := ⟨send, clock, count⟩

def hintsOf (n : NodeId) : HintAccess Cluster :=
  ⟨fun c => (c.replica n).hints, fun hints c => c.place n { c.replica n with hints }⟩

def deliver (settings : DeliverySettings) (n : NodeId) (c : Cluster) : DeliveryReport × Cluster :=
  HintDelivery.cycle network (hintsOf n) settings c

def deliverFrom (settings : DeliverySettings) :
    List NodeId → Cluster → DeliveryReport × Cluster
  | [], c => (.none, c)
  | n :: ns, c =>
      let (report, c) := c.deliver settings n
      let (reports, c) := deliverFrom settings ns c
      (report.add reports, c)

def deliverAll (settings : DeliverySettings) (c : Cluster) : DeliveryReport × Cluster :=
  deliverFrom settings c.replicas.keys c

def syncFirst (depth : Nat) (c : Cluster) : Option (Except RepairError RepairReport) × Cluster :=
  match c.placement.ring.nodes with
  | a :: b :: _ =>
      let (result, c) := Repair.syncPair network depth a b c
      (some result, c)
  | _ => (none, c)

end Cluster

end QuorumStore
