import QuorumStore.Quorum
import QuorumStore.ReadRound
import QuorumStore.Repair
import QuorumStore.WriteRound

namespace QuorumStore

inductive StoreFailure where
  | quorumUnavailable (needed got : Nat)
  | placementUnavailable (shortage : Shortage)
  | notFound
  | invalidQuorum (error : QuorumError)
  | repair (error : RepairError)
  | counterExhausted (node : NodeId)
  deriving DecidableEq

def StoreFailure.message : StoreFailure → String
  | .quorumUnavailable needed got =>
      "quorum not reached: need " ++ toString needed ++ ", got " ++ toString got
  | .placementUnavailable s =>
      "not enough nodes for placement: need " ++ toString s.needed ++ ", have " ++
        toString s.available
  | .notFound => "key not found"
  | .invalidQuorum e => "invalid quorum config: " ++ e.message
  | .repair e => "repair failed: " ++ e.message
  | .counterExhausted n => "counter of node " ++ n ++ " exhausted"

structure WriteAck where
  vector : VersionVector
  timestamp : UInt64
  acks : Nat
  hinted : Nat
  deriving DecidableEq

structure Coordinator where
  id : NodeId
  quorum : Quorum
  ring : Ring
  deriving DecidableEq

inductive Payload where
  | value (bytes : Bytes)
  | deletion
  deriving DecidableEq

def Payload.version (p : Payload) (vector : VersionVector) (timestamp : UInt64) : Version :=
  match p with
  | .value bytes => .live bytes vector timestamp
  | .deletion => .deletion vector timestamp

def Payload.meter : Payload → Meter
  | .value _ => .puts
  | .deletion => .deletes

namespace Coordinator

def create? (id : NodeId) (quorum : Quorum) (ring : Ring) : Except StoreFailure Coordinator :=
  (quorum.validate.mapError .invalidQuorum).map (fun _ => ⟨id, quorum, ring⟩)

variable {σ : Type}

def stamp? (id : NodeId) (seen : List Version) (context : VersionVector) : Option VersionVector :=
  ((Version.mergedVector seen).merge context).increment? id

def accept (net : Network σ) (c : Coordinator) (key : Key) (payload : Payload)
    (context : VersionVector) (s : σ) : Except StoreFailure (WriteAck × WriteRound) × σ :=
  let q := c.quorum
  let s := net.count payload.meter 1 s
  match c.ring.replicas key q.n with
  | .error shortage => (.error (.placementUnavailable shortage), s)
  | .ok replicas =>
      let standIns := c.ring.standIns key replicas
      let (seen, s) := ReadRound.run net q.sloppy key replicas standIns q.w q.writeTimeout s
      match stamp? c.id seen.versions context with
      | none => (.error (.counterExhausted c.id), s)
      | some vector =>
          let timestamp := net.now s
          let (round, s) := WriteRound.run net q.sloppy key (payload.version vector timestamp)
            replicas standIns q.w seen.time q.writeTimeout s
          if round.acks < q.w then
            (.error (.quorumUnavailable q.w round.acks), net.count .quorumFailures 1 s)
          else (.ok (⟨vector, timestamp, round.acks, round.hinted⟩, round), s)

def write (net : Network σ) (c : Coordinator) (key : Key) (payload : Payload)
    (context : VersionVector) (s : σ) : Except StoreFailure WriteAck × σ :=
  match c.accept net key payload context s with
  | (.error e, s) => (.error e, s)
  | (.ok (ack, round), s) =>
      -- the client has its answer, the rest of the round is heard for the sake of stand-ins alone
      let v := payload.version ack.vector ack.timestamp
      (.ok ack, (WriteRound.drain net c.quorum.sloppy key v round.patience round s).2)

def lateAnswers (limit : Option Nat) (pending : List (InFlight ReadAnswer)) :
    List (NodeId × List Version) :=
  pending.filterMap (fun call =>
    match call.answer.versions with
    | .error _ => none
    | .ok vs =>
        if call.answer.isStandIn || !(limit.all (fun t => decide (call.due < t))) then none
        else some (call.answer.node, vs))

def repairObserved (net : Network σ) (key : Key) (canonical : List Version) (round : ReadRound)
    (deadline : Option Nat) (s : σ) : σ :=
  let (_, done, s) := Repair.pushResolved net key canonical round.time round.primaries s
  -- past the deadline, what has come while the first pushes were made is still heard
  let limit := deadline.map (fun d => max d (done + 1))
  let (_, _, s) := Repair.pushResolved net key canonical done (lateAnswers limit round.pending) s
  s

def read (net : Network σ) (c : Coordinator) (key : Key) (s : σ) : Except StoreFailure Read × σ :=
  let q := c.quorum
  let s := net.count .gets 1 s
  match c.ring.replicas key q.n with
  | .error shortage => (.error (.placementUnavailable shortage), s)
  | .ok replicas =>
      let standIns := c.ring.standIns key replicas
      let (round, s) := ReadRound.run net q.sloppy key replicas standIns q.r q.readTimeout s
      if round.successes < q.r then
        (.error (.quorumUnavailable q.r round.successes), net.count .quorumFailures 1 s)
      else
        match Version.reconcile round.versions with
        | [] => (.error .notFound, s)
        | reconciled =>
            let resolution := Version.resolve q.policy reconciled
            let s := if resolution.read.any Read.isConflict then net.count .conflicts 1 s else s
            let s := match q.readRepair with
              | .disabled => s
              | .background => repairObserved net key resolution.canonical round none s
              | .inline =>
                  repairObserved net key resolution.canonical round (some q.readTimeout) s
            match resolution.read with
            | none => (.error .notFound, s)
            | some read => (.ok read, s)

end Coordinator

end QuorumStore
