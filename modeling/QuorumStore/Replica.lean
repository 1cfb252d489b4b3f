import QuorumStore.HintTable
import QuorumStore.Message
import QuorumStore.Ring
import QuorumStore.Store

namespace QuorumStore

structure Replica where
  store : Store
  hints : HintTable
  deriving DecidableEq

inductive ReplicaError where
  | store (error : StoreError)
  deriving DecidableEq

def ReplicaError.message : ReplicaError → String
  | .store e => "store error: " ++ e.message

structure Placement where
  ring : Ring
  copies : Nat

namespace Placement

def owners (p : Placement) (key : Key) : List NodeId := (p.ring.preference key).take p.copies

def shared (p : Placement) (a b : NodeId) (key : Key) : Bool :=
  let owners := p.owners key
  decide (a ∈ owners) && decide (b ∈ owners)

end Placement

namespace Replica

def volatile : Replica := ⟨.volatile, .volatile⟩

instance : Inhabited Replica := ⟨volatile⟩

def read (r : Replica) (key : Key) : Except ReplicaError (List Version) :=
  match r.store.read key with
  | .error e => .error (.store e)
  | .ok held => .ok (Version.reconcile (held.getD [] ++ r.hints.hinted key))

def merge (r : Replica) (key : Key) (vs : List Version) :
    Except ReplicaError Bool × Replica :=
  match r.store.merge key vs with
  | .error e => (.error (.store e), r)
  | .ok (outcome, store) => (.ok outcome.changed, { r with store })

def entries (r : Replica) (pass : Key → Bool) : List Key →
    Except ReplicaError (List (Key × Hash))
  | [] => .ok []
  | key :: keys =>
      if pass key then
        match r.store.read key with
        | .error e => .error (.store e)
        | .ok none => r.entries pass keys
        | .ok (some vs) => (r.entries pass keys).map ((key, Version.setFingerprint vs) :: ·)
      else r.entries pass keys

def digest (r : Replica) (p : Placement) (self peer : NodeId) (depth : Nat) :
    Except ReplicaError Digest :=
  let depth := min depth Digest.maxDepth
  (r.entries (p.shared self peer) r.store.keys).map (Digest.ofEntries depth)

def bucketKeys (r : Replica) (p : Placement) (self peer : NodeId) (depth : Nat)
    (buckets : List Nat) : Except ReplicaError (SortedMap Key Hash) :=
  let depth := min depth Digest.maxDepth
  (r.entries (fun key => decide (bucketOf key depth ∈ buckets) && p.shared self peer key)
    r.store.keys).map SortedMap.ofList

def handle (p : Placement) (self : NodeId) (now : UInt64) (r : Replica) :
    Request → Except ReplicaError Response × Replica
  | .get key => ((r.read key).map .versions, r)
  | .put key v =>
      let (result, r) := r.merge key [v]
      (result.map (fun _ => .ack), r)
  | .putHinted target key v => (.ok .ack, { r with hints := r.hints.record target key v now })
  | .repairPush key vs =>
      let (result, r) := r.merge key vs
      (result.map .merged, r)
  | .handoff key vs =>
      let (result, r) := r.merge key vs
      (result.map .merged, r)
  | .digest peer depth => ((r.digest p self peer depth).map .digest, r)
  | .bucketKeys peer depth buckets => ((r.bucketKeys p self peer depth buckets).map .keys, r)

end Replica

end QuorumStore
