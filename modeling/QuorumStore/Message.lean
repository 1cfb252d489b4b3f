import QuorumStore.DigestTree
import QuorumStore.Resolution

namespace QuorumStore

inductive Request where
  | get (key : Key)
  | put (key : Key) (version : Version)
  | putHinted (target : NodeId) (key : Key) (version : Version)
  | repairPush (key : Key) (versions : List Version)
  | handoff (key : Key) (versions : List Version)
  | digest (peer : NodeId) (depth : Nat)
  | bucketKeys (peer : NodeId) (depth : Nat) (buckets : List Nat)
  deriving DecidableEq

inductive RequestKind where
  | get
  | put
  | putHinted
  | repairPush
  | handoff
  | digest
  | bucketKeys
  deriving DecidableEq, Repr

namespace RequestKind

def all : List RequestKind := [get, put, putHinted, repairPush, handoff, digest, bucketKeys]

def label : RequestKind → String
  | get => "get"
  | put => "put"
  | putHinted => "put_hinted"
  | repairPush => "repair_push"
  | handoff => "handoff"
  | digest => "digest"
  | bucketKeys => "bucket_keys"

end RequestKind

namespace Request

def kind : Request → RequestKind
  | .get _ => .get
  | .put _ _ => .put
  | .putHinted _ _ _ => .putHinted
  | .repairPush _ _ => .repairPush
  | .handoff _ _ => .handoff
  | .digest _ _ => .digest
  | .bucketKeys _ _ _ => .bucketKeys

def usesStore : Request → Bool
  | .putHinted _ _ _ => false
  | _ => true

end Request

inductive Response where
  | versions (versions : List Version)
  | ack
  | merged (changed : Bool)
  | digest (digest : Digest)
  | keys (keys : SortedMap Key Hash)
  deriving DecidableEq

inductive CallError where
  | unreachable (node : NodeId)
  | timeout (node : NodeId)
  | failed (node : NodeId) (reason : String)
  deriving DecidableEq

namespace CallError

def message : CallError → String
  | .unreachable n => "node " ++ n ++ " unreachable"
  | .timeout n => "request to " ++ n ++ " timed out"
  | .failed n reason => "node " ++ n ++ " failed request: " ++ reason

end CallError

structure Reply where
  answer : Except CallError Response
  delay : Nat

def Response.expectVersions (n : NodeId) : Response → Except CallError (List Version)
  | .versions vs => .ok vs
  | _ => .error (.failed n "unexpected response to get")

end QuorumStore
