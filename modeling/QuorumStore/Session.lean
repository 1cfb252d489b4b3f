import QuorumStore.Coordinator

namespace QuorumStore

structure Session where
  seen : SortedMap Key VersionVector
  written : SortedMap Key Version
  deriving DecidableEq

namespace Session

variable {σ : Type}

def empty : Session := ⟨∅, ∅⟩

instance : Inhabited Session := ⟨empty⟩

def context? (s : Session) (key : Key) : Option VersionVector := s.seen.get? key

def observe (s : Session) (key : Key) (v : VersionVector) : Session :=
  { s with seen := s.seen.insert key (match s.seen.get? key with
      | none => v
      | some seen => seen.merge v) }

def remember (s : Session) (key : Key) (own : Version) : Session :=
  let s := s.observe key own.vector
  { s with written := s.written.insert key own }

def write (net : Network σ) (c : Coordinator) (key : Key) (payload : Payload) (session : Session)
    (s : σ) : Except StoreFailure WriteAck × Session × σ :=
  match c.write net key payload ((session.context? key).getD ∅) s with
  | (.error e, s) => (.error e, session, s)
  | (.ok ack, s) =>
      (.ok ack, session.remember key (payload.version ack.vector ack.timestamp), s)

def covers (read : Option Read) (own : VersionVector) : Bool :=
  read.any (fun r => decide (own ≤ r.context))

def complete (policy : ConflictPolicy) (own : Option Version) (read : Option Read) : Option Read :=
  match own with
  | none => read
  | some own =>
      if covers read own.vector then read
      else
        let versions := match read with
          | none => []
          | some r => r.versions
        (Version.resolve policy (Version.reconcile (versions ++ [own]))).read

def read (net : Network σ) (c : Coordinator) (key : Key) (session : Session) (s : σ) :
    Except StoreFailure Read × Session × σ :=
  let finish (found : Option Read) (s : σ) : Except StoreFailure Read × Session × σ :=
    match complete c.quorum.policy (session.written.get? key) found with
    | none => (.error .notFound, session, s)
    | some r => (.ok r, session.observe key r.context, s)
  match c.read net key s with
  | (.ok r, s) => finish (some r) s
  | (.error .notFound, s) => finish none s
  | (.error e, s) => (.error e, session, s)

end Session

end QuorumStore
