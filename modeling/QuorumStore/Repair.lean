import QuorumStore.Network

namespace QuorumStore

inductive RepairError where
  | unreachable (node : NodeId)
  | unexpected (node : NodeId) (kind : RequestKind)
  | call (error : CallError)
  deriving DecidableEq

namespace RepairError

def ofCall : CallError → RepairError
  | .unreachable n => .unreachable n
  | .timeout n => .unreachable n
  | e => .call e

def message : RepairError → String
  | .unreachable n => "node " ++ n ++ " unreachable during repair"
  | .unexpected n kind => "unexpected response from " ++ n ++ " to " ++ kind.label ++ " request"
  | .call e => "transport error: " ++ e.message

end RepairError

structure RepairReport where
  bucketsDiverged : Nat
  keysCompared : Nat
  keysRepaired : Nat
  writes : Nat
  deriving DecidableEq, Repr

namespace RepairReport

def none : RepairReport := ⟨0, 0, 0, 0⟩

end RepairReport

namespace Repair

variable {σ : Type}

def call {α : Type} (net : Network σ) (node : NodeId) (request : Request)
    (expect : Response → Option α) (s : σ) : Except RepairError α × Nat × σ :=
  let (reply, s) := net.send node request s
  (match reply.answer with
    | .error e => .error (.ofCall e)
    | .ok response =>
        match expect response with
        | none => .error (.unexpected node request.kind)
        | some a => .ok a,
   reply.delay, s)

def push (net : Network σ) (key : Key) (vs : List Version) (node : NodeId) (s : σ) :
    Except RepairError Bool × Nat × σ :=
  call net node (.repairPush key vs) (fun
    | .merged changed => some changed
    | _ => none) s

def digest (net : Network σ) (depth : Nat) (node peer : NodeId) (s : σ) :
    Except RepairError Digest × σ :=
  let (result, _, s) := call net node (.digest peer depth) (fun
    | .digest d => some d
    | _ => none) s
  (result, s)

def bucketKeys (net : Network σ) (depth : Nat) (buckets : List Nat) (node peer : NodeId) (s : σ) :
    Except RepairError (SortedMap Key Hash) × σ :=
  let (result, _, s) := call net node (.bucketKeys peer depth buckets) (fun
    | .keys keys => some keys
    | _ => none) s
  (result, s)

def versions (net : Network σ) (key : Key) (node : NodeId) (s : σ) :
    Except RepairError (List Version) × σ :=
  let (result, _, s) := call net node (.get key) (fun
    | .versions vs => some vs
    | _ => none) s
  (result, s)

def pushAll (net : Network σ) (key : Key) (vs : List Version) (time : Nat) :
    List NodeId → σ → Nat × Nat × σ
  | [], s => (0, time, s)
  | n :: ns, s =>
      let (result, delay, s) := push net key vs n s
      let s := if result.isOk then net.count .readRepairs 1 s else s
      let (pushed, done, s) := pushAll net key vs time ns s
      (pushed + (if result.isOk then 1 else 0), max (time + delay) done, s)

def pushResolved (net : Network σ) (key : Key) (canonical : List Version) (time : Nat)
    (observed : List (NodeId × List Version)) (s : σ) : Nat × Nat × σ :=
  if canonical.isEmpty then (0, time, s)
  else
    pushAll net key canonical time
      ((observed.filter (fun o => Version.differs o.2 canonical)).map (·.1)) s

def mendNode (net : Network σ) (key : Key) (reconciled : List Version) (node : NodeId)
    (held : List Version) (s : σ) : Except RepairError (Bool × Bool) × σ :=
  if Version.differs held reconciled then
    let (result, _, s) := push net key reconciled node s
    (result.map (fun changed => (true, changed)), s)
  else (.ok (false, false), s)

def mendKey (net : Network σ) (a b : NodeId) (key : Key) (report : RepairReport) (s : σ) :
    Except RepairError RepairReport × σ :=
  let (heldA, s) := versions net key a s
  let (heldB, s) := versions net key b s
  match heldA, heldB with
  | .error e, _ => (.error e, s)
  | .ok _, .error e => (.error e, s)
  | .ok heldA, .ok heldB =>
      let reconciled := Version.reconcile (heldA ++ heldB)
      match mendNode net key reconciled a heldA s with
      | (.error e, s) => (.error e, s)
      | (.ok (behindA, wroteA), s) =>
          match mendNode net key reconciled b heldB s with
          | (.error e, s) => (.error e, s)
          | (.ok (behindB, wroteB), s) =>
              (.ok { report with
                keysRepaired := report.keysRepaired + (if behindA || behindB then 1 else 0)
                writes := report.writes + (if wroteA then 1 else 0) + (if wroteB then 1 else 0) },
               s)

def mendKeys (net : Network σ) (a b : NodeId) :
    List Key → RepairReport → σ → Except RepairError RepairReport × σ
  | [], report, s => (.ok report, s)
  | key :: keys, report, s =>
      match mendKey net a b key report s with
      | (.error e, s) => (.error e, s)
      | (.ok report, s) => mendKeys net a b keys report s

def allKeys (ka kb : SortedMap Key Hash) : List Key := (SortedMap.unionWith (fun h _ => h) ka kb).keys

def syncPair (net : Network σ) (depth : Nat) (a b : NodeId) (s : σ) :
    Except RepairError RepairReport × σ :=
  let s := net.count .repairPasses 1 s
  let (da, s) := digest net depth a b s
  let (db, s) := digest net depth b a s
  match da, db with
  | .error e, _ => (.error e, s)
  | .ok _, .error e => (.error e, s)
  | .ok da, .ok db =>
      if da.root = db.root then (.ok .none, s)
      else
        let buckets := da.diff db
        let (ka, s) := bucketKeys net depth buckets a b s
        let (kb, s) := bucketKeys net depth buckets b a s
        match ka, kb with
        | .error e, _ => (.error e, s)
        | .ok _, .error e => (.error e, s)
        | .ok ka, .ok kb =>
            let keys := allKeys ka kb
            let differing := keys.filter (fun key => !decide (ka.get? key = kb.get? key))
            match mendKeys net a b differing ⟨buckets.length, keys.length, 0, 0⟩ s with
            | (.error e, s) => (.error e, s)
            | (.ok report, s) => (.ok report, net.count .keysRepaired report.keysRepaired s)

end Repair

end QuorumStore
