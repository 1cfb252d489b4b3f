import QuorumStore.Message

namespace QuorumStore

inductive Meter where
  | sent (kind : RequestKind)
  | failed (kind : RequestKind)
  | puts
  | gets
  | deletes
  | quorumFailures
  | conflicts
  | hintsStored
  | hintsDelivered
  | hintsDropped
  | readRepairs
  | repairPasses
  | keysRepaired
  deriving DecidableEq, Repr

structure Family where
  name : String
  help : String
  isHistogram : Bool

namespace Meter

def family : Meter → Family
  | .sent _ => ⟨"ringkv_rpcs_sent_by_type_total", "Replica RPCs sent, by type", false⟩
  | .failed _ =>
      ⟨"ringkv_rpc_failures_by_type_total", "Replica RPCs that failed or timed out, by type", false⟩
  | .puts => ⟨"ringkv_kv_puts_total", "KV PUT operations", false⟩
  | .gets => ⟨"ringkv_kv_gets_total", "KV GET operations", false⟩
  | .deletes => ⟨"ringkv_kv_deletes_total", "KV DELETE operations", false⟩
  | .quorumFailures =>
      ⟨"ringkv_quorum_failures_total", "Operations that could not reach their quorum", false⟩
  | .conflicts =>
      ⟨"ringkv_conflicts_detected_total", "Reads that observed concurrent sibling versions", false⟩
  | .hintsStored => ⟨"ringkv_hints_stored_total", "Hints recorded by stand-in nodes", false⟩
  | .hintsDelivered =>
      ⟨"ringkv_hints_delivered_total", "Hints handed off to their target node", false⟩
  | .hintsDropped =>
      ⟨"ringkv_hints_dropped_total", "Hints discarded after exhausting delivery attempts", false⟩
  | .readRepairs => ⟨"ringkv_read_repairs_total", "Replica pushes issued by read repair", false⟩
  | .repairPasses =>
      ⟨"ringkv_anti_entropy_runs_total", "Passive repair passes between replica pairs", false⟩
  | .keysRepaired =>
      ⟨"ringkv_anti_entropy_keys_repaired_total", "Keys reconciled by passive repair", false⟩

def name (m : Meter) : String :=
  match m with
  | .sent kind => m.family.name ++ "\x7brpc_type=\"" ++ kind.label ++ "\"\x7d"
  | .failed kind => m.family.name ++ "\x7brpc_type=\"" ++ kind.label ++ "\"\x7d"
  | _ => m.family.name

def representatives : List Meter :=
  [.sent .get, .failed .get, .puts, .gets, .deletes, .quorumFailures, .conflicts, .hintsStored,
   .hintsDelivered, .hintsDropped, .readRepairs, .repairPasses, .keysRepaired]

end Meter

namespace Family

def latency : Family := ⟨"ringkv_kv_latency_seconds", "KV operation latency in seconds", true⟩

def latencyBounds : List String :=
  ["0.0005", "0.001", "0.005", "0.01", "0.05", "0.1", "0.5", "1", "5", "+Inf"]

def latencyBuckets (operation : String) : List String :=
  latencyBounds.map (fun bound =>
    latency.name ++ "_bucket\x7bop_type=\"" ++ operation ++ "\",le=\"" ++ bound ++ "\"\x7d")

def all : List Family :=
  (SortedMap.ofList ((latency :: Meter.representatives.map Meter.family).map
    (fun f => (f.name, f)))).values

def describe (f : Family) : List String :=
  ["# HELP " ++ f.name ++ " " ++ f.help,
   "# TYPE " ++ f.name ++ " " ++ (if f.isHistogram then "histogram" else "counter")]

end Family

structure Tally where
  counts : SortedMap String Nat
  deriving DecidableEq

namespace Tally

def empty : Tally := ⟨∅⟩

instance : Inhabited Tally := ⟨empty⟩

def get (t : Tally) (m : Meter) : Nat := (t.counts.get? m.name).getD 0

def add (t : Tally) (m : Meter) (n : Nat) : Tally := ⟨t.counts.insert m.name (t.get m + n)⟩

end Tally

end QuorumStore
