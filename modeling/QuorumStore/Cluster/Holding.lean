import QuorumStore.Cluster

namespace QuorumStore

structure Holding where
  stored : List (Key × Except StoreError (List Version))
  hints : List (NodeId × Key × Hint)

namespace Holding

def isEmpty (h : Holding) : Bool := h.stored.isEmpty && h.hints.isEmpty

end Holding

def Replica.holding (r : Replica) (pass : Key → Bool) : Holding :=
  { stored := (r.store.keys.filter pass).map (fun key =>
      (key, (r.store.read key).map (fun vs => vs.getD [])))
    hints := r.hints.targets.flatMap (fun target =>
      ((r.hints.hintsFor target).filter (fun h => pass h.1)).map (fun h => (target, h))) }

def Cluster.holdings (c : Cluster) (pass : Key → Bool) : List (NodeId × Holding) :=
  (c.replicas.entries.map (fun e => (e.1, e.2.holding pass))).filter (fun e => !e.2.isEmpty)

end QuorumStore
