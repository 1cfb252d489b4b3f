import QuorumStore.HintTable
import QuorumStore.Network

namespace QuorumStore

structure HintAccess (σ : Type) where
  table : σ → HintTable
  store : HintTable → σ → σ

structure DeliverySettings where
  maxHints : Nat
  maxAttempts : Option Nat
  deriving DecidableEq

structure DeliveryReport where
  delivered : Nat
  failed : Nat
  dropped : Nat
  deriving DecidableEq, Repr

namespace DeliveryReport

def none : DeliveryReport := ⟨0, 0, 0⟩

def add (r r' : DeliveryReport) : DeliveryReport :=
  ⟨r.delivered + r'.delivered, r.failed + r'.failed, r.dropped + r'.dropped⟩

end DeliveryReport

namespace HintDelivery

variable {σ : Type}

def settle (access : HintAccess σ) (target : NodeId) (key : Key) (vs : List Version) (s : σ) : σ :=
  access.store ((access.table s).settle target key vs).2 s

def countFailure (access : HintAccess σ) (target : NodeId) (key : Key) (h : Hint) (s : σ) :
    Nat × σ :=
  let (attempts, table) := (access.table s).countFailure target key
  (attempts.getD h.fail.attempts, access.store table s)

def deliverTo (net : Network σ) (access : HintAccess σ) (settings : DeliverySettings)
    (target : NodeId) : List (Key × Hint) → Nat → DeliveryReport → σ → Nat × DeliveryReport × σ
  | [], budget, report, s => (budget, report, s)
  | _ :: _, 0, report, s => (0, report, s)
  | (key, h) :: rest, budget + 1, report, s =>
      let (reply, s) := net.send target (.handoff key h.versions) s
      match reply.answer with
      | .ok _ =>
          let s := net.count .hintsDelivered 1 (settle access target key h.versions s)
          deliverTo net access settings target rest budget
            { report with delivered := report.delivered + 1 } s
      | .error _ =>
          let (attempts, s) := countFailure access target key h s
          let report := { report with failed := report.failed + 1 }
          if settings.maxAttempts.any (fun most => decide (most ≤ attempts)) then
            (budget, { report with dropped := report.dropped + 1 },
             net.count .hintsDropped 1 (settle access target key h.versions s))
          else (budget, report, s)

def deliverAll (net : Network σ) (access : HintAccess σ) (settings : DeliverySettings) :
    List NodeId → Nat → DeliveryReport → σ → DeliveryReport × σ
  | [], _, report, s => (report, s)
  | target :: targets, budget, report, s =>
      let hints := (access.table s).hintsFor target
      let (budget, report, s) := deliverTo net access settings target hints budget report s
      deliverAll net access settings targets budget report s

def cycle (net : Network σ) (access : HintAccess σ) (settings : DeliverySettings) (s : σ) :
    DeliveryReport × σ :=
  deliverAll net access settings (access.table s).targets settings.maxHints .none s

end HintDelivery

end QuorumStore
