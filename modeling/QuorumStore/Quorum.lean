import QuorumStore.Resolution
import QuorumStore.Ring

namespace QuorumStore

inductive ReadRepair where
  | disabled
  | background
  | inline
  deriving DecidableEq, Repr, Inhabited

structure Quorum where
  n : Nat
  w : Nat
  r : Nat
  writeTimeout : Nat
  readTimeout : Nat
  readRepair : ReadRepair
  policy : ConflictPolicy
  sloppy : Bool
  deriving DecidableEq

inductive QuorumError where
  | noReplicas
  | badWriteQuorum (w n : Nat)
  | badReadQuorum (r n : Nat)
  deriving DecidableEq

def QuorumError.message : QuorumError → String
  | .noReplicas => "n must be > 0"
  | .badWriteQuorum w n => "w (" ++ toString w ++ ") must be in 1..=" ++ toString n
  | .badReadQuorum r n => "r (" ++ toString r ++ ") must be in 1..=" ++ toString n

namespace Quorum

def validate (q : Quorum) : Except QuorumError Unit :=
  if q.n = 0 then .error .noReplicas
  else if q.w = 0 ∨ q.n < q.w then .error (.badWriteQuorum q.w q.n)
  else if q.r = 0 ∨ q.n < q.r then .error (.badReadQuorum q.r q.n)
  else .ok ()

theorem validate_eq_ok_iff {q : Quorum} :
    q.validate = .ok () ↔ 1 ≤ q.w ∧ q.w ≤ q.n ∧ 1 ≤ q.r ∧ q.r ≤ q.n := by
  unfold validate
  split
  · simp
    omega
  · split
    · simp
      omega
    · split
      · simp
        omega
      · simp
        omega

end Quorum

def Ring.standIns (r : Ring) (key : Key) (excluded : List NodeId) : List NodeId :=
  (r.preference key).filter (fun n => !decide (n ∈ excluded))

end QuorumStore
