import QuorumStore.Proofs.Placement
import QuorumStore.Proofs.ReadRounds

namespace QuorumStore

instance decidableEqExcept {ε α : Type} [DecidableEq ε] [DecidableEq α] : DecidableEq (Except ε α)
  | .error d, .error e => decidable_of_iff (d = e) ⟨congrArg Except.error, Except.error.inj⟩
  | .ok a, .ok b => decidable_of_iff (a = b) ⟨congrArg Except.ok, Except.ok.inj⟩
  | .error _, .ok _ => isFalse fun h => by cases h
  | .ok _, .error _ => isFalse fun h => by cases h

@[simp] theorem Payload.vector_version (p : Payload) (vector : VersionVector) (timestamp : UInt64) :
    (p.version vector timestamp).vector = vector := by
  cases p <;> rfl

namespace Coordinator

variable {σ : Type} {net : Network σ} {c : Coordinator} {key : Key}

def gathering (net : Network σ) (c : Coordinator) (key : Key) (replicas : List NodeId) (s : σ) :
    ReadRound :=
  (ReadRound.run net c.quorum.sloppy key replicas (c.ring.standIns key replicas) c.quorum.r
    c.quorum.readTimeout (net.count .gets 1 s)).1

def surveying (net : Network σ) (c : Coordinator) (key : Key) (payload : Payload)
    (replicas : List NodeId) (s : σ) : ReadRound × σ :=
  ReadRound.run net c.quorum.sloppy key replicas (c.ring.standIns key replicas) c.quorum.w
    c.quorum.writeTimeout (net.count payload.meter 1 s)

def storing (net : Network σ) (c : Coordinator) (key : Key) (replicas : List NodeId) (v : Version)
    (seen : ReadRound × σ) : WriteRound × σ :=
  WriteRound.run net c.quorum.sloppy key v replicas (c.ring.standIns key replicas) c.quorum.w
    seen.1.time c.quorum.writeTimeout seen.2

theorem read_eq_ok {s : σ} {r : Read} (h : (c.read net key s).1 = .ok r) :
    ∃ replicas, c.ring.replicas key c.quorum.n = .ok replicas ∧
      c.quorum.r ≤ (c.gathering net key replicas s).successes ∧
      (Version.resolve c.quorum.policy
        (Version.reconcile (c.gathering net key replicas s).versions)).read = some r := by
  unfold read at h
  dsimp only at h
  split at h
  · cases h
  · rename_i replicas hreplicas
    refine ⟨replicas, hreplicas, ?_⟩
    split at h
    · cases h
    · rename_i hmet
      refine ⟨Nat.le_of_not_lt hmet, ?_⟩
      split at h
      · cases h
      · split at h
        · cases h
        · rename_i read hread
          cases h
          exact hread

theorem read_eq_error {replicas : List NodeId} {s : σ} {e : StoreFailure}
    (hreplicas : c.ring.replicas key c.quorum.n = .ok replicas) (h : (c.read net key s).1 = .error e) :
    e = .notFound ∨ ∃ heard < c.quorum.r, e = .quorumUnavailable c.quorum.r heard := by
  simp only [read, hreplicas] at h
  split at h
  · rename_i hheard
    cases h
    exact .inr ⟨_, hheard, rfl⟩
  · split at h
    · cases h
      exact .inl rfl
    · split at h
      · cases h
        exact .inl rfl
      · cases h

theorem accept_eq {payload : Payload} {context vector : VersionVector} {replicas : List NodeId} {s : σ}
    (hreplicas : c.ring.replicas key c.quorum.n = .ok replicas)
    (hvector : stamp? c.id (c.surveying net key payload replicas s).1.versions context = some vector) :
    c.accept net key payload context s =
      let seen := c.surveying net key payload replicas s
      let stored := c.storing net key replicas (payload.version vector (net.now seen.2)) seen
      if stored.1.acks < c.quorum.w then
        (.error (.quorumUnavailable c.quorum.w stored.1.acks), net.count .quorumFailures 1 stored.2)
      else
        (.ok (⟨vector, net.now seen.2, stored.1.acks, stored.1.hinted⟩, stored.1), stored.2) := by
  rw [surveying] at hvector
  simp only [accept, hreplicas, hvector]
  rfl

theorem accept_eq_of_exhausted {payload : Payload} {context : VersionVector} {replicas : List NodeId}
    {s : σ} (hreplicas : c.ring.replicas key c.quorum.n = .ok replicas)
    (hvector : stamp? c.id (c.surveying net key payload replicas s).1.versions context = none) :
    c.accept net key payload context s =
      (.error (.counterExhausted c.id), (c.surveying net key payload replicas s).2) := by
  rw [surveying] at hvector
  simp only [accept, hreplicas, hvector]
  rfl

theorem accept_eq_ok {payload : Payload} {context : VersionVector} {s s' : σ} {ack : WriteAck}
    {round : WriteRound} (h : c.accept net key payload context s = (.ok (ack, round), s')) :
    ∃ replicas, c.ring.replicas key c.quorum.n = .ok replicas ∧
      stamp? c.id (c.surveying net key payload replicas s).1.versions context = some ack.vector ∧
      ack.timestamp = net.now (c.surveying net key payload replicas s).2 ∧
      c.quorum.w ≤ round.acks ∧ ack.acks = round.acks ∧ ack.hinted = round.hinted ∧
      c.storing net key replicas (payload.version ack.vector ack.timestamp)
        (c.surveying net key payload replicas s) = (round, s') := by
  cases hreplicas : c.ring.replicas key c.quorum.n with
  | error shortage =>
    simp only [accept, hreplicas] at h
    cases h
  | ok replicas =>
    cases hvector : stamp? c.id (c.surveying net key payload replicas s).1.versions context with
    | none =>
      rw [accept_eq_of_exhausted hreplicas hvector] at h
      cases h
    | some vector =>
      rw [accept_eq hreplicas hvector] at h
      dsimp only at h
      split at h
      · cases h
      · rename_i hmet
        cases h
        exact ⟨replicas, rfl, hvector, rfl, Nat.le_of_not_lt hmet, rfl, rfl, rfl⟩

theorem write_of_accept {payload : Payload} {context : VersionVector} {s s' : σ} {ack : WriteAck}
    (h : c.write net key payload context s = (.ok ack, s')) :
    ∃ round t, c.accept net key payload context s = (.ok (ack, round), t) ∧
      s' = (WriteRound.drain net c.quorum.sloppy key (payload.version ack.vector ack.timestamp)
        round.patience round t).2 := by
  unfold write at h
  split at h
  · cases h
  · rename_i round t heq
    cases h
    exact ⟨round, t, heq, rfl⟩

theorem write_eq {payload : Payload} {context vector : VersionVector} {replicas : List NodeId} {s : σ}
    (hreplicas : c.ring.replicas key c.quorum.n = .ok replicas)
    (hvector : stamp? c.id (c.surveying net key payload replicas s).1.versions context = some vector) :
    c.write net key payload context s =
      let seen := c.surveying net key payload replicas s
      let v := payload.version vector (net.now seen.2)
      let stored := c.storing net key replicas v seen
      if stored.1.acks < c.quorum.w then
        (.error (.quorumUnavailable c.quorum.w stored.1.acks), net.count .quorumFailures 1 stored.2)
      else
        (.ok ⟨vector, net.now seen.2, stored.1.acks, stored.1.hinted⟩,
         (WriteRound.drain net c.quorum.sloppy key v stored.1.patience stored.1 stored.2).2) := by
  rw [write, accept_eq hreplicas hvector]
  dsimp only
  by_cases hmet : (c.storing net key replicas (payload.version vector
      (net.now (c.surveying net key payload replicas s).2))
      (c.surveying net key payload replicas s)).1.acks < c.quorum.w
  · rw [if_pos hmet, if_pos hmet]
  · rw [if_neg hmet, if_neg hmet]

theorem write_eq_of_exhausted {payload : Payload} {context : VersionVector} {replicas : List NodeId}
    {s : σ} (hreplicas : c.ring.replicas key c.quorum.n = .ok replicas)
    (hvector : stamp? c.id (c.surveying net key payload replicas s).1.versions context = none) :
    c.write net key payload context s =
      (.error (.counterExhausted c.id), (c.surveying net key payload replicas s).2) := by
  rw [write, accept_eq_of_exhausted hreplicas hvector]

theorem write_eq_of_shortage {payload : Payload} {context : VersionVector} {s : σ} {shortage : Shortage}
    (hshortage : c.ring.replicas key c.quorum.n = .error shortage) :
    c.write net key payload context s =
      (.error (.placementUnavailable shortage), net.count payload.meter 1 s) := by
  simp only [write, accept, hshortage]

theorem write_eq_ok {payload : Payload} {context : VersionVector} {s s' : σ} {ack : WriteAck}
    (h : c.write net key payload context s = (.ok ack, s')) :
    ∃ replicas v, c.ring.replicas key c.quorum.n = .ok replicas ∧
      stamp? c.id (c.surveying net key payload replicas s).1.versions context = some ack.vector ∧
      v.vector = ack.vector ∧
      c.quorum.w ≤ (c.storing net key replicas v (c.surveying net key payload replicas s)).1.acks := by
  obtain ⟨round, t, haccept, -⟩ := write_of_accept h
  obtain ⟨replicas, hreplicas, hvector, -, hmet, -, -, hstored⟩ := accept_eq_ok haccept
  refine ⟨replicas, _, hreplicas, hvector, payload.vector_version _ ack.timestamp, ?_⟩
  rw [hstored]
  exact hmet

theorem write_eq_error {payload : Payload} {context : VersionVector} {replicas : List NodeId} {s : σ}
    {e : StoreFailure} (hreplicas : c.ring.replicas key c.quorum.n = .ok replicas)
    (h : (c.write net key payload context s).1 = .error e) :
    e = .counterExhausted c.id ∨ ∃ acks < c.quorum.w, e = .quorumUnavailable c.quorum.w acks := by
  cases hvector : stamp? c.id (c.surveying net key payload replicas s).1.versions context with
  | none =>
    rw [write_eq_of_exhausted hreplicas hvector] at h
    cases h
    exact .inl rfl
  | some vector =>
    rw [write_eq hreplicas hvector] at h
    dsimp only at h
    split at h
    · rename_i hacks
      cases h
      exact .inr ⟨_, hacks, rfl⟩
    · cases h

end Coordinator

end QuorumStore
