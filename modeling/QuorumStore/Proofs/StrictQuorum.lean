import QuorumStore.Proofs.Schedules

namespace QuorumStore

open Cluster

namespace Coordinator

variable {e : Environment} {events : Nat → List e.Event} {key : Key}

theorem strict_stores (e : Environment) (key : Key) (v : Version) :
    WriteRound.Stores e false key v Honest (fun _ => false) (fun n c => Covers n key v.vector c) where
  keeps := honest_befall e
  stays n := covers_befall e n key v.vector
  put n c hc := by
    cases h : (send n (.put key v) c).1.answer with
    | error _ => rfl
    | ok _ => exact covers_of_send_put hc h
  hint n target c hc hsloppy := nomatch hsloppy

theorem strict_gathers (e : Environment) (key : Key) (w : VersionVector) (holders : List NodeId) :
    ReadRound.Gathers e key (fun c => c.Honest ∧ ∀ n ∈ holders, Covers n key w c) (fun _ => false)
      (fun n vs => n ∈ holders → Version.Covered vs w) where
  keeps i hi c h := ⟨honest_befall e i hi c h.1,
    fun n hn => (covers_befall e n key w i hi c ⟨h.1, h.2 n hn⟩).2⟩
  good n _ _ hs h hn := (covered_of_send_get hs.1 h w).mpr (.inl (hs.2 n hn))
  up _ _ _ h := nomatch h

theorem strict_write_held {c : Coordinator} (hstrict : c.quorum.sloppy = false) {payload : Payload}
    {context : VersionVector} {s s' : Interrupted} {ack : WriteAck} (hs : s.cluster.Honest)
    (h : c.write (interrupted events) key payload context s = (.ok ack, s')) :
    ∃ replicas holders, c.ring.replicas key c.quorum.n = .ok replicas ∧ holders.Nodup ∧
      holders ⊆ replicas ∧ c.quorum.w ≤ holders.length ∧
      ∀ n ∈ holders, Covers n key ack.vector s'.cluster := by
  obtain ⟨survey, store, rest, left, hack, hrest⟩ := exists_write_underway h
  obtain ⟨replicas, seen, hreplicas, hseen, hmet, hleft⟩ := acceptUnderway_eq_ok hack
  have hall := Ring.nodup_replicas_append_standIns hreplicas
  have hproceeds := (WriteRound.proceeds_begun hall ((honest_befall e).run hseen hs)).play
    (strict_stores e key (payload.version ack.vector ack.timestamp)) hall (w := some c.quorum.w) store
  rw [hstrict] at hleft
  rw [← hleft] at hproceeds
  obtain ⟨asked, acked, hl, hheld⟩ := hproceeds.ledger
  rw [Payload.vector_version] at hheld
  have hsub := hl.acked_subset
  rw [hl.strict rfl, List.append_nil] at hsub
  refine ⟨replicas, acked.map (·.receiver), hreplicas, hl.nodup_acked, hsub, ?_, ?_⟩
  · rw [List.length_map, hl.count]
    exact hmet
  · intro n hn
    obtain ⟨r, hr, rfl⟩ := List.mem_map.mp hn
    have hrun := Underway.run_play (c.draining key payload ack) rest left
    rw [hrest] at hrun
    exact ((covers_befall e r.receiver key ack.vector).run hrun ⟨hproceeds.cluster, hheld r hr⟩).2

theorem strict_round_covers {replicas standIns holders : List NodeId} {quorum deadline : Nat}
    (hall : (replicas ++ standIns).Nodup) (hholders : holders.Nodup) (hsub : holders ⊆ replicas)
    {w : VersionVector} {s : Interrupted} (hs : s.cluster.Honest)
    (hheld : ∀ n ∈ holders, Covers n key w s.cluster)
    (hmany : replicas.length < holders.length + (ReadRound.run (interrupted events) false key replicas
      standIns quorum deadline s).1.successes) :
    Version.Covered (ReadRound.run (interrupted events) false key replicas standIns quorum deadline
      s).1.versions w := by
  obtain ⟨moves, hmirrors⟩ := ReadRound.exists_play_run events false key quorum deadline replicas
    standIns s
  have hproceeds := (ReadRound.proceeds_begun false quorum hall ⟨hs, hheld⟩).play
    (strict_gathers e key w holders) hall moves
  obtain ⟨asked, heard, hl⟩ := hproceeds.ledger
  rw [hmirrors.round] at hl
  have hheard := hl.heard_subset
  rw [hl.strict rfl, List.append_nil] at hheard
  obtain ⟨n, hn, hn'⟩ := exists_common hholders hl.nodup_heard hsub hheard (by rwa [hl.count])
  obtain ⟨vs, hvs, hgathered⟩ := hl.gathered n hn'
  obtain ⟨k, hk, hw⟩ := hvs hn
  exact ⟨k, hgathered k hk, hw⟩

theorem strict_read_covers {c : Coordinator} (hstrict : c.quorum.sloppy = false)
    {replicas holders : List NodeId} (hreplicas : c.ring.replicas key c.quorum.n = .ok replicas)
    (hholders : holders.Nodup) (hsub : holders ⊆ replicas) {w : VersionVector} {s : Interrupted}
    (hs : s.cluster.Honest) (hheld : ∀ n ∈ holders, Covers n key w s.cluster)
    (hmany : c.quorum.n < holders.length + c.quorum.r)
    (hmet : c.quorum.r ≤ (c.gathering (interrupted events) key replicas s).successes) :
    Version.Covered (c.gathering (interrupted events) key replicas s).versions w := by
  rw [gathering, hstrict] at hmet ⊢
  refine strict_round_covers (Ring.nodup_replicas_append_standIns hreplicas) hholders hsub
    (s := (interrupted events).count .gets 1 s) ⟨hs.lies, hs.race⟩ hheld ?_
  rw [Ring.length_replicas hreplicas]
  omega

end Coordinator

theorem strict_read_sees_acknowledged_write {ring : Ring} {q : Quorum} {writer reader : NodeId}
    {key : Key} {payload : Payload} {context : VersionVector} {ack : WriteAck}
    {placement : Placement} {callTimeout : Nat} {clock : UInt64} {nodes : SortedMap NodeId Replica}
    {during after : Nat → List Environment.any.Event} {s₀ s₁ s₂ : Interrupted}
    {replicas : List NodeId} (hstrict : q.sloppy = false) (hquorums : q.n < q.w + q.r)
    (hbefore : Environment.any.Run (ofReplicas placement callTimeout clock nodes) s₀.cluster)
    (hwrite : (Coordinator.mk writer q ring).write (interrupted during) key payload context s₀ =
      (.ok ack, s₁))
    (hbetween : Environment.any.Run s₁.cluster s₂.cluster)
    (hreplicas : ring.replicas key q.n = .ok replicas)
    (hmet : q.r ≤ ((Coordinator.mk reader q ring).gathering (interrupted after) key replicas
      s₂).successes) :
    let gathered := ((Coordinator.mk reader q ring).gathering (interrupted after) key replicas
      s₂).versions
    Version.Covered gathered ack.vector ∧
      (∀ v ∈ Version.reconcile gathered, ack.vector.compare v.vector ≠ .dominates) ∧
      ∀ r, ((Coordinator.mk reader q ring).read (interrupted after) key s₂).1 = .ok r →
        ack.vector ≤ r.context ∧ ∀ v ∈ r.versions, ack.vector.compare v.vector ≠ .dominates := by
  intro gathered
  have honest₀ : s₀.cluster.Honest :=
    (honest_befall _).run hbefore (honest_ofReplicas placement callTimeout clock nodes)
  have honest₁ : s₁.cluster.Honest := by
    have hrun := run_write during (Coordinator.mk writer q ring) key s₀ payload context
    rw [hwrite] at hrun
    exact (honest_befall _).run hrun honest₀
  obtain ⟨replicas', holders, hreplicas', hnodup, hsub, hmany, hheld⟩ :=
    Coordinator.strict_write_held hstrict honest₀ hwrite
  obtain rfl : replicas = replicas' := Except.ok.inj (hreplicas.symm.trans hreplicas')
  have hlater : ∀ n ∈ holders, Covers n key ack.vector s₂.cluster := fun n hn =>
    ((covers_befall _ n key ack.vector).run hbetween ⟨honest₁, hheld n hn⟩).2
  have hcovered : Version.Covered gathered ack.vector :=
    Coordinator.strict_read_covers hstrict hreplicas hnodup hsub
      ((honest_befall _).run hbetween honest₁) hlater
      (by have : q.w ≤ _ := hmany; dsimp only; omega) hmet
  refine ⟨hcovered, fun v hv => Version.not_below_of_mem_reconcile hcovered hv, fun r hr => ?_⟩
  obtain ⟨replicas', hreplicas', -, hread⟩ := Coordinator.read_eq_ok hr
  obtain rfl : replicas = replicas' := Except.ok.inj (hreplicas.symm.trans hreplicas')
  exact ⟨Version.le_context_of_covered hcovered hread,
    Version.not_below_of_mem_versions hcovered hread⟩

namespace Trio

def ring : Ring := Ring.ofNodes 1 ["A", "B", "C"]

def quorum : Quorum := ⟨3, 2, 2, 1, 1, .inline, .siblings, false⟩

def nodes : SortedMap NodeId Replica :=
  SortedMap.ofList [("A", .volatile), ("B", .volatile), ("C", .volatile)]

def start : Interrupted := ⟨ofReplicas ⟨ring, 3⟩ 1 0 nodes, 0⟩

def during : Nat → List Environment.any.Event
  | 0 => [⟨.fares "C" { down := true }, trivial⟩]
  | _ => []

def after : Nat → List Environment.any.Event
  | 6 => [⟨.fares "C" {}, trivial⟩, ⟨.fares "B" { down := true }, trivial⟩]
  | _ => []

def written : Except StoreFailure WriteAck × Interrupted :=
  (Coordinator.mk "A" quorum ring).write (interrupted during) "k" (.value [1]) ∅ start

theorem acknowledged : written.1 = .ok ⟨.ofEntries [("A", 1)], 0, 2, 0⟩ := by decide +kernel

theorem trio_read_sees_write :
    2 ≤ ((Coordinator.mk "B" quorum ring).gathering (interrupted after) "k" ["C", "B", "A"]
      written.2).successes ∧
    Version.Covered ((Coordinator.mk "B" quorum ring).gathering (interrupted after) "k"
      ["C", "B", "A"] written.2).versions (.ofEntries [("A", 1)]) := by
  have hmet : 2 ≤ ((Coordinator.mk "B" quorum ring).gathering (interrupted after) "k"
      ["C", "B", "A"] written.2).successes := by decide +kernel
  have hwritten : written = (.ok ⟨.ofEntries [("A", 1)], 0, 2, 0⟩, written.2) :=
    (Prod.eta written).symm.trans (congrArg (·, written.2) acknowledged)
  have hstart : Environment.any.Run (ofReplicas ⟨ring, 3⟩ 1 0 nodes) start.cluster := .refl
  have hreplicas : ring.replicas "k" quorum.n = .ok ["C", "B", "A"] := by decide +kernel
  exact ⟨hmet, (strict_read_sees_acknowledged_write rfl (by decide) hstart hwritten .refl hreplicas
    hmet).1⟩

end Trio

end QuorumStore
