import QuorumStore.Proofs.Operations
import QuorumStore.Proofs.StableFailures
import QuorumStore.Proofs.UnderwayLedger

namespace QuorumStore

open Cluster

namespace Coordinator

variable {up : NodeId → Bool} {key : Key}

theorem sloppy_stores (up : NodeId → Bool) (key : Key) (v : Version) :
    WriteRound.Stores (Environment.stable up key) true key v (fun c => c.Honest ∧ Steady up key c) up
      (Retains up key v.vector) where
  keeps := steady_befall up key
  stays := retains_befall up key v.vector
  put n c hc := by
    cases h : (send n (.put key v) c).1.answer with
    | ok _ => exact retains_of_put hc.1 hc.2 h
    | error _ => exact down_of_error hc.1 hc.2 (show (Request.put key v).about key from rfl) h
  hint n target c hc _ htarget := by
    cases h : (send n (.putHinted target key v) c).1.answer with
    | ok _ => exact retains_of_hint hc.1 hc.2 htarget h
    | error _ =>
      exact down_of_error hc.1 hc.2 (show (Request.putHinted target key v).about key from rfl) h

theorem sloppy_gathers (up : NodeId → Bool) (key : Key) (w : VersionVector) (holders : List NodeId) :
    ReadRound.Gathers (Environment.stable up key) key
      (fun c => (c.Honest ∧ Steady up key c) ∧ ∀ n ∈ holders, Retains up key w n c) up
      (fun n vs => up n = true ∧ (n ∈ holders → Version.Covered vs w)) where
  keeps i hi c h := ⟨steady_befall up key i hi c h.1,
    fun n hn => (retains_befall up key w n i hi c ⟨h.1, h.2 n hn⟩).2⟩
  good n c vs := by
    rintro ⟨⟨hc, hsteady⟩, hholds⟩ h
    have hn := isOk_send hc hsteady n (show (Request.get key).about key from rfl)
    rw [h] at hn
    exact ⟨hn.symm, fun hmem => covered_of_retains hc h (hholds n hmem)⟩
  up n c h hn := versions_of_up h.1.1 h.1.2 hn

theorem exists_pool {replicas standIns askedW restW askedR restR : List NodeId} {n r : Nat}
    (hn : replicas.length = n) (hr : r ≤ n) (horderW : askedW ++ restW = standIns)
    (horderR : askedR ++ restR = standIns)
    (hboundW : (replicas.filter up).length + (askedW.filter up).length ≤ replicas.length)
    (hboundR : askedR.filter up = [] ∨
      (replicas.filter up).length + (askedR.filter up).length ≤ r) :
    ∃ asked, askedW ⊆ asked ∧ askedR ⊆ asked ∧
      ((replicas ++ asked).filter up).length ≤ n := by
  have hlength : ∀ asked : List NodeId, ((replicas ++ asked).filter up).length =
      (replicas.filter up).length + (asked.filter up).length := by
    intro asked
    rw [List.filter_append, List.length_append]
  rcases List.prefix_or_prefix_of_prefix ⟨restW, horderW⟩ ⟨restR, horderR⟩ with hprefix | hprefix
  · refine ⟨askedR, hprefix.subset, List.Subset.refl _, ?_⟩
    rw [hlength]
    rcases hboundR with hnone | hbound
    · have hle := List.length_filter_le up replicas
      rw [hnone, List.length_nil]
      omega
    · omega
  · refine ⟨askedW, List.Subset.refl _, hprefix.subset, ?_⟩
    rw [hlength]
    omega

theorem sloppy_write_retained {c : Coordinator} (hsloppy : c.quorum.sloppy = true) {payload : Payload}
    {context : VersionVector} {survey store : List (Move (Environment.stable up key))} {s : Cluster}
    {ack : WriteAck} {left : Underway WriteRound} (hs : s.Honest ∧ Steady up key s)
    (h : c.acceptUnderway key payload context survey store s = .ok (ack, left)) :
    (left.cluster.Honest ∧ Steady up key left.cluster) ∧
    ∃ replicas asked rest holders, c.ring.replicas key c.quorum.n = .ok replicas ∧
      asked ++ rest = c.ring.standIns key replicas ∧
      (replicas.filter up).length + (asked.filter up).length ≤ replicas.length ∧
      holders.Nodup ∧ holders ⊆ (replicas ++ asked).filter up ∧ c.quorum.w ≤ holders.length ∧
      ∀ n ∈ holders, Retains up key ack.vector n left.cluster := by
  obtain ⟨replicas, seen, hreplicas, hseen, hmet, hleft⟩ := acceptUnderway_eq_ok h
  have hall := Ring.nodup_replicas_append_standIns hreplicas
  have hseen' := (steady_befall up key).run hseen hs
  have hproceeds := (WriteRound.proceeds_begun hall hseen').play
    (sloppy_stores up key (payload.version ack.vector ack.timestamp)) hall (w := some c.quorum.w) store
  rw [hsloppy] at hleft
  rw [← hleft] at hproceeds
  obtain ⟨asked, acked, hl, hheld⟩ := hproceeds.ledger
  rw [Payload.vector_version] at hheld
  have hholders : ∀ n ∈ acked.map (·.receiver), Retains up key ack.vector n left.cluster := by
    intro n hn
    obtain ⟨r, hr, rfl⟩ := List.mem_map.mp hn
    exact hheld r hr
  refine ⟨hproceeds.cluster, replicas, asked, left.round.standIns, acked.map (·.receiver), hreplicas,
    hl.order, hl.bound hall, hl.nodup_acked, ?_, ?_, hholders⟩
  · exact fun n hn => List.mem_filter.mpr ⟨hl.acked_subset hn, (hholders n hn).1⟩
  · rw [List.length_map, hl.count]
    exact hmet

theorem sloppy_read_covers {c : Coordinator} (hsloppy : c.quorum.sloppy = true)
    (hrn : c.quorum.r ≤ c.quorum.n) {replicas askedW restW holders : List NodeId}
    (hreplicas : c.ring.replicas key c.quorum.n = .ok replicas)
    (horder : askedW ++ restW = c.ring.standIns key replicas)
    (hbound : (replicas.filter up).length + (askedW.filter up).length ≤ replicas.length)
    (hholders : holders.Nodup) (hsub : holders ⊆ (replicas ++ askedW).filter up)
    {w : VersionVector} {left : Underway WriteRound}
    (hs : left.cluster.Honest ∧ Steady up key left.cluster)
    (hheld : ∀ n ∈ holders, Retains up key w n left.cluster)
    (hmany : c.quorum.n < holders.length + c.quorum.r) {hear : Hearing WriteRound}
    {moves : List (Move (Environment.stable up key) ⊕ Move (Environment.stable up key))}
    {got : ReadRound} (hget : c.gatherUnderway key hear moves left = .ok got) :
    Version.Covered got.versions w := by
  obtain ⟨replicas', hreplicas', hmet, moves', rfl⟩ := gatherUnderway_eq_ok hget
  obtain rfl : replicas = replicas' := Except.ok.inj (hreplicas.symm.trans hreplicas')
  have hall := Ring.nodup_replicas_append_standIns hreplicas
  rw [hsloppy] at hmet ⊢
  have hproceeds := (ReadRound.proceeds_begun true c.quorum.r hall ⟨hs, hheld⟩).play
    (sloppy_gathers up key w holders) hall moves'
  obtain ⟨askedR, heard, hl⟩ := hproceeds.ledger
  obtain ⟨asked, hsubW, hsubR, hpool⟩ := exists_pool (Ring.length_replicas hreplicas) hrn horder
    hl.order hbound hl.bound
  have hmono : ∀ ns : List NodeId, ns ⊆ asked → replicas ++ ns ⊆ replicas ++ asked := fun ns hns =>
    List.append_subset.mpr
      ⟨List.subset_append_left .., List.Subset.trans hns (List.subset_append_right ..)⟩
  have hholdersPool : holders ⊆ (replicas ++ asked).filter up := by
    intro n hn
    obtain ⟨hmem, hup⟩ := List.mem_filter.mp (hsub hn)
    exact List.mem_filter.mpr ⟨hmono askedW hsubW hmem, hup⟩
  have hheardPool : heard ⊆ (replicas ++ asked).filter up := by
    intro n hn
    obtain ⟨vs, ⟨hup, -⟩, -⟩ := hl.gathered n hn
    exact List.mem_filter.mpr ⟨hmono askedR hsubR (hl.heard_subset hn), hup⟩
  rw [← hl.count] at hmet
  obtain ⟨n, hn, hn'⟩ := exists_common hholders hl.nodup_heard hholdersPool hheardPool (by omega)
  obtain ⟨vs, ⟨-, hvs⟩, hgathered⟩ := hl.gathered n hn'
  obtain ⟨k, hk, hw⟩ := hvs hn
  exact ⟨k, hgathered k hk, hw⟩

end Coordinator

theorem sloppy_read_sees_acknowledged_write {ring : Ring} {q : Quorum} {writer reader : NodeId}
    {key : Key} {payload : Payload} {context : VersionVector} {ack : WriteAck} {up : NodeId → Bool}
    {placement : Placement} {callTimeout : Nat} {clock : UInt64} {nodes : SortedMap NodeId Replica}
    {start : Cluster} {survey store rest : List (Move (Environment.stable up key))}
    {both : List (Move (Environment.stable up key) ⊕ Move (Environment.stable up key))}
    {left : Underway WriteRound} {got : ReadRound} (hvalid : q.validate = .ok ())
    (hsloppy : q.sloppy = true) (hquorums : q.n < q.w + q.r)
    (hbefore : Environment.any.Run (ofReplicas placement callTimeout clock nodes) start)
    (hdivided : Divided up key start)
    (hack : (Coordinator.mk writer q ring).acceptUnderway key payload context survey store start =
      .ok (ack, left))
    (hget : (Coordinator.mk reader q ring).gatherUnderway key
      ((Coordinator.mk writer q ring).draining key payload ack) both
      (left.play ((Coordinator.mk writer q ring).draining key payload ack) rest) = .ok got) :
    Version.Covered got.versions ack.vector := by
  have honest : start.Honest :=
    (honest_befall _).run hbefore (honest_ofReplicas placement callTimeout clock nodes)
  obtain ⟨hleft, replicas, asked, more, holders, hreplicas, horder, hbound, hnodup, hsub, hmany, hheld⟩ :=
    Coordinator.sloppy_write_retained hsloppy ⟨honest, (divided_iff_steady honest).mp hdivided⟩ hack
  have hrun := Underway.run_play ((Coordinator.mk writer q ring).draining key payload ack) rest left
  have hlater := (steady_befall up key).run hrun hleft
  have hholders := fun n hn => ((retains_befall up key ack.vector n).run hrun ⟨hleft, hheld n hn⟩).2
  have hpool : q.n < holders.length + q.r := by
    have hw : q.w ≤ holders.length := hmany
    omega
  exact Coordinator.sloppy_read_covers (c := ⟨reader, q, ring⟩) hsloppy
    (Quorum.validate_eq_ok_iff.mp hvalid).2.2.2 hreplicas horder hbound hnodup hsub hlater hholders
    hpool hget

namespace Quartet

def ring : Ring := Ring.ofNodes 1 ["A", "B", "C", "D"]

def quorum : Quorum := ⟨3, 2, 2, 1, 1, .inline, .siblings, true⟩

def nodes : SortedMap NodeId Replica :=
  SortedMap.ofList [("A", .volatile), ("B", .volatile), ("C", .volatile), ("D", .volatile)]

def up (n : NodeId) : Bool := n = "A" || n = "B" || n = "D"

def failed : Cluster :=
  Incident.befall (ofReplicas ⟨ring, 3⟩ 1 0 nodes) (.fares "C" { down := true })

abbrev Schedule : Type := List (Move (Environment.stable up "k"))

abbrev SharedSchedule : Type :=
  List (Move (Environment.stable up "k") ⊕ Move (Environment.stable up "k"))

-- the replicas are C, B and D, in this order, and A stands in for C
def survey : Schedule := [.lands 0, .heard 0, .lands 0, .lands 1, .heard 0, .heard 0]

-- D and A have taken the version, the call to B is still on its way
def store : Schedule := [.lands 0, .heard 0, .lands 1, .lands 2, .heard 1, .heard 1]

-- B is asked before the version reaches it
def both : SharedSchedule :=
  [.inr (.lands 0), .inr (.heard 0), .inr (.lands 0), .inl (.lands 0), .inr (.lands 1), .inr (.heard 0),
    .inr (.heard 0)]

def written (q : Quorum) (survey store : Schedule) :
    Except StoreFailure (WriteAck × Underway WriteRound) :=
  (Coordinator.mk "B" q ring).acceptUnderway "k" (.value [1]) ∅ survey store failed

def gathered (q : Quorum) (both : SharedSchedule) (ack : WriteAck) (left : Underway WriteRound) :
    Except StoreFailure ReadRound :=
  (Coordinator.mk "A" q ring).gatherUnderway "k"
    ((Coordinator.mk "B" q ring).draining "k" (.value [1]) ack) both
    (left.play ((Coordinator.mk "B" q ring).draining "k" (.value [1]) ack) ([] : Schedule))

def outcome (q : Quorum) (survey store : Schedule) (both : SharedSchedule) :
    Except StoreFailure (WriteAck × Nat × List (List Version)) :=
  (written q survey store).bind fun w => (gathered q both w.1 w.2).map fun got =>
    (w.1, w.2.posts.length, got.primaries.map (·.2))

theorem failing : Environment.any.Run (ofReplicas ⟨ring, 3⟩ 1 0 nodes) failed :=
  .tail .refl ⟨.fares "C" { down := true }, trivial, rfl⟩

theorem outcome_ok : outcome quorum survey store both =
    .ok (⟨.ofEntries [("B", 1)], 0, 2, 1⟩, 1, [[], [.live [1] (.ofEntries [("B", 1)]) 0]]) := by
  decide +kernel

theorem steady : Steady up "k" failed := by
  refine ⟨fun n hn => ?_, fun n hn => ?_⟩
  · simp only [up, Bool.or_eq_true, decide_eq_true_eq] at hn
    rcases hn with (rfl | rfl) | rfl
    all_goals exact ⟨⟨⟨by decide +kernel, by decide +kernel, rfl, rfl⟩, rfl⟩, nofun⟩
  · by_cases hC : n = "C"
    · exact .inr (.inl (by subst hC; decide +kernel))
    · simp only [up, Bool.or_eq_false_iff, decide_eq_false_iff_not] at hn
      have hnodes : nodes.get? n = none := by
        simp [nodes, SortedMap.ofList, hn.1.1, hn.1.2, hn.2, hC]
      refine .inl ?_
      rw [isRegistered, SortedMap.contains, show failed.replicas.get? n = none from hnodes]
      rfl

theorem quartet_read_sees_write :
    ∃ ack left got, written quorum survey store = .ok (ack, left) ∧ left.posts.length = 1 ∧
      gathered quorum both ack left = .ok got ∧ [] ∈ got.primaries.map (·.2) ∧
      Version.Covered got.versions ack.vector := by
  have houtcome := outcome_ok
  unfold outcome at houtcome
  cases hwritten : written quorum survey store with
  | error e =>
    rw [hwritten] at houtcome
    cases houtcome
  | ok w =>
    obtain ⟨ack, left⟩ := w
    rw [hwritten] at houtcome
    cases hgathered : gathered quorum both ack left with
    | error e =>
      simp only [Except.bind, hgathered] at houtcome
      cases houtcome
    | ok got =>
      simp only [Except.bind, hgathered, Except.map, Except.ok.injEq, Prod.mk.injEq] at houtcome
      obtain ⟨-, hposts, hprimaries⟩ := houtcome
      have honest : failed.Honest :=
        (honest_befall _).run failing (honest_ofReplicas ⟨ring, 3⟩ 1 0 nodes)
      refine ⟨ack, left, got, rfl, hposts, hgathered, hprimaries ▸ List.mem_cons_self, ?_⟩
      exact sloppy_read_sees_acknowledged_write rfl rfl (by decide) failing
        ((divided_iff_steady honest).mpr steady) hwritten hgathered

-- quorums that need not meet: D alone acknowledges, and B alone is heard
example : outcome { quorum with w := 1, r := 1 } [.lands 2, .heard 2] [.lands 2, .heard 2]
    [.inr (.lands 1), .inr (.heard 1)] = .ok (⟨.ofEntries [("B", 1)], 0, 1, 0⟩, 2, [[]]) := by
  decide +kernel

end Quartet

end QuorumStore
