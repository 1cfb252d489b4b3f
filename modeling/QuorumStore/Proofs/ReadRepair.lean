import QuorumStore.Proofs.PartialRepair
import QuorumStore.Proofs.RepairIdle
import QuorumStore.Proofs.RepairPushes

namespace QuorumStore

namespace Version

variable {policy : ConflictPolicy} {vs ws all : List Version} {u v w : Version}

theorem canonical_cases (policy : ConflictPolicy) (vs : List Version) :
    (resolve policy vs).canonical = vs ∨
      2 ≤ vs.length ∧ ∃ w, w.vector = mergedVector vs ∧ (resolve policy vs).canonical = [w] := by
  by_cases hmany : 2 ≤ vs.length
  · rcases resolve_cases policy vs with ⟨hall, -⟩ | ⟨-, w, hw, hlast⟩
    · exact .inl (congrArg Resolution.canonical hall)
    · exact .inr ⟨hmany, w, lastWriter?_vector hw, congrArg Resolution.canonical hlast⟩
  · refine .inl ?_
    cases policy with
    | siblings => rfl
    | lastWriterWins => rw [resolve, if_pos (Nat.le_of_lt_succ (Nat.lt_of_not_le hmany))]

theorem pairwise_canonical (policy : ConflictPolicy) (h : vs.Pairwise Concurrent) :
    (resolve policy vs).canonical.Pairwise Concurrent := by
  rcases canonical_cases policy vs with hall | ⟨-, w, -, hlast⟩
  · rwa [hall]
  · rw [hlast]
    exact List.pairwise_singleton ..

theorem eq_of_canonical (hu : Covered all u.vector)
    (hident : ∀ v ∈ all, u.vector.compare v.vector = .equal → u = v)
    (hv : v ∈ (resolve policy (reconcile all)).canonical) (heq : u.vector.compare v.vector = .equal) :
    u = v := by
  rcases canonical_cases policy (reconcile all) with hall | ⟨hmany, w, hw, hlast⟩
  · rw [hall] at hv
    exact hident v (mem_of_mem_reconcile hv) heq
  · rw [hlast] at hv
    obtain rfl := List.mem_singleton.mp hv
    obtain ⟨k, hk, huk⟩ := covered_reconcile.mpr hu
    have hle := VersionVector.le_trans (VersionVector.compare_eq_equal_iff.mp heq).1 huk
    exact absurd ⟨k, hk, hw ▸ hle⟩ (not_covered_mergedVector (pairwise_reconcile all) hmany)

theorem resolve_again {again : List Version}
    (hident : ∀ v ∈ all, ∀ w ∈ all, v.vector.compare w.vector = .equal → v = w)
    (hamong : ∀ v ∈ again, v ∈ all ∨ v ∈ (resolve policy (reconcile all)).canonical)
    (hcases : (∀ v ∈ (resolve policy (reconcile all)).canonical, v ∈ again) ∨ ∀ v, v ∈ again ↔ v ∈ all) :
    (resolve policy (reconcile all)).Reordered (resolve policy (reconcile again)) := by
  rcases hcases with hcanonical | hsame
  · have hconcurrent := pairwise_canonical policy (pairwise_reconcile all)
    have hperm : (resolve policy (reconcile all)).canonical.Perm (reconcile again) := by
      refine (perm_of_covered (pairwise_reconcile again) hconcurrent (fun u => ?_) ?_).symm
      · rw [covered_reconcile]
        constructor
        · rintro ⟨v, hv, huv⟩
          rcases hamong v hv with hv | hv
          · exact covered_canonical policy (covered_reconcile.mpr ⟨v, hv, huv⟩)
          · exact ⟨v, hv, huv⟩
        · rintro ⟨v, hv, huv⟩
          exact ⟨v, hcanonical v hv, huv⟩
      · intro v hv w hw heq
        rcases hamong v (mem_of_mem_reconcile hv) with hv | hv
        · exact eq_of_canonical ⟨v, hv, v.vector.le_refl⟩ (hident v hv) hw heq
        · exact eq_of_compare_equal hconcurrent hv hw heq
    have hresolve := resolve_reordered policy hconcurrent hperm
    rwa [resolve_canonical] at hresolve
  · exact resolve_reordered policy (pairwise_reconcile all)
      (reconcile_perm_of_same (fun v => (hsame v).symm) hident)

end Version

namespace Replica

variable {r : Replica} {key : Key} {seen seen' canonical : List Version}

theorem exists_read_mend (hread : r.read key = .ok seen) (canonical : List Version) :
    ∃ seen', (r.mend key seen canonical).read key = .ok seen' := by
  refine ⟨_, read_eq_ok_iff.mpr ⟨?_, rfl⟩⟩
  rw [(within_mend r key seen canonical).damaged]
  exact (read_eq_ok_iff.mp hread).1

theorem covered_read_mend (hread : r.read key = .ok seen)
    (hread' : (r.mend key seen canonical).read key = .ok seen') (w : VersionVector) :
    Version.Covered seen' w ↔ Version.Covered seen w ∨ Version.Covered canonical w := by
  have hseen := covered_read hread (w := w)
  rw [covered_read hread', (within_mend r key seen canonical).hints,
    held_mend (read_eq_ok_iff.mp hread).1]
  split
  · grind
  · rename_i hdiffers
    rw [← hseen]
    exact ⟨.inl, fun h => h.elim id (Version.covered_of_not_differs (Bool.not_eq_true _ ▸ hdiffers))⟩

theorem mem_read_mend (hread : r.read key = .ok seen)
    (hread' : (r.mend key seen canonical).read key = .ok seen') {v : Version} (hv : v ∈ seen') :
    v ∈ r.store.held key ++ r.hints.hinted key ∨ v ∈ canonical := by
  have hmem := mem_of_mem_read hread' hv
  rw [(within_mend r key seen canonical).hints] at hmem
  rcases List.mem_append.mp hmem with hmem | hmem
  · exact (mem_held_mend (read_eq_ok_iff.mp hread).1 hmem).imp_left (List.mem_append_left _)
  · exact .inl (List.mem_append_right _ hmem)

theorem read_mend_perm {policy : ConflictPolicy} {all : List Version} (hread : r.read key = .ok seen)
    (hamong : ∀ v ∈ seen, v ∈ all)
    (hident : ∀ v ∈ r.store.held key ++ r.hints.hinted key, ∀ w ∈ all,
      v.vector.compare w.vector = .equal → v = w)
    (hread' : (r.mend key seen (Version.resolve policy (Version.reconcile all)).canonical).read key =
      .ok seen') :
    seen'.Perm (Version.resolve policy (Version.reconcile all)).canonical := by
  have hbelow : ∀ w, Version.Covered seen w →
      Version.Covered (Version.resolve policy (Version.reconcile all)).canonical w := by
    rintro w ⟨v, hv, hwv⟩
    exact Version.covered_canonical policy (Version.covered_reconcile.mpr ⟨v, hamong v hv, hwv⟩)
  have hcanonical := Version.pairwise_canonical policy (Version.pairwise_reconcile all)
  refine Version.perm_of_covered (pairwise_read hread') hcanonical (fun w => ?_) fun v hv w hw heq => ?_
  · rw [covered_read_mend hread hread', or_iff_right_of_imp (hbelow w)]
  · rcases mem_read_mend hread hread' hv with hv | hv
    · obtain ⟨k, hk, hvk⟩ : Version.Covered seen v.vector := by
        rw [covered_read hread, ← Version.covered_append]
        exact ⟨v, hv, v.vector.le_refl⟩
      exact Version.eq_of_canonical ⟨k, hamong k hk, hvk⟩ (hident v hv) hw heq
    · exact Version.eq_of_compare_equal hcanonical hv hw heq

end Replica

def Read.SameAnswer : Except StoreFailure Read → Except StoreFailure Read → Prop
  | .ok r, .ok r' => r.Reordered r'
  | .error e, .error e' => e = e'
  | _, _ => False

theorem Read.sameAnswer_shown {found found' : Option Read} (h : Option.Rel Read.Reordered found found') :
    Read.SameAnswer (Session.shown found) (Session.shown found') := by
  cases h with
  | none => rfl
  | some h => exact h

theorem ReadRound.Roll.mem_versions_iff {ε : Type} {view : NodeId → Except ε (List Version)}
    {replicas heard : List NodeId} {g : ReadRound} (h : Roll view replicas heard g) {v : Version} :
    v ∈ g.versions ↔ ∃ n ∈ heard, ∃ vs, view n = .ok vs ∧ v ∈ vs := by
  simp only [versions, List.mem_append, List.mem_flatMap, h.hinted]
  constructor
  · rintro (⟨⟨n, vs⟩, hn, hv⟩ | ⟨n, hn, -, vs, hvs, hv⟩)
    · obtain ⟨hheard, -, hvs⟩ := (h.primaries n vs).mp hn
      exact ⟨n, hheard, vs, hvs, hv⟩
    · exact ⟨n, hn, vs, hvs, hv⟩
  · rintro ⟨n, hn, vs, hvs, hv⟩
    by_cases hr : n ∈ replicas
    · exact .inl ⟨(n, vs), (h.primaries n vs).mpr ⟨hn, hr, hvs⟩, hv⟩
    · exact .inr ⟨n, hn, hr, vs, hvs, hv⟩

theorem ReadRound.Roll.mem_nodes_iff {ε : Type} {view : NodeId → Except ε (List Version)}
    {replicas heard : List NodeId} {g : ReadRound} (h : Roll view replicas heard g) {n : NodeId} :
    n ∈ g.primaries.map (·.1) ↔ n ∈ heard ∧ n ∈ replicas := by
  constructor
  · intro hn
    obtain ⟨⟨n, vs⟩, hmem, rfl⟩ := List.mem_map.mp hn
    exact ⟨((h.primaries n vs).mp hmem).1, ((h.primaries n vs).mp hmem).2.1⟩
  · rintro ⟨hn, hr⟩
    obtain ⟨vs, hvs⟩ := h.seen n hn
    exact List.mem_map.mpr ⟨(n, vs), (h.primaries n vs).mpr ⟨hn, hr, hvs⟩, rfl⟩

namespace Coordinator

variable {σ : Type} {net net' : Network σ} {c : Coordinator} {key : Key} {replicas : List NodeId}
  {replica : σ → NodeId → Replica} {s t : σ} {n : NodeId} {vs : List Version}

def Identified (replica : NodeId → Replica) (key : Key) : Prop :=
  ∀ n m, ∀ v ∈ (replica n).store.held key ++ (replica n).hints.hinted key,
    ∀ w ∈ (replica m).store.held key ++ (replica m).hints.hinted key,
      v.vector.compare w.vector = .equal → v = w

section

variable (hnet : net.Quiet key replica) (hreplicas : c.ring.replicas key c.quorum.n = .ok replicas)

include hnet hreplicas

theorem roll : ReadRound.Roll (fun n => (replica s n).read key) replicas (c.heardNodes net key replicas s)
    (c.gathering net key replicas s) :=
  c.gathering_roll (hnet.reads s) hreplicas (hnet.count .gets 1 s)

theorem held_of_gathered {v : Version} (hv : v ∈ (c.gathering net key replicas s).versions) :
    ∃ n, v ∈ (replica s n).store.held key ++ (replica s n).hints.hinted key := by
  obtain ⟨n, -, vs, hvs, hmem⟩ := (roll hnet hreplicas).mem_versions_iff.mp hv
  exact ⟨n, Replica.mem_of_mem_read hvs hmem⟩

variable (hmet : c.quorum.r ≤ (c.gathering net key replicas s).successes)
  (hinline : c.quorum.readRepair = .inline) (hok : ∀ push ∈ c.pushes net key s, push.2 = true)
  (hident : Identified (replica s) key)

include hmet hinline hok

theorem primary_mended (hn : (n, vs) ∈ (c.gathering net key replicas s).primaries) :
    replica (c.read net key s).2 n =
      (replica s n).mend key vs (c.resolution net key replicas s).canonical := by
  have hmends := (read_mends hnet hreplicas hmet hinline hok).1 n vs (List.mem_append_left _ hn)
  by_cases hnil : (c.resolution net key replicas s).canonical = []
  · -- nothing is canonical, so nothing was shown
    have hvs : vs = [] := by
      refine List.eq_nil_iff_forall_not_mem.mpr fun v hv => ?_
      refine Version.canonical_ne_nil c.quorum.policy (Version.reconcile_ne_nil (v := v) ?_) hnil
      exact List.mem_append_left _ (List.mem_flatMap.mpr ⟨(n, vs), hn, hv⟩)
    rw [hmends, if_pos hnil, hnil, hvs]
    rfl
  · rw [hmends, if_neg hnil]

include hident

theorem primary_shows (hn : (n, vs) ∈ (c.gathering net key replicas s).primaries) :
    ∃ shown, (replica (c.read net key s).2 n).read key = .ok shown ∧
      shown.Perm (c.resolution net key replicas s).canonical := by
  have hread := (((roll hnet hreplicas).primaries n vs).mp hn).2.2
  rw [primary_mended hnet hreplicas hmet hinline hok hn]
  obtain ⟨shown, hshown⟩ := Replica.exists_read_mend hread (c.resolution net key replicas s).canonical
  refine ⟨shown, hshown, Replica.read_mend_perm hread (fun v hv => ?_) (fun v hv w hw => ?_) hshown⟩
  · exact List.mem_append_left _ (List.mem_flatMap.mpr ⟨(n, vs), hn, hv⟩)
  · obtain ⟨m, hm⟩ := held_of_gathered hnet hreplicas hw
    exact hident n m v hv w hm

omit hident

theorem late_covers {call : InFlight ReadAnswer} (hcall : call ∈ (c.gathering net key replicas s).pending)
    (hkind : call.answer.isStandIn = false) (hdue : call.due < c.quorum.readTimeout)
    (hvs : call.answer.versions = .ok vs) :
    ∃ shown, (replica (c.read net key s).2 call.answer.node).read key = .ok shown ∧
      Version.Known shown ((replica s call.answer.node).store.held key ++
        (replica s call.answer.node).hints.hinted key) ∧
      Version.Known shown (c.resolution net key replicas s).canonical := by
  have hread := ((roll hnet hreplicas).faithful call hcall).shown vs hvs
  have hheld : ∀ v ∈ (replica s call.answer.node).store.held key ++
      (replica s call.answer.node).hints.hinted key, Version.Covered vs v.vector := by
    intro v hv
    rw [Replica.covered_read hread, ← Version.covered_append]
    exact ⟨v, hv, v.vector.le_refl⟩
  have hmends := (read_mends hnet hreplicas hmet hinline hok).1 call.answer.node vs
    (List.mem_append_right _ (mem_lateAnswers.mpr ⟨call, hcall, hkind, hdue, hvs, rfl⟩))
  by_cases hnil : (c.resolution net key replicas s).canonical = []
  · rw [hmends, if_pos hnil, hnil]
    exact ⟨vs, hread, Version.known_iff_covered.mpr hheld,
      Version.known_iff_covered.mpr (List.forall_mem_nil _)⟩
  · rw [hmends, if_neg hnil]
    obtain ⟨shown, hshown⟩ := Replica.exists_read_mend hread (c.resolution net key replicas s).canonical
    have hcovered := Replica.covered_read_mend hread hshown
    refine ⟨shown, hshown, Version.known_iff_covered.mpr fun v hv => ?_,
      Version.known_iff_covered.mpr fun v hv => ?_⟩
    · exact (hcovered v.vector).mpr (.inl (hheld v hv))
    · exact (hcovered v.vector).mpr (.inr ⟨v, hv, v.vector.le_refl⟩)

variable {t : σ} (hsame : replica t = replica (c.read net key s).2)

include hident hsame

theorem shown_again (hn : n ∈ c.heardNodes net key replicas s) :
    ∃ shown, (replica t n).read key = .ok shown ∧
      (n ∈ replicas → shown.Perm (c.resolution net key replicas s).canonical) ∧
      (n ∉ replicas → (replica s n).read key = .ok shown) := by
  have hroll := roll (s := s) hnet hreplicas
  obtain ⟨vs, hvs⟩ := hroll.seen n hn
  rw [hsame]
  by_cases hr : n ∈ replicas
  · obtain ⟨shown, hshown, hperm⟩ := primary_shows hnet hreplicas hmet hinline hok hident
      ((hroll.primaries n vs).mpr ⟨hn, hr, hvs⟩)
    exact ⟨shown, hshown, fun _ => hperm, fun h => absurd hr h⟩
  · refine ⟨vs, ?_, fun h => absurd h hr, fun _ => hvs⟩
    rw [(read_mends hnet hreplicas hmet hinline hok).2 n hr]
    exact hvs

variable (hnet' : net'.Quiet key replica)
  (hheard : ∀ n, n ∈ c.heardNodes net' key replicas t ↔ n ∈ c.heardNodes net key replicas s)

include hnet' hheard

theorem resolution_again :
    (c.resolution net key replicas s).Reordered (c.resolution net' key replicas t) := by
  have hroll := roll (s := s) hnet hreplicas
  have hroll' := roll (s := t) hnet' hreplicas
  have hagain := fun n hn => shown_again hnet hreplicas hmet hinline hok hident hsame (n := n) hn
  refine Version.resolve_again (fun v hv w hw => ?_) (fun v hv => ?_) ?_
  · obtain ⟨n, hn⟩ := held_of_gathered hnet hreplicas hv
    obtain ⟨m, hm⟩ := held_of_gathered hnet hreplicas hw
    exact hident n m v hn w hm
  · obtain ⟨n, hn, vs, hvs, hmem⟩ := hroll'.mem_versions_iff.mp hv
    obtain ⟨shown, hshown, hreplica, hother⟩ := hagain n ((hheard n).mp hn)
    obtain rfl : shown = vs := Except.ok.inj (hshown.symm.trans hvs)
    by_cases hr : n ∈ replicas
    · exact .inr ((hreplica hr).mem_iff.mp hmem)
    · exact .inl (hroll.mem_versions_iff.mpr ⟨n, (hheard n).mp hn, shown, hother hr, hmem⟩)
  · by_cases hprimary : ∃ n ∈ c.heardNodes net key replicas s, n ∈ replicas
    · obtain ⟨n, hn, hr⟩ := hprimary
      obtain ⟨shown, hshown, hreplica, -⟩ := hagain n hn
      refine .inl fun v hv => hroll'.mem_versions_iff.mpr ⟨n, (hheard n).mpr hn, shown, hshown, ?_⟩
      exact (hreplica hr).mem_iff.mpr hv
    · -- none but stand-ins were heard, and they show what they showed
      have hother : ∀ n ∈ c.heardNodes net key replicas s, ∀ vs,
          (replica t n).read key = .ok vs ↔ (replica s n).read key = .ok vs := by
        intro n hn vs
        obtain ⟨shown, hshown, -, hother⟩ := hagain n hn
        rw [hshown, hother fun hr => hprimary ⟨n, hn, hr⟩]
      refine .inr fun v => ?_
      rw [hroll.mem_versions_iff, hroll'.mem_versions_iff]
      constructor
      · rintro ⟨n, hn, vs, hvs, hv⟩
        exact ⟨n, (hheard n).mp hn, vs, (hother n ((hheard n).mp hn) vs).mp hvs, hv⟩
      · rintro ⟨n, hn, vs, hvs, hv⟩
        exact ⟨n, (hheard n).mpr hn, vs, (hother n hn vs).mpr hvs, hv⟩

theorem read_again : Read.SameAnswer (c.read net key s).1 (c.read net' key t).1 := by
  have hroll := roll (s := s) hnet hreplicas
  have hroll' := roll (s := t) hnet' hreplicas
  have hmet' : c.quorum.r ≤ (c.gathering net' key replicas t).successes := by
    have hperm := (List.perm_ext_iff_of_nodup (List.nodup_append.mp hroll'.nodup).1
      (List.nodup_append.mp hroll.nodup).1).mpr hheard
    rwa [hroll'.count, hperm.length_eq, ← hroll.count]
  rw [read_eq_resolution hreplicas hmet, read_eq_resolution hreplicas hmet']
  exact Read.sameAnswer_shown
    (resolution_again hnet hreplicas hmet hinline hok hident hsame hnet' hheard).1

theorem not_stale (hn : (n, vs) ∈ (c.gathering net' key replicas t).primaries) :
    Version.differs vs (c.resolution net' key replicas t).canonical = false := by
  have hcanonical := (resolution_again hnet hreplicas hmet hinline hok hident hsame hnet' hheard).2
  obtain ⟨hheard', hr, hvs⟩ := ((roll hnet' hreplicas).primaries n vs).mp hn
  obtain ⟨shown, hshown, hreplica, -⟩ := shown_again hnet hreplicas hmet hinline hok hident hsame
    ((hheard n).mp hheard')
  obtain rfl : shown = vs := Except.ok.inj (hshown.symm.trans hvs)
  exact Version.not_differs_of_perm ((hreplica hr).trans hcanonical)

end

end Coordinator

open Cluster Version

theorem read_repair_settles {e : Environment} (events : Nat → List e.Event)
    (houtward : ∀ k, ∀ i ∈ events k, i.val.Outward) (c : Coordinator) (key : Key) (s : Interrupted)
    {replicas : List NodeId} (hreplicas : c.ring.replicas key c.quorum.n = .ok replicas)
    (hinline : c.quorum.readRepair = .inline)
    (hident : ∀ n m, ∀ v ∈ (s.cluster.replica n).store.held key ++ (s.cluster.replica n).hints.hinted key,
      ∀ w ∈ (s.cluster.replica m).store.held key ++ (s.cluster.replica m).hints.hinted key,
        v.vector.compare w.vector = .equal → v = w)
    (hmet : c.quorum.r ≤ (c.gathering (interrupted events) key replicas s).successes)
    (hok : ∀ push ∈ c.pushes (interrupted events) key s, push.2 = true) :
    let round := c.gathering (interrupted events) key replicas s
    let canonical := (resolve c.quorum.policy (reconcile round.versions)).canonical
    let result := c.read (interrupted events) key s
    (∀ n vs, (n, vs) ∈ round.primaries →
      ∃ shown, (result.2.cluster.replica n).read key = .ok shown ∧ shown.Perm canonical) ∧
    (∀ call ∈ round.pending, call.answer.isStandIn = false → call.due < c.quorum.readTimeout →
      ∀ vs, call.answer.versions = .ok vs → let held := s.cluster.replica call.answer.node
      ∃ shown, (result.2.cluster.replica call.answer.node).read key = .ok shown ∧
        Known shown (held.store.held key ++ held.hints.hinted key) ∧ Known shown canonical) ∧
    ∀ (events' : Nat → List e.Event), (∀ k, ∀ i ∈ events' k, i.val.Outward) →
      ∀ (c' : Coordinator) (t : Interrupted), c'.quorum = c.quorum → c'.ring = c.ring →
      t.cluster.replica = result.2.cluster.replica →
      (∀ n, n ∈ c'.heardNodes (interrupted events') key replicas t ↔
        n ∈ c.heardNodes (interrupted events) key replicas s) →
      let again := c'.gathering (interrupted events') key replicas t
      Read.SameAnswer result.1 (c'.read (interrupted events') key t).1 ∧
        (∀ n, n ∈ again.primaries.map (·.1) ↔ n ∈ round.primaries.map (·.1)) ∧
        ∀ n vs, (n, vs) ∈ again.primaries →
          differs vs (resolve c.quorum.policy (reconcile again.versions)).canonical = false := by
  have hnet := quiet_interrupted houtward key
  refine ⟨fun n vs hn => ?_, fun call hcall hkind hdue vs hvs => ?_, ?_⟩
  · exact Coordinator.primary_shows hnet hreplicas hmet hinline hok hident hn
  · exact Coordinator.late_covers hnet hreplicas hmet hinline hok hcall hkind hdue hvs
  · -- a get does not depend on whose counter its coordinator raises
    rintro events' houtward' ⟨id, quorum, ring⟩ t rfl rfl hsame hheard
    have hnet' := quiet_interrupted houtward' key
    have hroll := Coordinator.roll (s := s) hnet hreplicas
    have hroll' := Coordinator.roll (s := t) hnet' hreplicas
    refine ⟨Coordinator.read_again hnet hreplicas hmet hinline hok hident hsame hnet' hheard, fun n => ?_,
      fun n vs hn => ?_⟩
    · rw [hroll.mem_nodes_iff]
      exact hroll'.mem_nodes_iff.trans (and_congr_left' (hheard n))
    · exact Coordinator.not_stale hnet hreplicas hmet hinline hok hident hsame hnet' hheard hn

namespace Belated

def ring : Ring := Ring.ofNodes 1 ["A", "B", "C"]

def coordinator : Coordinator := ⟨"A", ⟨3, 2, 2, 5, 5, .inline, .lastWriterWins, false⟩, ring⟩

def ours : Version := .live [1] (.ofEntries [("A", 1)]) 0

def theirs : Version := .live [2] (.ofEntries [("B", 1)]) 0

def third : Version := .live [3] (.ofEntries [("C", 1)]) 0

def joined : Version := .live [2] (.ofEntries [("A", 1), ("B", 1)]) 0

def holding (v : Version) : Replica := (Replica.volatile.merge "k" [v]).2

def cluster : Cluster :=
  ((((Cluster.ofNodes ⟨ring, 3⟩ 1 0 ["A", "B", "C"]).became "A" (holding third) .empty).became "B"
    (holding theirs) .empty).became "C" (holding ours) .empty).alter "A" fun k => { k with delay := 3 }

theorem held_cluster (n : NodeId) : ∀ v ∈ (cluster.replica n).store.held "k" ++
    (cluster.replica n).hints.hinted "k", v ∈ [ours, theirs, third] := by
  have hreplica : cluster.replica n = if n = "C" then holding ours else if n = "B" then holding theirs
      else if n = "A" then holding third else .volatile := by
    refine (replica_became _ "C" n (holding ours) .empty).trans ?_
    simp
  rw [hreplica]
  split
  · decide +kernel
  · split
    · decide +kernel
    · split
      · decide +kernel
      · decide +kernel

theorem identified_cluster : Coordinator.Identified cluster.replica "k" := by
  have hident : ∀ v ∈ [ours, theirs, third], ∀ w ∈ [ours, theirs, third],
      v.vector.compare w.vector = .equal → v = w := by
    decide
  exact fun n m v hv w hw => hident v (held_cluster n v hv) w (held_cluster m w hw)

def quiet : Nat → List Environment.any.Event := fun _ => []

def start : Interrupted := ⟨cluster, 0⟩

def repaired : Interrupted := (coordinator.read (interrupted quiet) "k" start).2

deriving instance DecidableEq for ReadAnswer

deriving instance DecidableEq for InFlight

theorem late_replica_repaired :
    (coordinator.read (interrupted quiet) "k" start).1 = .ok (.value joined) ∧
    (∃ shown, (repaired.cluster.replica "C").read "k" = .ok shown ∧ shown.Perm [joined]) ∧
    (∃ shown, (repaired.cluster.replica "A").read "k" = .ok shown ∧ Known shown [third] ∧
      Known shown [joined]) ∧
    Read.SameAnswer (.ok (.value joined)) (coordinator.read (interrupted quiet) "k" repaired).1 := by
  have hanswer : (coordinator.read (interrupted quiet) "k" start).1 = .ok (.value joined) := by
    decide +kernel
  have hreplicas : coordinator.ring.replicas "k" coordinator.quorum.n = .ok ["C", "B", "A"] := by
    decide +kernel
  have hcanonical : (resolve coordinator.quorum.policy (reconcile (coordinator.gathering (interrupted quiet)
      "k" ["C", "B", "A"] start).versions)).canonical = [joined] := by
    decide +kernel
  have hprimary : ("C", [ours]) ∈ (coordinator.gathering (interrupted quiet) "k" ["C", "B", "A"]
      start).primaries := by
    decide +kernel
  have hlate : ⟨3, "A", false, .ok [third]⟩ ∈ (coordinator.gathering (interrupted quiet) "k"
      ["C", "B", "A"] start).pending := by
    decide +kernel
  have hthird : (start.cluster.replica "A").store.held "k" ++ (start.cluster.replica "A").hints.hinted "k" =
      [third] := by
    decide +kernel
  have hheard : ∀ n, n ∈ coordinator.heardNodes (interrupted quiet) "k" ["C", "B", "A"] repaired ↔
      n ∈ coordinator.heardNodes (interrupted quiet) "k" ["C", "B", "A"] start := by
    have heq : coordinator.heardNodes (interrupted quiet) "k" ["C", "B", "A"] repaired =
        coordinator.heardNodes (interrupted quiet) "k" ["C", "B", "A"] start := by
      decide +kernel
    exact fun n => by rw [heq]
  obtain ⟨hshows, hcovers, hagain⟩ := read_repair_settles quiet (fun _ _ h => nomatch h) coordinator "k"
    start hreplicas rfl identified_cluster (by decide +kernel) (by decide +kernel)
  rw [hcanonical] at hshows hcovers
  refine ⟨hanswer, ?_, ?_, ?_⟩
  · rw [repaired]
    exact hshows "C" [ours] hprimary
  · rw [repaired]
    obtain ⟨shown, hshown, hheld, hsent⟩ := hcovers _ hlate rfl (by decide) [third] rfl
    rw [hthird] at hheld
    exact ⟨shown, hshown, hheld, hsent⟩
  · have hsame : repaired.cluster.replica =
        (coordinator.read (interrupted quiet) "k" start).2.cluster.replica := by
      rw [repaired]
    have hlater := hagain quiet (fun _ _ h => nomatch h) coordinator repaired rfl rfl hsame hheard
    -- were the second get left in sight, the projection would compute it
    generalize (coordinator.read (interrupted quiet) "k" repaired).1 = again at hlater ⊢
    rw [hanswer] at hlater
    exact hlater.1

end Belated

end QuorumStore
