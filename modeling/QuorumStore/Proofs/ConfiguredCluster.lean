import QuorumStore.Proofs.CalmCluster
import QuorumStore.Proofs.ClockwiseWalk
import QuorumStore.Proofs.DigestDepth
import QuorumStore.Proofs.Interruption
import QuorumStore.Proofs.Operations
import QuorumStore.Proofs.SettingsCheck
import QuorumStore.Session

namespace QuorumStore

variable {σ : Type} {key : Key}

namespace Session

variable {net : Network σ} {c : Coordinator} {session : Session} {s : σ} {e : StoreFailure}

theorem write_eq_error {payload : Payload} (h : (session.write net c key payload s).1 = .error e) :
    (c.write net key payload ((session.context? key).getD ∅) s).1 = .error e := by
  unfold write at h
  split at h
  · rename_i hwrite
    rw [hwrite]
    exact h
  · cases h

theorem read_eq_error (h : (session.read net c key s).1 = .error e) :
    e = .notFound ∨ (c.read net key s).1 = .error e := by
  unfold read at h
  dsimp only at h
  split at h
  case h_3 hread =>
    rw [hread]
    exact .inr h
  all_goals
    split at h
    · cases h
      exact .inl rfl
    · cases h

end Session

namespace Ring

variable {k n : Nat} {ns : List NodeId}

theorem perMember_ofNodes (k : Nat) (ns : List NodeId) : (ofNodes k ns).perMember = max k 1 := by
  rw [ofNodes_eq_after]
  exact perMember_after

theorem seatedBy_ofNodes (happart : Apart (max k 1) ns) : (ofNodes k ns).SeatedBy ns.toFinset := by
  have hjoined : Undisputed (max k 1) (ns.map .join) := by
    intro n hn m hm
    refine happart m ?_ n (mem_membersAfter_joins.mp hn)
    simpa [Change.node] using hm
  have hmembers : membersAfter (ns.map .join) = ns.toFinset := by
    ext n
    rw [mem_membersAfter_joins, List.mem_toFinset]
  rw [ofNodes_eq_after, ← hmembers]
  exact seatedBy_after hjoined

theorem preference_ofNodes_perm (hdistinct : ns.Nodup) (happart : Apart (max k 1) ns) (key : Key) :
    ((ofNodes k ns).preference key).Perm ns := by
  refine (List.perm_ext_iff_of_nodup (nodup_preference _ key) hdistinct).mpr fun n => ?_
  rw [(seatedBy_ofNodes happart).mem_preference_iff (by rw [perMember_ofNodes]; omega), List.mem_toFinset]

def Provides (r : Ring) (n : Nat) (ns : List NodeId) : Prop :=
  ∀ key, ∃ owners, r.replicas key n = .ok owners ∧ owners.length = n ∧ owners.Nodup ∧ owners ⊆ ns

theorem provides_ofNodes (hdistinct : ns.Nodup) (happart : Apart (max k 1) ns) (hn : n ≤ ns.length) :
    (ofNodes k ns).Provides n ns := by
  intro key
  have hperm := preference_ofNodes_perm hdistinct happart key
  have hreplicas := replicas_eq_ok_iff.mpr ⟨hperm.length_eq ▸ hn, rfl⟩
  exact ⟨_, hreplicas, length_replicas hreplicas, (nodup_preference _ key).sublist (List.take_sublist ..),
    fun m hm => hperm.subset (List.mem_of_mem_take hm)⟩

end Ring

def StoreFailure.ofSettings : StoreFailure → Bool
  | .placementUnavailable _ => true
  | .invalidQuorum _ => true
  | _ => false

namespace Coordinator

variable {k : Coordinator} {ns : List NodeId} {net : Network σ} {s : σ} {e : StoreFailure}

theorem ofSettings_write (h : k.ring.Provides k.quorum.n ns) {payload : Payload} {context : VersionVector}
    (he : (k.write net key payload context s).1 = .error e) : e.ofSettings = false := by
  obtain ⟨owners, howners, -⟩ := h key
  rcases write_eq_error howners he with rfl | ⟨acks, -, rfl⟩ <;> rfl

theorem ofSettings_read (h : k.ring.Provides k.quorum.n ns) (he : (k.read net key s).1 = .error e) :
    e.ofSettings = false := by
  obtain ⟨owners, howners, -⟩ := h key
  rcases read_eq_error howners he with rfl | ⟨heard, -, rfl⟩ <;> rfl

structure Equipped (k : Coordinator) (ns : List NodeId) : Prop where
  replicas : k.ring.Provides k.quorum.n ns
  write : ∀ {σ : Type} (net : Network σ) (key : Key) (payload : Payload) (context : VersionVector) (s : σ) e,
    (k.write net key payload context s).1 = .error e → e.ofSettings = false
  read : ∀ {σ : Type} (net : Network σ) (key : Key) (s : σ) e,
    (k.read net key s).1 = .error e → e.ofSettings = false
  sessionWrite : ∀ {σ : Type} (net : Network σ) (key : Key) (payload : Payload) (session : Session) (s : σ) e,
    (session.write net k key payload s).1 = .error e → e.ofSettings = false
  sessionRead : ∀ {σ : Type} (net : Network σ) (key : Key) (session : Session) (s : σ) e,
    (session.read net k key s).1 = .error e → e.ofSettings = false

theorem equipped_of_provides (h : k.ring.Provides k.quorum.n ns) : k.Equipped ns where
  replicas := h
  write _ _ _ _ _ _ he := ofSettings_write h he
  read _ _ _ _ he := ofSettings_read h he
  sessionWrite _ _ _ _ _ _ he := ofSettings_write h (Session.write_eq_error he)
  sessionRead _ _ _ _ e he := by
    rcases Session.read_eq_error he with rfl | he
    · rfl
    · exact ofSettings_read h he

end Coordinator

namespace Config

variable {c : Config}

namespace Consistent

theorem coordinators_eq (h : c.Consistent) (ring : Ring) :
    c.coordinators ring =
      .ok (SortedMap.ofList (c.nodes.map (fun n => (n, ⟨n, toQuorum c.quorum, ring⟩)))) := by
  have hcreate : (fun n => (Coordinator.create? n (toQuorum c.quorum) ring).map (fun k => (n, k))) =
      fun n => pure (n, ⟨n, toQuorum c.quorum, ring⟩) := by
    funext n
    rw [h.create?_coordinator]
    rfl
  rw [coordinators, hcreate, List.mapM_pure]
  rfl

theorem coordinator?_eq (h : c.Consistent) (cluster : Cluster) (n : NodeId) :
    c.coordinator? cluster n =
      if n ∈ c.nodes then some ⟨n, toQuorum c.quorum, cluster.placement.ring⟩ else none := by
  rw [coordinator?, h.coordinators_eq]
  exact SortedMap.get?_ofList_map _ c.nodes n

theorem assemble_eq (h : c.Consistent) (hvolatile : c.storage.durable = false) (clock : UInt64)
    (disks : SortedMap NodeId Disk) :
    c.assemble clock disks = .ok (Cluster.ofNodes c.placement c.callTimeout clock c.nodes) := by
  obtain ⟨policy, hpolicy, -⟩ := h.sync
  have hreplicas : c.replicas disks = .ok (SortedMap.ofList (c.nodes.map (fun n => (n, .volatile)))) := by
    rw [replicas, hvolatile]
    rfl
  rw [assemble, validate_eq_ok_iff.mpr h, hpolicy, hreplicas, h.coordinators_eq]
  rfl

theorem provides (h : c.Consistent) (happart : Ring.Apart c.ring.virtualNodes c.nodes) :
    c.placement.ring.Provides c.quorum.n c.nodes := by
  have hk : max c.ring.virtualNodes 1 = c.ring.virtualNodes := Nat.max_eq_left h.positions
  exact Ring.provides_ofNodes h.distinct (hk.symm ▸ happart) h.enough

end Consistent

theorem accepted_settings_work (hvalid : c.validate = .ok ()) (hvolatile : c.storage.durable = false)
    (happart : Ring.Apart c.ring.virtualNodes c.nodes) (clock : UInt64) (disks : SortedMap NodeId Disk) :
    let built := Cluster.ofNodes c.placement c.callTimeout clock c.nodes
    c.assemble clock disks = .ok built ∧
      (∀ n, built.replicas.get? n = if n ∈ c.nodes then some .volatile else none) ∧ c.nodeId ∈ c.nodes ∧
      Cluster.Environment.any.Keeps (fun later => later.placement = built.placement) ∧
      (∀ later : Cluster, later.placement = built.placement → ∀ n,
        (n ∉ c.nodes → c.coordinator? later n = none) ∧
        (n ∈ c.nodes → ∃ k, c.coordinator? later n = some k ∧ k.id = n ∧
          k.quorum = toQuorum c.quorum ∧ k.Equipped c.nodes)) ∧
      c.Shallow := by
  intro built
  have hc : c.Consistent := validate_eq_ok_iff.mp hvalid
  refine ⟨hc.assemble_eq hvolatile clock disks, fun n => SortedMap.get?_ofList_map _ c.nodes n, hc.listed,
    Cluster.keeps_placement _ _, fun later hlater n => ⟨fun hn => ?_, fun hn => ?_⟩, shallow hc.depth⟩
  · rw [hc.coordinator?_eq, if_neg hn]
  · refine ⟨_, (hc.coordinator?_eq later n).trans (if_pos hn), rfl, rfl, Coordinator.equipped_of_provides ?_⟩
    rw [hlater]
    exact hc.provides happart

def loud : Config :=
  { nodeId := "B", nodes := ["A", "B", "C"], ring := { virtualNodes := 2 },
    quorum := { n := 2, r := 2, w := 1 }, repair := { digestDepth := 16 }, storage := { sync := "BATch" } }

theorem loud_settings_work :
    loud.validate = .ok () ∧ ∃ built, loud.assemble 5 ∅ = .ok built ∧
      ∃ k, loud.coordinator? built "B" = some k ∧ k.Equipped ["A", "B", "C"] := by
  have hvalid : loud.validate = .ok () := by decide +kernel
  obtain ⟨hbuilt, -, hlisted, -, hcoordinates, -⟩ :=
    accepted_settings_work hvalid rfl (by decide +kernel) 5 ∅
  obtain ⟨k, hk, -, -, hequipped⟩ := (hcoordinates _ rfl "B").2 hlisted
  exact ⟨hvalid, _, hbuilt, k, hk, hequipped⟩

end Config

end QuorumStore
