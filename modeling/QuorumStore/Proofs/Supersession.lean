import QuorumStore.Cluster
import QuorumStore.Proofs.PartialRepair
import QuorumStore.Proofs.VectorLattice
import QuorumStore.Proofs.WriteSpread

namespace QuorumStore

namespace Version

variable {vs : List Version} {u v : Version}

theorem reconcile_concat_of_above (habove : ∀ u ∈ vs, v.vector.compare u.vector = .dominates) :
    reconcile (vs ++ [v]) = [v] := by
  refine reconcile_eq_singleton (List.mem_append_right vs (List.mem_singleton_self v)) fun u hu => ?_
  rcases List.mem_append.mp hu with hu | hu
  · exact .inr (habove u hu)
  · exact .inl (List.mem_singleton.mp hu)

theorem mem_reconcile_concat (h : vs.Pairwise Concurrent) (hu : u ∈ vs)
    (hkept : v.vector.compare u.vector ≠ .dominates) : u ∈ reconcile (vs ++ [v]) := by
  rw [reconcile_concat, reconcile_of_pairwise h]
  refine List.mem_append_left _ (List.mem_filter.mpr ⟨hu, decide_eq_true ?_⟩)
  exact List.forall_mem_singleton.mpr hkept

end Version

namespace Replica

variable {p : Placement} {self : NodeId} {now : UInt64} {r : Replica} {key : Key} {u v : Version}

theorem handle_put_cases (p : Placement) (self : NodeId) (now : UInt64) (r : Replica) (key : Key)
    (v : Version) :
    (∃ e, r.handle p self now (.put key v) = (.error e, r)) ∨
      ∃ r', r.handle p self now (.put key v) = (.ok .ack, r') ∧
        r'.store.held key = Version.reconcile (r.store.held key ++ [v]) := by
  simp only [handle, merge]
  cases hm : r.store.merge key [v] with
  | error e => exact .inl ⟨_, rfl⟩
  | ok result => exact .inr ⟨_, rfl, (Store.held_merge hm key).1.trans (if_pos rfl)⟩

theorem held_of_put_accepted (hok : (r.handle p self now (.put key v)).1 = .ok .ack)
    (habove : ∀ u ∈ r.store.held key, v.vector.compare u.vector = .dominates) :
    (r.handle p self now (.put key v)).2.store.held key = [v] := by
  rcases handle_put_cases p self now r key v with ⟨e, heq⟩ | ⟨r', heq, hheld⟩
  · rw [heq] at hok
    cases hok
  · rw [heq, hheld]
    exact Version.reconcile_concat_of_above habove

theorem kept_of_put (hheld : (r.store.held key).Pairwise Version.Concurrent) (hu : u ∈ r.store.held key)
    (hkept : v.vector.compare u.vector ≠ .dominates) :
    u ∈ (r.handle p self now (.put key v)).2.store.held key := by
  rcases handle_put_cases p self now r key v with ⟨e, heq⟩ | ⟨r', heq, hmerged⟩
  · rw [heq]
    exact hu
  · rw [heq, hmerged]
    exact Version.mem_reconcile_concat hheld hu hkept

end Replica

def Request.Brings (key : Key) (v : Version) (request : Request) : Prop :=
  request = .put key v ∨ ∃ target, request = .putHinted target key v

namespace Coordinator

variable {σ : Type} {net : Network σ} {c : Coordinator} {key : Key} {payload : Payload}
  {context vector : VersionVector} {replicas : List NodeId} {s : σ}

theorem exists_stamp? {id : NodeId} {seen : List Version}
    (h : (((Version.mergedVector seen).merge context).get id).toNat < UInt64.size - 1) :
    ∃ vector, stamp? id seen context = some vector :=
  VersionVector.exists_increment? h

theorem writeCalls_eq (hreplicas : c.ring.replicas key c.quorum.n = .ok replicas)
    (hvector : stamp? c.id (c.surveying net key payload replicas s).1.versions context = some vector) :
    let v := payload.version vector (net.now (c.surveying net key payload replicas s).2)
    ∃ puts more, c.writeCalls net key payload context s = puts ++ more ∧
      puts.map (fun call => (call.receiver, call.request)) = replicas.map (fun n => (n, .put key v)) ∧
      ∀ call ∈ more, call.request.Brings key v := by
  obtain ⟨hsame, hnothing⟩ := surveying_recording net c key payload replicas s
  rw [hsame] at hvector ⊢
  have hwrite := write_eq hreplicas hvector
  rw [writeCalls, hwrite]
  dsimp only
  rw [show net.recording.now = fun t : σ × List Call => net.now t.1 from rfl]
  generalize c.surveying net.recording key payload replicas (s, []) = seen at hnothing
  obtain ⟨round, t, calls⟩ := seen
  obtain rfl : calls = [] := hnothing
  generalize payload.version vector (net.now t) = v
  have hroutes := WriteRound.writeAll_routes net key v round.time replicas t
  obtain ⟨puts, hputs⟩ :
    ∃ puts, (WriteRound.writeAll net.recording key v round.time replicas (t, [])).2.2 = puts := ⟨_, rfl⟩
  rw [hputs] at hroutes
  -- whatever follows the calls to the replicas brings the same version
  have happend : ∀ n request (u : σ × List Call), request.Brings key v →
      (∃ more, u.2 = puts ++ more ∧ ∀ call ∈ more, call.request.Brings key v) →
      ∃ more, (net.recording.send n request u).2.2 = puts ++ more ∧
        ∀ call ∈ more, call.request.Brings key v := by
    rintro n request ⟨u, -⟩ hbrings ⟨more, rfl, hmore⟩
    refine ⟨more ++ [⟨n, request, (net.send n request u).1.answer.isOk⟩], ?_, ?_⟩
    · rcases hbrings with rfl | ⟨target, rfl⟩ <;> exact List.append_assoc ..
    · exact List.forall_mem_append.mpr ⟨hmore, List.forall_mem_singleton.mpr hbrings⟩
  have hput := fun n u => happend n (.put key v) u (.inl rfl)
  have hhint := fun n target u => happend n (.putHinted target key v) u (.inr ⟨target, rfl⟩)
  have hstored : ∃ more, (c.storing net.recording key replicas v (round, t, [])).2.2 = puts ++ more ∧
      ∀ call ∈ more, call.request.Brings key v :=
    WriteRound.listen_preserves hput hhint _ _
      ⟨[], hputs.trans (List.append_nil puts).symm, List.forall_mem_nil _⟩
  split
  · obtain ⟨more, hcalls, hmore⟩ := hstored
    exact ⟨puts, more, hcalls, hroutes, hmore⟩
  · obtain ⟨more, hcalls, hmore⟩ := WriteRound.drain_preserves hput hhint
      (c.storing net.recording key replicas v (round, t, [])).1.patience
      (c.storing net.recording key replicas v (round, t, [])).1 hstored
    exact ⟨puts, more, hcalls, hroutes, hmore⟩

theorem writeCalls_bring (hreplicas : c.ring.replicas key c.quorum.n = .ok replicas)
    (hvector : stamp? c.id (c.surveying net key payload replicas s).1.versions context = some vector) :
    let v := payload.version vector (net.now (c.surveying net key payload replicas s).2)
    (∀ n ∈ replicas, ∃ accepted, ⟨n, .put key v, accepted⟩ ∈ c.writeCalls net key payload context s) ∧
      ∀ call ∈ c.writeCalls net key payload context s, call.request.Brings key v := by
  obtain ⟨puts, more, hcalls, hroutes, hmore⟩ := writeCalls_eq hreplicas hvector
  rw [hcalls]
  refine ⟨fun n hn => ?_, List.forall_mem_append.mpr ⟨fun call hcall => .inl ?_, hmore⟩⟩
  · obtain ⟨⟨receiver, request, accepted⟩, hcall, heq⟩ :=
      List.mem_map.mp (hroutes ▸ List.mem_map_of_mem hn)
    cases heq
    exact ⟨accepted, List.mem_append_left more hcall⟩
  · obtain ⟨n, -, heq⟩ := List.mem_map.mp (hroutes ▸ List.mem_map_of_mem hcall)
    exact (congrArg Prod.snd heq).symm

theorem ack_of_write {ack : WriteAck} (hreplicas : c.ring.replicas key c.quorum.n = .ok replicas)
    (hvector : stamp? c.id (c.surveying net key payload replicas s).1.versions context = some vector)
    (hack : (c.write net key payload context s).1 = .ok ack) :
    ack.vector = vector ∧ ack.timestamp = net.now (c.surveying net key payload replicas s).2 := by
  rw [write_eq hreplicas hvector] at hack
  dsimp only at hack
  split at hack
  · cases hack
  · cases hack
    exact ⟨rfl, rfl⟩

theorem le_context_of_gathered {r : Read} {u : Version}
    (hreplicas : c.ring.replicas key c.quorum.n = .ok replicas) (hread : (c.read net key s).1 = .ok r)
    (hu : u ∈ (c.gathering net key replicas s).versions) : u.vector ≤ r.context := by
  obtain ⟨replicas', hreplicas', -, hresolve⟩ := read_eq_ok hread
  obtain rfl : replicas = replicas' := Except.ok.inj (hreplicas.symm.trans hreplicas')
  exact Version.le_context_of_covered ⟨u, hu, u.vector.le_refl⟩ hresolve

end Coordinator

theorem write_supersedes {σ : Type} (net : Network σ) (c : Coordinator) (key : Key) (payload : Payload)
    (context : VersionVector) (s : σ) {replicas : List NodeId}
    (hreplicas : c.ring.replicas key c.quorum.n = .ok replicas)
    (hcounter : (((Version.mergedVector (c.surveying net key payload replicas s).1.versions).merge
      context).get c.id).toNat < UInt64.size - 1) :
    let gathered := (c.surveying net key payload replicas s).1.versions
    ∃ vector timestamp, let v := payload.version vector timestamp
      (∀ ack, (c.write net key payload context s).1 = .ok ack →
        ack.vector = vector ∧ ack.timestamp = timestamp) ∧
      (∀ n ∈ replicas, ∃ accepted, ⟨n, .put key v, accepted⟩ ∈ c.writeCalls net key payload context s) ∧
      (∀ call ∈ c.writeCalls net key payload context s,
        call.request = .put key v ∨ ∃ target, call.request = .putHinted target key v) ∧
      vector.compare context = .dominates ∧
      (∀ u ∈ gathered, vector.compare u.vector = .dominates) ∧
      ∀ (p : Placement) (self : NodeId) (now : UInt64) (r : Replica),
        (r.store.held key).Pairwise (fun u w => u.vector.compare w.vector = .concurrent) →
        let taken := r.handle p self now (.put key v)
        (taken.1 = .ok .ack →
          (∀ u ∈ r.store.held key, u.vector ≤ (Version.mergedVector gathered).merge context) →
          taken.2.store.held key = [v]) ∧
        (∀ u ∈ r.store.held key, vector.compare u.vector ≠ .dominates →
          u ∈ taken.2.store.held key ∧
            ∀ target, u ∈ (r.handle p self now (.putHinted target key v)).2.store.held key) ∧
        ∀ {τ : Type} (net' : Network τ) (reader : Coordinator) (t : τ) (others : List NodeId) (read : Read),
          reader.ring.replicas key reader.quorum.n = .ok others →
          (reader.read net' key t).1 = .ok read → context = read.context → taken.1 = .ok .ack →
          (∀ u ∈ r.store.held key,
            u ∈ (reader.gathering net' key others t).versions ∨ u ∈ gathered) →
          taken.2.store.held key = [v] := by
  intro gathered
  obtain ⟨vector, hvector⟩ := Coordinator.exists_stamp? hcounter
  have hraised := VersionVector.increment?_dominates hvector
  obtain ⟨hgathered, hcontext⟩ := Coordinator.stamp?_dominates hvector
  refine ⟨vector, net.now (c.surveying net key payload replicas s).2,
    fun ack => Coordinator.ack_of_write hreplicas hvector,
    (Coordinator.writeCalls_bring hreplicas hvector).1, (Coordinator.writeCalls_bring hreplicas hvector).2,
    hcontext,
    fun u hu => hgathered u.vector ⟨u, hu, u.vector.le_refl⟩, ?_⟩
  have hv := payload.vector_version vector (net.now (c.surveying net key payload replicas s).2)
  generalize payload.version vector (net.now (c.surveying net key payload replicas s).2) = v at hv
  subst hv
  intro p self now r hheld
  rw [← Version.pairwise_concurrent_iff] at hheld
  refine ⟨fun hok hbelow => ?_, fun u hu hkept => ⟨Replica.kept_of_put hheld hu hkept, fun _ => hu⟩, ?_⟩
  · exact Replica.held_of_put_accepted hok fun u hu => VersionVector.dominates_of_le (hbelow u hu) hraised
  · intro τ net' reader t others read hothers hread hsame hok hfrom
    refine Replica.held_of_put_accepted hok fun u hu => ?_
    rcases hfrom u hu with hu | hu
    · refine VersionVector.dominates_of_le ?_ hcontext
      rw [hsame]
      exact Coordinator.le_context_of_gathered hothers hread hu
    · exact hgathered u.vector ⟨u, hu, u.vector.le_refl⟩

namespace Rivalry

def ours : Version := .live [1] (.ofEntries [("A", 1)]) 0

def theirs : Version := .live [2] (.ofEntries [("B", 1)]) 0

def stray : Version := .live [3] (.ofEntries [("C", 1)]) 0

def holding (vs : List Version) : Replica := (Replica.volatile.merge "k" vs).2

def ring : Ring := Ring.ofNodes 1 ["A", "B", "C"]

def coordinator : Coordinator := ⟨"A", ⟨3, 2, 2, 5, 5, .disabled, .siblings, false⟩, ring⟩

def cluster : Cluster :=
  .ofReplicas ⟨ring, 3⟩ 1 0
    (.ofList [("A", holding [ours]), ("B", holding [theirs]), ("C", holding [ours, theirs])])

theorem deletion_resolves_conflict :
    (coordinator.read Cluster.network "k" cluster).1 =
      .ok (.conflict [ours, theirs] (.ofEntries [("A", 1), ("B", 1)])) ∧
    let v : Version := .deletion (.ofEntries [("A", 2), ("B", 1)]) 0
    (coordinator.write Cluster.network "k" .deletion (.ofEntries [("A", 1), ("B", 1)]) cluster).1 =
      .ok ⟨v.vector, v.timestamp, 2, 0⟩ ∧
    ((holding [ours, theirs]).handle cluster.placement "C" 0 (.put "k" v)).2.store.held "k" = [v] ∧
    stray ∈ ((holding [stray, ours]).handle cluster.placement "C" 0 (.put "k" v)).2.store.held "k" := by
  have hread : (coordinator.read Cluster.network "k" cluster).1 =
      .ok (.conflict [ours, theirs] (.ofEntries [("A", 1), ("B", 1)])) := by decide +kernel
  have hwrite : (coordinator.write Cluster.network "k" .deletion (.ofEntries [("A", 1), ("B", 1)])
      cluster).1 = .ok ⟨.ofEntries [("A", 2), ("B", 1)], 0, 2, 0⟩ := by decide +kernel
  have hreplicas : coordinator.ring.replicas "k" coordinator.quorum.n = .ok ["C", "B", "A"] := by
    decide +kernel
  obtain ⟨vector, timestamp, hack, -, -, -, -, hput⟩ := write_supersedes Cluster.network coordinator "k"
    .deletion (.ofEntries [("A", 1), ("B", 1)]) cluster hreplicas (by decide +kernel)
  obtain ⟨rfl, rfl⟩ := hack _ hwrite
  refine ⟨hread, hwrite, ?_, ?_⟩
  · exact (hput cluster.placement "C" 0 (holding [ours, theirs]) (by decide +kernel)).2.2
      Cluster.network coordinator cluster _ _ hreplicas hread rfl (by decide +kernel) (by decide +kernel)
  · exact ((hput cluster.placement "C" 0 (holding [stray, ours]) (by decide +kernel)).2.1 stray
      (by decide +kernel) (by decide +kernel)).1

end Rivalry

end QuorumStore
