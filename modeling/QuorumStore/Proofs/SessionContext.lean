import QuorumStore.Proofs.ReadResolution
import QuorumStore.Proofs.SessionMemory

namespace QuorumStore

namespace Version

variable {policy : ConflictPolicy} {vs siblings : List Version} {context u : VersionVector}

theorem context_le_iff_of_conflict
    (h : (resolve policy (reconcile vs)).read = some (.conflict siblings context))
    (hsiblings : ∀ v ∈ siblings, v.vector ≤ u) :
    context ≤ u ↔ ∀ v ∈ vs, v.tombstone = true → v.vector ≤ u := by
  constructor
  · intro hle v hv _
    exact VersionVector.le_trans (le_context_of_covered ⟨v, hv, v.vector.le_refl⟩ h) hle
  · intro hdeleted
    rw [show context = mergedVector (reconcile vs) from resolve_context h]
    refine mergedVector_le fun v hv => ?_
    cases htombstone : v.tombstone with
    | true => exact hdeleted v (mem_of_mem_reconcile hv) htombstone
    | false =>
      refine hsiblings v ?_
      rcases read_resolve h with h | ⟨w, -, -, h⟩
      · rcases readSiblings_eq_some h with ⟨w, -, h⟩ | ⟨-, h⟩
        · cases h
        · cases h
          exact mem_shown.mpr ⟨hv, htombstone⟩
      · cases h

end Version

namespace Session

variable {σ : Type} {net : Network σ} {c : Coordinator} {key : Key} {session : Session}
  {policy : ConflictPolicy} {own : Version} {found r : Read} {s : σ} {u : VersionVector}

def joined (own : Version) (found : Read) : VersionVector :=
  (Version.mergedVector found.versions).merge own.vector

theorem le_joined_of_mem {v : Version} (hv : v ∈ found.versions) : v.vector ≤ joined own found :=
  VersionVector.le_trans (Version.le_mergedVector hv)
    ((Version.mergedVector found.versions).le_merge_left own.vector)

theorem own_le_joined (own : Version) (found : Read) : own.vector ≤ joined own found :=
  (Version.mergedVector found.versions).le_merge_right own.vector

theorem le_context_iff_of_complete (hmissed : ¬ own.vector ≤ found.context)
    (h : complete policy (some own) (some found) = some r) : u ≤ r.context ↔ u ≤ joined own found := by
  simp only [complete] at h
  rw [if_neg (by simpa [covers] using hmissed)] at h
  have hcontext := Version.resolve_context h
  have hown : Version.Covered (found.versions ++ [own]) own.vector :=
    ⟨own, by simp, own.vector.le_refl⟩
  have hbelow : r.context ≤ joined own found := by
    rw [hcontext]
    refine Version.mergedVector_le fun v hv => ?_
    rcases List.mem_append.mp (Version.mem_of_mem_reconcile hv) with hv | hv
    · exact le_joined_of_mem hv
    · rw [List.mem_singleton.mp hv]
      exact own_le_joined own found
  have habove : joined own found ≤ r.context := by
    refine VersionVector.merge_le (Version.mergedVector_le fun v hv => ?_) ?_
    · exact Version.le_context_of_covered ⟨v, List.mem_append_left _ hv, v.vector.le_refl⟩ h
    · exact Version.le_context_of_covered hown h
  exact ⟨fun hu => VersionVector.le_trans hu hbelow, fun hu => VersionVector.le_trans hu habove⟩

theorem context_le_of_complete_value {v : Version}
    (h : complete policy (some own) (some (.value v)) = some r) : v.vector ≤ r.context := by
  by_cases hcovered : own.vector ≤ v.vector
  · rw [complete_of_covers hcovered] at h
    cases h
    exact v.vector.le_refl
  · exact (le_context_iff_of_complete hcovered h).mpr (le_joined_of_mem (List.mem_singleton_self v))

theorem context_le_iff_of_complete {gathered : List Version} {last : Option Version}
    (hread : (Version.resolve policy (Version.reconcile gathered)).read = some found)
    (h : complete policy last (some found) = some r) :
    found.context ≤ r.context ↔ (found.isConflict = true → ∀ own, last = some own →
      ¬ own.vector ≤ found.context → ∀ v ∈ gathered, v.tombstone = true → v.vector ≤ joined own found) := by
  cases last with
  | none =>
    cases h
    exact ⟨fun _ _ _ hown => (nomatch hown), fun _ => found.context.le_refl⟩
  | some own =>
    by_cases hcovered : own.vector ≤ found.context
    · rw [complete_of_covers hcovered] at h
      cases h
      refine ⟨fun _ _ w hw hmissed => ?_, fun _ => found.context.le_refl⟩
      cases hw
      exact absurd hcovered hmissed
    · cases found with
      | value v => exact ⟨fun _ hconflict => (nomatch hconflict), fun _ => context_le_of_complete_value h⟩
      | conflict siblings context =>
        have hforgotten : context ≤ joined own (.conflict siblings context) ↔
            ∀ v ∈ gathered, v.tombstone = true → v.vector ≤ joined own (.conflict siblings context) :=
          Version.context_le_iff_of_conflict hread fun v hv => le_joined_of_mem hv
        rw [le_context_iff_of_complete hcovered h]
        refine hforgotten.trans ⟨fun hbelow _ w hw _ => ?_, fun hbelow => hbelow rfl own rfl hcovered⟩
        cases hw
        exact hbelow

def after (net : Network σ) (c : Coordinator) (session : Session) (calls : List (Operation × σ)) : Session :=
  (calls.foldl (Journal.add net c) ⟨session, []⟩).session

theorem Remembers.after {v : VersionVector} (h : session.Remembers key v) (net : Network σ) (c : Coordinator)
    (calls : List (Operation × σ)) : (session.after net c calls).Remembers key v :=
  Journal.foldl_add (P := fun j => j.session.Remembers key v) (fun hstep h => hstep.remembers h) net c calls h

theorem write_dominates {v : VersionVector} (h : session.Remembers key v) {payload : Payload} {ack : WriteAck}
    (hwrite : (session.write net c key payload s).1 = .ok ack) : ack.vector.compare v = .dominates := by
  obtain ⟨seen, hseen, hle⟩ := h
  unfold write at hwrite
  rw [hseen, Option.getD_some] at hwrite
  split at hwrite
  · cases hwrite
  · rename_i ack' s' hack
    cases hwrite
    obtain ⟨replicas, -, -, hstamp, -⟩ := Coordinator.write_eq_ok hack
    exact VersionVector.dominates_of_le hle (Coordinator.stamp?_dominates hstamp).2

theorem read_eq_ok (h : (session.read net c key s).1 = .ok r) :
    ∃ found, (c.read net key s).1 = shown found ∧
      complete c.quorum.policy (session.written.get? key) found = some r ∧
      (session.read net c key s).2.1 = session.observe key r.context := by
  rcases session.read_cases net c key s with ⟨e, s₁, -, -, heq⟩ | ⟨found, s₁, hread, heq⟩
  · rw [heq] at h
    cases h
  · rw [heq] at h ⊢
    cases hcomplete : complete c.quorum.policy (session.written.get? key) found with
    | none =>
      rw [hcomplete] at h
      cases h
    | some r' =>
      rw [hcomplete] at h
      cases h
      exact ⟨found, congrArg Prod.fst hread, hcomplete, rfl⟩

end Session

open Session

theorem session_context_kept_iff {σ : Type} {net : Network σ} {c : Coordinator} {key : Key}
    {session : Session} {s : σ} {r : Read} (h : (session.read net c key s).1 = .ok r) :
    let next := (session.read net c key s).2.1
    (∀ own, session.written.get? key = some own → own.vector ≤ r.context) ∧
    (∀ calls payload s₁ ack, ((next.after net c calls).write net c key payload s₁).1 = .ok ack →
      ack.vector.compare r.context = .dominates) ∧
    ∀ found, (c.read net key s).1 = .ok found →
      ∃ replicas, c.ring.replicas key c.quorum.n = .ok replicas ∧
        let gathered := (c.gathering net key replicas s).versions
        (found.context ≤ r.context ↔ found.isConflict = true → ∀ own, session.written.get? key = some own →
          ¬ own.vector ≤ found.context → ∀ v ∈ gathered, v.tombstone = true → v.vector ≤ joined own found) ∧
        (found.context ≤ r.context → ∀ calls payload s₁ ack,
          ((next.after net c calls).write net c key payload s₁).1 = .ok ack →
            ∀ v ∈ gathered, ack.vector.compare v.vector = .dominates) := by
  obtain ⟨found, hread, hcomplete, hnext⟩ := read_eq_ok h
  rw [hnext]
  have hlater : ∀ v, v ≤ r.context → ∀ calls payload s₁ ack,
      (((session.observe key r.context).after net c calls).write net c key payload s₁).1 = .ok ack →
        ack.vector.compare v = .dominates := by
    intro v hv calls payload s₁ ack hwrite
    obtain ⟨seen, hseen, hle⟩ := session.remembers_observe key r.context
    exact write_dominates (Remembers.after ⟨seen, hseen, VersionVector.le_trans hv hle⟩ net c calls) hwrite
  refine ⟨fun own hown => ?_, hlater r.context r.context.le_refl, fun found' hfound => ?_⟩
  · rw [hown] at hcomplete
    exact le_context_of_complete hcomplete
  · obtain rfl : found = some found' := by
      cases found with
      | none => rw [hread] at hfound; cases hfound
      | some r' => rw [hread] at hfound; cases hfound; rfl
    obtain ⟨replicas, hreplicas, -, hresolve⟩ := Coordinator.read_eq_ok hfound
    refine ⟨replicas, hreplicas, ?_, fun hkept calls payload s₁ ack hwrite v hv => ?_⟩
    · exact context_le_iff_of_complete hresolve hcomplete
    · have hle := Version.le_context_of_covered ⟨v, hv, v.vector.le_refl⟩ hresolve
      exact hlater v.vector (VersionVector.le_trans hle hkept) calls payload s₁ ack hwrite

namespace Absentee

def ring : Ring := Ring.ofNodes 1 ["A", "B", "C", "D"]

def coordinator (n : NodeId) : Coordinator :=
  ⟨n, ⟨4, 1, 3, 5, 5, .disabled, .siblings, false⟩, ring⟩

def staffed (ns : List NodeId) (c : Cluster) : Cluster :=
  ["A", "B", "C", "D"].foldl (fun c n => c.alter n fun k => { k with down := decide (n ∉ ns) }) c

def start : Cluster := staffed ["A"] (.ofNodes ⟨ring, 4⟩ 1 0 ["A", "B", "C", "D"])

def taken (n : NodeId) (payload : Payload) (c : Cluster) : Cluster :=
  ((coordinator n).write Cluster.network "k" payload ∅ (staffed [n] c)).2

def deleted : Cluster :=
  staffed ["B", "C", "D"] (taken "D" .deletion (taken "B" (.value [2]) (taken "A" (.value [1]) start)))

def disputed : Cluster :=
  staffed ["B", "C", "D"] (taken "D" .deletion (taken "C" (.value [3]) (taken "B" (.value [2])
    (taken "A" (.value [1]) start))))

def session : Session :=
  (Journal.ofCalls Cluster.network (coordinator "A") [(.write "k" (.value [1]), start)]).session

theorem value_keeps_deletion :
    ((coordinator "A").read Cluster.network "k" deleted).1 =
      .ok (.value (.live [2] (.ofEntries [("B", 1), ("D", 1)]) 0)) ∧
    (session.read Cluster.network (coordinator "A") "k" deleted).1 =
      .ok (.conflict [.live [2] (.ofEntries [("B", 1), ("D", 1)]) 0, .live [1] (.ofEntries [("A", 1)]) 0]
        (.ofEntries [("A", 1), ("B", 1), ("D", 1)])) ∧
    VersionVector.ofEntries [("B", 1), ("D", 1)] ≤ .ofEntries [("A", 1), ("B", 1), ("D", 1)] := by
  have hfound : ((coordinator "A").read Cluster.network "k" deleted).1 =
      .ok (.value (.live [2] (.ofEntries [("B", 1), ("D", 1)]) 0)) := by decide +kernel
  have hread : (session.read Cluster.network (coordinator "A") "k" deleted).1 =
      .ok (.conflict [.live [2] (.ofEntries [("B", 1), ("D", 1)]) 0, .live [1] (.ofEntries [("A", 1)]) 0]
        (.ofEntries [("A", 1), ("B", 1), ("D", 1)])) := by decide +kernel
  obtain ⟨-, -, hkept⟩ := session_context_kept_iff hread
  obtain ⟨replicas, -, hcontext, -⟩ := hkept _ hfound
  exact ⟨hfound, hread, hcontext.mpr fun hconflict => nomatch hconflict⟩

theorem siblings_forget_deletion :
    let own := session.read Cluster.network (coordinator "A") "k" disputed
    ((coordinator "A").read Cluster.network "k" disputed).1 =
      .ok (.conflict [.live [3] (.ofEntries [("C", 1)]) 0, .live [2] (.ofEntries [("B", 1)]) 0]
        (.ofEntries [("B", 1), ("C", 1), ("D", 1)])) ∧
    own.1 =
      .ok (.conflict [.live [3] (.ofEntries [("C", 1)]) 0, .live [2] (.ofEntries [("B", 1)]) 0,
          .live [1] (.ofEntries [("A", 1)]) 0]
        (.ofEntries [("A", 1), ("B", 1), ("C", 1)])) ∧
    ¬ VersionVector.ofEntries [("B", 1), ("C", 1), ("D", 1)] ≤ .ofEntries [("A", 1), ("B", 1), ("C", 1)] ∧
    (own.2.1.write Cluster.network (coordinator "A") "k" (.value [4]) (staffed ["B", "C"] disputed)).1 =
      .ok ⟨.ofEntries [("A", 2), ("B", 1), ("C", 1)], 0, 1, 0⟩ ∧
    (VersionVector.ofEntries [("A", 2), ("B", 1), ("C", 1)]).compare (.ofEntries [("D", 1)]) = .concurrent := by
  decide +kernel

end Absentee

end QuorumStore
