import QuorumStore.Cluster
import QuorumStore.Proofs.LatestVersion
import QuorumStore.Proofs.Operations
import QuorumStore.Proofs.SessionHistory

namespace QuorumStore

namespace Version

variable {policy : ConflictPolicy} {vs : List Version} {r : Read} {v : Version}

theorem readSiblings_live (h : readSiblings vs = some r) : ∀ v ∈ r.versions, v.tombstone = false := by
  intro v hv
  rcases readSiblings_eq_some h with ⟨w, hw, rfl⟩ | ⟨-, rfl⟩
  · obtain rfl := List.mem_singleton.mp hv
    have hmem : w ∈ shown vs := hw ▸ List.mem_singleton_self w
    exact (mem_shown.mp hmem).2
  · exact (mem_shown.mp hv).2

theorem lastWriter?_live {w : Version} (h : lastWriter? vs = some w)
    (hlive : ∀ v ∈ vs, v.tombstone = false) : w.tombstone = false := by
  obtain ⟨v, hv, rfl⟩ := Option.map_eq_some_iff.mp h
  exact hlive v (latest?_spec hv).1

theorem resolve_live (h : (resolve policy vs).read = some r) :
    ∀ v ∈ r.versions, v.tombstone = false := by
  rcases read_resolve h with h | ⟨w, -, hlive, rfl⟩
  · exact readSiblings_live h
  · intro v hv
    obtain rfl := List.mem_singleton.mp hv
    exact hlive

theorem exists_readSiblings (hne : vs ≠ []) (hlive : ∀ v ∈ vs, v.tombstone = false) :
    ∃ r, readSiblings vs = some r := by
  obtain ⟨v, hv⟩ := List.exists_mem_of_ne_nil vs hne
  have hshown : shown vs ≠ [] := List.ne_nil_of_mem (mem_shown.mpr ⟨hv, hlive v hv⟩)
  exact Option.ne_none_iff_exists'.mp (mt readSiblings_eq_none_iff.mp hshown)

theorem exists_read_of_live (hne : vs ≠ []) (hlive : ∀ v ∈ vs, v.tombstone = false) :
    ∃ r, (resolve policy vs).read = some r := by
  rcases resolve_cases policy vs with ⟨hall, -⟩ | ⟨-, w, hw, hlast⟩
  · rw [hall]
    exact exists_readSiblings hne hlive
  · rw [hlast, lastWriter?_live hw hlive]
    exact ⟨_, rfl⟩

end Version

namespace Session

variable {σ : Type} {net : Network σ} {c : Coordinator} {key : Key} {session : Session}
  {policy : ConflictPolicy} {own : Version} {found : Option Read} {r : Read}

theorem covers_iff {v : VersionVector} : covers found v = true ↔ ∃ r, found = some r ∧ v ≤ r.context := by
  cases found <;> simp [covers]

theorem le_context_of_complete (h : complete policy (some own) found = some r) :
    own.vector ≤ r.context := by
  simp only [complete] at h
  split at h
  · rename_i hcovers
    obtain ⟨r', rfl, hle⟩ := covers_iff.mp hcovers
    cases h
    exact hle
  · refine Version.le_context_of_covered ⟨own, ?_, own.vector.le_refl⟩ h
    exact List.mem_append_right _ (List.mem_singleton_self own)

theorem exists_complete (hown : own.tombstone = false)
    (hfound : ∀ r, found = some r → ∀ v ∈ r.versions, v.tombstone = false) :
    ∃ r, complete policy (some own) found = some r := by
  simp only [complete]
  split
  · rename_i hcovers
    obtain ⟨r, hr, -⟩ := covers_iff.mp hcovers
    exact ⟨r, hr⟩
  · refine Version.exists_read_of_live ?_ fun v hv => ?_
    · exact Version.reconcile_ne_nil (List.mem_append_right _ (List.mem_singleton_self own))
    · rcases List.mem_append.mp (Version.mem_of_mem_reconcile hv) with hv | hv
      · cases found with
        | none => exact absurd hv List.not_mem_nil
        | some r => exact hfound r rfl v hv
      · rwa [List.mem_singleton.mp hv]

theorem complete_of_covers (h : own.vector ≤ r.context) :
    complete policy (some own) (some r) = some r := by
  simp only [complete]
  rw [if_pos (covers_iff.mpr ⟨r, rfl, h⟩)]

theorem complete_none (policy : ConflictPolicy) (own : Version) :
    complete policy (some own) none = if own.tombstone then none else some (.value own) := by
  simp only [complete]
  rw [if_neg (by simp [covers]), List.nil_append, Version.reconcile_singleton,
    Version.resolve_singleton]

@[simp] theorem vector_ownVersion (w : Payload × WriteAck) : (ownVersion w).vector = w.2.vector :=
  w.1.vector_version _ _

theorem tombstone_ownVersion (payload : Payload) (ack : WriteAck) :
    (ownVersion (payload, ack)).tombstone = true ↔ payload = .deletion := by
  cases payload <;> simp [ownVersion, Payload.version, Version.live, Version.deletion]

theorem read_live {r : Read} {s s' : σ} (h : c.read net key s = (.ok r, s')) :
    ∀ v ∈ r.versions, v.tombstone = false := by
  obtain ⟨replicas, -, -, hread⟩ := Coordinator.read_eq_ok (congrArg Prod.fst h)
  exact Version.resolve_live hread

theorem read_of_written {s : σ} (hown : session.written.get? key = some own)
    (habove : ∀ r, (c.read net key s).1 = .ok r → own.vector ≤ r.context) :
    (session.read net c key s).1 =
      if (c.read net key s).1 = .error .notFound ∧ own.tombstone = false then .ok (.value own)
      else (c.read net key s).1 := by
  rcases session.read_cases net c key s with ⟨e, s', hne, hread, heq⟩ | ⟨found, s', hread, heq⟩
  · rw [heq, hread, if_neg fun h => hne (Except.error.inj h.1)]
  · rw [heq, hread, hown]
    cases found with
    | some r =>
      rw [complete_of_covers (habove r (congrArg Prod.fst hread))]
      rfl
    | none =>
      rw [complete_none]
      cases own.tombstone <;> rfl

end Session

open Session

variable {σ : Type} {key : Key} {payload : Payload} {ack : WriteAck}

theorem session_reads_own_write (net : Network σ) (c : Coordinator) (calls : List (Operation × σ))
    (hlast : lastWrite? key (Journal.ofCalls net c calls).events = some (payload, ack)) (s : σ) :
    (∀ r, ((Journal.ofCalls net c calls).session.read net c key s).1 = .ok r →
        ack.vector ≤ r.context) ∧
      ∀ e, ((Journal.ofCalls net c calls).session.read net c key s).1 = .error e →
        (e ≠ .notFound ∧ (c.read net key s).1 = .error e) ∨ (e = .notFound ∧ payload = .deletion) := by
  have hown := get?_written net c calls key
  rw [hlast] at hown
  rcases (Journal.ofCalls net c calls).session.read_cases net c key s with
    ⟨e, s', hne, hread, heq⟩ | ⟨found, s', hread, heq⟩
  · rw [heq, hread]
    refine ⟨(fun r h => nomatch h), fun e' h => .inl ?_⟩
    obtain rfl := Except.error.inj h
    exact ⟨hne, rfl⟩
  · rw [heq, hown, Option.map_some]
    cases hcomplete : complete c.quorum.policy (some (ownVersion (payload, ack))) found with
    | some r =>
      refine ⟨fun r' h => ?_, fun e h => nomatch h⟩
      obtain rfl := Except.ok.inj h
      have hle := le_context_of_complete hcomplete
      rwa [vector_ownVersion] at hle
    | none =>
      refine ⟨(fun r h => nomatch h), fun e h => .inr ⟨(Except.error.inj h).symm, ?_⟩⟩
      refine (tombstone_ownVersion payload ack).mp ?_
      -- a live version would have been read
      by_contra hlive
      obtain ⟨r, hr⟩ : ∃ r, complete c.quorum.policy (some (ownVersion (payload, ack))) found = some r :=
        exists_complete (Bool.eq_false_iff.mpr hlive) fun r hr => read_live (hr ▸ hread)
      rw [hcomplete] at hr
      cases hr

namespace Client

def ring : Ring := Ring.ofNodes 1 ["A", "B", "C"]

def coordinator (n : NodeId) : Coordinator :=
  ⟨n, ⟨3, 1, 1, 5, 5, .disabled, .siblings, false⟩, ring⟩

def start : Cluster := .ofNodes ⟨ring, 3⟩ 1 0 ["A", "B", "C"]

def down (n : NodeId) (c : Cluster) : Cluster := c.alter n fun k => { k with down := true }

def up (n : NodeId) (c : Cluster) : Cluster := c.alter n fun k => { k with down := false }

def written (n : NodeId) (payload : Payload) (c : Cluster) : Cluster :=
  ((coordinator n).write Cluster.network "k" payload ∅ c).2

def lonely : List (Operation × Cluster) := [(.write "k" (.value [1]), down "B" (down "C" start))]

def missed : Cluster :=
  up "B" (up "C" (down "A" (written "A" (.value [1]) (down "B" (down "C" start)))))

theorem own_write_read_again :
    lastWrite? "k" (Journal.ofCalls Cluster.network (coordinator "A") lonely).events =
      some (.value [1], ⟨.ofEntries [("A", 1)], 0, 1, 0⟩) ∧
    ((coordinator "A").read Cluster.network "k" missed).1 = .error .notFound ∧
    ∃ r, ((Journal.ofCalls Cluster.network (coordinator "A") lonely).session.read Cluster.network
        (coordinator "A") "k" missed).1 = .ok r ∧
      VersionVector.ofEntries [("A", 1)] ≤ r.context := by
  have hlast : lastWrite? "k" (Journal.ofCalls Cluster.network (coordinator "A") lonely).events =
      some (.value [1], ⟨.ofEntries [("A", 1)], 0, 1, 0⟩) := by decide +kernel
  have hread : ((Journal.ofCalls Cluster.network (coordinator "A") lonely).session.read
      Cluster.network (coordinator "A") "k" missed).1 =
        .ok (.value (.live [1] (.ofEntries [("A", 1)]) 0)) := by decide +kernel
  exact ⟨hlast, by decide +kernel, _, hread, (session_reads_own_write Cluster.network
    (coordinator "A") lonely hlast missed).1 _ hread⟩

end Client

theorem session_read_eq_iff (net : Network σ) (c : Coordinator) (calls : List (Operation × σ))
    (hlast : lastWrite? key (Journal.ofCalls net c calls).events = some (payload, ack)) (s : σ)
    {replicas : List NodeId} (hreplicas : c.ring.replicas key c.quorum.n = .ok replicas)
    (hnewer : ∃ v ∈ (c.gathering net key replicas s).versions,
      v.vector.compare ack.vector = .dominates) :
    (((Journal.ofCalls net c calls).session.read net c key s).1 = (c.read net key s).1 ↔
      ¬ ((c.read net key s).1 = .error .notFound ∧ payload ≠ .deletion)) ∧
    ((c.read net key s).1 = .error .notFound → payload ≠ .deletion →
      ((Journal.ofCalls net c calls).session.read net c key s).1 =
        .ok (.value (payload.version ack.vector ack.timestamp))) := by
  have hown := get?_written net c calls key
  rw [hlast] at hown
  have hcovered : Version.Covered (c.gathering net key replicas s).versions ack.vector := by
    obtain ⟨v, hv, hdom⟩ := hnewer
    exact ⟨v, hv, (VersionVector.compare_eq_dominates_iff.mp hdom).1⟩
  have habove : ∀ r, (c.read net key s).1 = .ok r → (ownVersion (payload, ack)).vector ≤ r.context := by
    intro r hr
    obtain ⟨replicas', hreplicas', -, hresolve⟩ := Coordinator.read_eq_ok hr
    obtain rfl : replicas = replicas' := Except.ok.inj (hreplicas.symm.trans hreplicas')
    rw [vector_ownVersion]
    exact Version.le_context_of_covered hcovered hresolve
  have hlive : (ownVersion (payload, ack)).tombstone = false ↔ payload ≠ .deletion := by
    rw [← Bool.not_eq_true, tombstone_ownVersion]
  rw [read_of_written hown habove]
  simp only [hlive]
  by_cases hmissing : (c.read net key s).1 = .error .notFound ∧ payload ≠ .deletion
  · rw [if_pos hmissing]
    refine ⟨⟨fun h => ?_, fun h => absurd hmissing h⟩, fun _ _ => rfl⟩
    rw [hmissing.1] at h
    cases h
  · rw [if_neg hmissing]
    exact ⟨⟨fun _ => hmissing, fun _ => rfl⟩, fun h h' => absurd ⟨h, h'⟩ hmissing⟩

namespace Client

def alone : List (Operation × Cluster) := [(.write "k" (.value [1]), start)]

def replaced : Cluster := written "B" (.value [2]) (written "A" (.value [1]) start)

def deleted : Cluster := written "B" .deletion (written "A" (.value [1]) start)

theorem newer_value_read :
    ((Journal.ofCalls Cluster.network (coordinator "A") alone).session.read Cluster.network
        (coordinator "A") "k" replaced).1 =
      ((coordinator "A").read Cluster.network "k" replaced).1 := by
  have hlast : lastWrite? "k" (Journal.ofCalls Cluster.network (coordinator "A") alone).events =
      some (.value [1], ⟨.ofEntries [("A", 1)], 0, 1, 0⟩) := by decide +kernel
  have hreplicas : (coordinator "A").ring.replicas "k" (coordinator "A").quorum.n =
      .ok ["C", "B", "A"] := by decide +kernel
  have hnewer : ∃ v ∈ ((coordinator "A").gathering Cluster.network "k" ["C", "B", "A"]
      replaced).versions, v.vector.compare (.ofEntries [("A", 1)]) = .dominates := by decide +kernel
  exact (session_read_eq_iff Cluster.network (coordinator "A") alone hlast replaced hreplicas
    hnewer).1.mpr (by decide +kernel)

theorem deleted_value_read :
    lastWrite? "k" (Journal.ofCalls Cluster.network (coordinator "A") alone).events =
      some (.value [1], ⟨.ofEntries [("A", 1)], 0, 1, 0⟩) ∧
    (∃ v ∈ ((coordinator "A").gathering Cluster.network "k" ["C", "B", "A"] deleted).versions,
      v.vector.compare (.ofEntries [("A", 1)]) = .dominates) ∧
    ((coordinator "A").read Cluster.network "k" deleted).1 = .error .notFound ∧
    ((Journal.ofCalls Cluster.network (coordinator "A") alone).session.read Cluster.network
        (coordinator "A") "k" deleted).1 = .ok (.value (.live [1] (.ofEntries [("A", 1)]) 0)) := by
  decide +kernel

end Client

end QuorumStore
