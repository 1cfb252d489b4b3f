import QuorumStore.Proofs.HintKeeping
import QuorumStore.Proofs.Operations
import QuorumStore.Proofs.RepairPass
import QuorumStore.Proofs.Staleness

namespace QuorumStore

def VersionVector.Positive (v : VersionVector) : Prop := ∀ e ∈ v.entries, e.2 ≠ 0

instance (v : VersionVector) : Decidable v.Positive :=
  inferInstanceAs (Decidable (∀ e ∈ v.entries, e.2 ≠ 0))

theorem VersionVector.Positive.get? {v : VersionVector} (h : v.Positive) {n : NodeId} {k : UInt64}
    (hn : v.counters.get? n = some k) : k ≠ 0 :=
  h (n, k) (SortedMap.mem_entries_iff.mpr hn)

theorem VersionVector.Positive.eq_of_le {v w : VersionVector} (hv : v.Positive) (hw : w.Positive)
    (h : v ≤ w) (h' : w ≤ v) : v = w := by
  refine ext_counters fun n => ?_
  have hn : v.get n = w.get n := UInt64.le_antisymm (h n) (h' n)
  simp only [VersionVector.get] at hn
  cases hvn : v.counters.get? n with
  | none =>
    cases hwn : w.counters.get? n with
    | none => rfl
    | some k =>
      rw [hvn, hwn] at hn
      exact absurd hn.symm (hw.get? hwn)
  | some k =>
    cases hwn : w.counters.get? n with
    | none =>
      rw [hvn, hwn] at hn
      exact absurd hn (hv.get? hvn)
    | some k' =>
      rw [hvn, hwn] at hn
      exact congrArg some hn

namespace Version

instance (v w : Version) : Decidable (Concurrent v w) :=
  inferInstanceAs (Decidable (¬ v.vector ≤ w.vector ∧ ¬ w.vector ≤ v.vector))

variable {held canonical seen reconciled all : List Version}

theorem covered_of_not_differs (h : differs held canonical = false) {w : VersionVector}
    (hw : Covered canonical w) : Covered held w := by
  obtain ⟨v, hv, hwv⟩ := hw
  obtain ⟨u, hu, huv⟩ := (differs_eq_false_iff.mp h).2 v hv
  exact ⟨u, hu, huv ▸ hwv⟩

theorem exists_vector_eq (happart : canonical.Pairwise Concurrent)
    (hpositive : ∀ v ∈ held ++ canonical, v.vector.Positive)
    (hcovered : ∀ w, Covered held w ↔ Covered canonical w) {v : Version} (hv : v ∈ canonical) :
    ∃ w ∈ held, w.vector = v.vector := by
  obtain ⟨w, hw, hvw⟩ := (hcovered v.vector).mpr ⟨v, hv, v.vector.le_refl⟩
  obtain ⟨u, hu, hwu⟩ := (hcovered w.vector).mp ⟨w, hw, w.vector.le_refl⟩
  have huv : u = v := by
    by_contra hne
    exact (happart.forall hu hv hne).2 (VersionVector.le_trans hvw hwu)
  subst huv
  exact ⟨w, hw, (hpositive w (List.mem_append_left _ hw)).eq_of_le
    (hpositive u (List.mem_append_right _ hv)) hwu hvw⟩

theorem not_differs_of_covered (hheld : held.Pairwise Concurrent)
    (hcanonical : canonical.Pairwise Concurrent)
    (hpositive : ∀ v ∈ held ++ canonical, v.vector.Positive)
    (hcovered : ∀ w, Covered held w ↔ Covered canonical w) : differs held canonical = false := by
  have hpositive' : ∀ v ∈ canonical ++ held, v.vector.Positive := fun v hv =>
    hpositive v (List.mem_append.mpr (List.mem_append.mp hv).symm)
  have hperm : (held.map vector).Perm (canonical.map vector) := by
    apply (List.perm_ext_iff_of_nodup (nodup_vectors hheld) (nodup_vectors hcanonical)).mpr
    intro w
    simp only [List.mem_map]
    constructor
    · rintro ⟨v, hv, rfl⟩
      exact exists_vector_eq hheld hpositive' (fun w => (hcovered w).symm) hv
    · rintro ⟨v, hv, rfl⟩
      exact exists_vector_eq hcanonical hpositive hcovered hv
  exact not_differs_of_perm_vectors hperm

end Version

namespace Replica

variable {r r' : Replica} {keys : List Key} {key : Key} {all seen seen' reconciled : List Version}

def Positive (r : Replica) : Prop :=
  ∀ key, ∀ v ∈ r.store.held key ++ r.hints.hinted key, v.vector.Positive

theorem covered_read (h : r.read key = .ok seen) {w : VersionVector} :
    Version.Covered seen w ↔
      Version.Covered (r.store.held key) w ∨ Version.Covered (r.hints.hinted key) w := by
  simp [(read_eq_ok_iff.mp h).2]

theorem mem_of_mem_read (h : r.read key = .ok seen) {v : Version} (hv : v ∈ seen) :
    v ∈ r.store.held key ++ r.hints.hinted key :=
  Version.mem_of_mem_reconcile ((read_eq_ok_iff.mp h).2 ▸ hv)

theorem pairwise_read (h : r.read key = .ok seen) : seen.Pairwise Version.Concurrent :=
  (read_eq_ok_iff.mp h).2 ▸ Version.pairwise_reconcile _

theorem mem_held_mend (hkey : key ∉ r.store.damaged) {v : Version}
    (hv : v ∈ (r.mend key seen reconciled).store.held key) :
    v ∈ r.store.held key ∨ v ∈ reconciled := by
  rw [held_mend hkey] at hv
  split at hv
  · exact List.mem_append.mp (Version.mem_of_mem_reconcile hv)
  · exact .inl hv

section

variable (hin : Within keys r r') (hread : r.read key = .ok seen) (hread' : r'.read key = .ok seen')
  (hheld : r'.store.held key = (r.mend key seen reconciled).store.held key)

include hin hread hread' hheld

theorem covered_read_mended (hbelow : ∀ w, Version.Covered seen w → Version.Covered reconciled w)
    (w : VersionVector) : Version.Covered seen' w ↔ Version.Covered reconciled w := by
  have hseen := covered_read hread (w := w)
  rw [covered_read hread', hin.hints, hheld, held_mend (read_eq_ok_iff.mp hread).1]
  split
  · have := hbelow w
    grind
  · rename_i hdiffers
    rw [← hseen]
    exact ⟨hbelow w, Version.covered_of_not_differs (Bool.not_eq_true _ ▸ hdiffers)⟩

theorem positive_read_mended (hr : r.Positive) (hpositive : ∀ v ∈ reconciled, v.vector.Positive) :
    ∀ v ∈ seen', v.vector.Positive := by
  intro v hv
  have hmem := mem_of_mem_read hread' hv
  rw [hin.hints, hheld] at hmem
  rcases List.mem_append.mp hmem with hmem | hmem
  · rcases mem_held_mend (read_eq_ok_iff.mp hread).1 hmem with hmem | hmem
    · exact hr key v (List.mem_append_left _ hmem)
    · exact hpositive v hmem
  · exact hr key v (List.mem_append_right _ hmem)

end

theorem summary_mend (hread : r.read key = .ok seen) (hunhinted : r.hints.hinted key = [])
    (happart : (r.store.held key).Pairwise Version.Concurrent)
    (hamong : ∀ v ∈ r.store.held key, v ∈ all) (hreconciled : Version.Summary all reconciled) :
    Version.Summary all ((r.mend key seen reconciled).store.held key) := by
  rw [held_mend (read_eq_ok_iff.mp hread).1]
  split
  · refine ⟨fun v hv => ?_, Version.pairwise_reconcile _, fun v hv => ?_⟩
    · exact (List.mem_append.mp (Version.mem_of_mem_reconcile hv)).elim (hamong v) (hreconciled.among v)
    · simp [hreconciled.covers v hv]
  · rename_i hdiffers
    refine ⟨hamong, happart, fun v hv => ?_⟩
    have hseen := Version.covered_of_not_differs (Bool.not_eq_true _ ▸ hdiffers) (hreconciled.covers v hv)
    rw [covered_read hread, hunhinted] at hseen
    exact hseen.resolve_right fun ⟨_, hmem, _⟩ => absurd hmem List.not_mem_nil

end Replica

namespace Cluster

variable {c c' c'' : Cluster} {a b : NodeId} {key : Key} {keys : List Key} {report report' : RepairReport}
  {depth : Nat}

theorem Passed.alike {c₁ c₂ : Cluster} (h : Passed a b keys c₁ c₂) (h₁ : c.Alike c₁) (h₂ : c₂.Alike c') :
    Passed a b keys c c' := by
  obtain ⟨hnetwork, hothers, hwithin, hpopulated, hmended⟩ := h
  simp only [Mended, ← h₂.replicas, h₁.replicas] at hothers hwithin hpopulated hmended
  exact ⟨h₁.network.trans (hnetwork.trans h₂.network), hothers, hwithin, hpopulated, hmended⟩

theorem syncPair_passed (h : Repair.syncPair network depth a b c = (.ok report, c')) :
    ∃ keys, c.Compared depth a b keys ∧ Passed a b keys c c' := by
  obtain ⟨keys, start, c₁, c₂, hcompared, -, -, h₁, hmend, h₂⟩ := syncPair_eq_ok h
  refine ⟨keys, hcompared, ?_⟩
  by_cases hkeys : keys = []
  · subst hkeys
    cases hmend
    exact .nil a b (h₁.trans h₂)
  · exact (passed_mendKeys (hcompared.apart hkeys) hcompared.nodup hmend).alike h₁ h₂

theorem settled_of_mended (hA : (c.replica a).Positive) (hB : (c.replica b).Positive)
    (hpassed : Passed a b keys c c') (hkey : key ∈ keys) : Settled a b c' key := by
  obtain ⟨seenA, seenB, hreadA, hreadB, hheldA, hheldB⟩ := hpassed.mended key hkey
  intro seenA' seenB' hreadA' hreadB'
  generalize hrec : Version.reconcile (seenA ++ seenB) = reconciled at hheldA hheldB
  have hcovered : ∀ w, Version.Covered reconciled w ↔
      Version.Covered seenA w ∨ Version.Covered seenB w := by
    intro w
    simp [← hrec]
  have hA' := Replica.covered_read_mended (hpassed.within a) hreadA hreadA' hheldA
    fun w hw => (hcovered w).mpr (.inl hw)
  have hB' := Replica.covered_read_mended (hpassed.within b) hreadB hreadB' hheldB
    fun w hw => (hcovered w).mpr (.inr hw)
  have hcovered' : ∀ w, Version.Covered (Version.reconcile (seenA' ++ seenB')) w ↔
      Version.Covered reconciled w := by
    intro w
    simp [hA', hB']
  have hpositive : ∀ v ∈ reconciled, v.vector.Positive := by
    intro v hv
    rw [← hrec] at hv
    rcases List.mem_append.mp (Version.mem_of_mem_reconcile hv) with hv | hv
    · exact hA key v (Replica.mem_of_mem_read hreadA hv)
    · exact hB key v (Replica.mem_of_mem_read hreadB hv)
  have hpositiveA := Replica.positive_read_mended (hpassed.within a) hreadA hreadA' hheldA hA hpositive
  have hpositiveB := Replica.positive_read_mended (hpassed.within b) hreadB hreadB' hheldB hB hpositive
  have hpositive' : ∀ v ∈ Version.reconcile (seenA' ++ seenB'), v.vector.Positive := fun v hv =>
    (List.mem_append.mp (Version.mem_of_mem_reconcile hv)).elim (hpositiveA v) (hpositiveB v)
  constructor
  · apply Version.not_differs_of_covered (Replica.pairwise_read hreadA') (Version.pairwise_reconcile _)
    · exact fun v hv => (List.mem_append.mp hv).elim (hpositiveA v) (hpositive' v)
    · exact fun w => (hA' w).trans (hcovered' w).symm
  · apply Version.not_differs_of_covered (Replica.pairwise_read hreadB') (Version.pairwise_reconcile _)
    · exact fun v hv => (List.mem_append.mp hv).elim (hpositiveB v) (hpositive' v)
    · exact fun w => (hB' w).trans (hcovered' w).symm

theorem Passed.differing (hpassed : Passed a b keys c c')
    (hcomplete : ∀ key, c.Differing a b key → key ∈ keys) (h : c'.Differing a b key) : key ∈ keys := by
  by_contra hkey
  apply hkey
  apply hcomplete
  rw [Differing, hpassed.network.placement] at h
  simpa only [Differing, Replica.fingerprint?, (hpassed.within a).elsewhere key hkey,
    (hpassed.within b).elsewhere key hkey] using h

theorem second_pass_idle (hA : (c.replica a).Positive) (hB : (c.replica b).Positive)
    (hhashes : c.Distinguishes depth a b)
    (h : Repair.syncPair network depth a b c = (.ok report, c'))
    (h' : Repair.syncPair network depth a b c' = (.ok report', c'')) :
    report'.keysRepaired = 0 ∧ report'.writes = 0 ∧ ∀ m, c''.replica m = c'.replica m := by
  obtain ⟨keys, hcompared, hpassed⟩ := syncPair_passed h
  obtain ⟨keys', start, c₁, c₂, hcompared', hrepaired, hwrites, h₁, hmend, h₂⟩ := syncPair_eq_ok h'
  -- What the second pass finds the first one has gone through: all else has the hash values it had.
  have hsettled : ∀ key ∈ keys', Settled a b c₁ key := by
    intro key hkey
    have hmem := hpassed.differing (hcompared.complete hhashes) (hcompared'.differing key hkey)
    rw [Settled, h₁.replicas, h₁.replicas]
    exact settled_of_mended hA hB hpassed hmem
  have hidle : report' = start ∧ c₁.Alike c₂ := by
    by_cases hkeys : keys' = []
    · subst hkeys
      cases hmend
      exact ⟨rfl, .refl _⟩
    · exact mendKeys_of_settled (hcompared'.apart hkeys) hsettled hmend
  refine ⟨hidle.1 ▸ hrepaired, hidle.1 ▸ hwrites, fun m => ?_⟩
  exact ((h₁.trans hidle.2).trans h₂).replicas m

end Cluster

theorem HintTable.mem_hinted {t : HintTable} {key : Key} {v : Version} (h : v ∈ t.hinted key) :
    ∃ k ∈ t.engine.table.keys, ∃ hint ∈ t.load? k, v ∈ hint.versions := by
  obtain ⟨k, hk, hv⟩ := List.mem_flatMap.mp (Version.mem_of_mem_reconcile h)
  split at hv
  · split at hv
    · rename_i hint hload
      exact ⟨k, hk, hint, hload, hv⟩
    · cases hv
  · cases hv

theorem Store.mem_values {s : Store} {key : Key} {vs : List Version}
    (h : s.engine.get? key = some vs) : vs ∈ s.engine.table.data.values :=
  List.mem_map.mpr ⟨(key, vs), SortedMap.mem_entries_iff.mpr h, rfl⟩

theorem Store.exists_values {s : Store} {key : Key} {v : Version} (h : v ∈ s.held key) :
    ∃ vs ∈ s.engine.table.data.values, v ∈ vs := by
  cases hget : s.engine.get? key with
  | none => simp [held, hget] at h
  | some vs => exact ⟨vs, mem_values hget, by simpa [held, hget] using h⟩

theorem Replica.positive_of_values {r : Replica}
    (hstored : ∀ vs ∈ r.store.engine.table.data.values, ∀ v ∈ vs, v.vector.Positive)
    (hhinted : ∀ k ∈ r.hints.engine.table.keys, ∀ hint ∈ r.hints.load? k, ∀ v ∈ hint.versions,
      v.vector.Positive) : r.Positive := by
  intro key v hv
  rcases List.mem_append.mp hv with hv | hv
  · obtain ⟨vs, hvs, hmem⟩ := Store.exists_values hv
    exact hstored vs hvs v hmem
  · obtain ⟨k, hk, hint, hload, hmem⟩ := HintTable.mem_hinted hv
    exact hhinted k hk hint hload v hmem

namespace Parted

def placement : Placement := ⟨Ring.ofNodes 1 ["A", "B", "C"], 2⟩

def ours : Version := .live [1] (.ofEntries [("A", 1)]) 10

def theirs : Version := .live [2] (.ofEntries [("C", 1)]) 20

def twin : Version := .live [3] (.ofEntries [("C", 1)]) 30

def hinted : Cluster :=
  .ofReplicas placement 1000 0 (.ofList
    [("A", ⟨.ofEngine (Engine.volatile.replace "m" [ours]), HintTable.volatile.record "B" "m" twin 0⟩),
     ("C", ⟨.ofEngine (Engine.volatile.replace "m" [theirs]), .volatile⟩)])

def passed : Cluster := (Repair.syncPair Cluster.network 1 "A" "C" hinted).2

theorem pair_of_ok {r : Except RepairError RepairReport × Cluster} {report : RepairReport}
    (h : r.1 = .ok report) : r = (.ok report, r.2) :=
  Prod.ext h rfl

theorem hinted_twin_left_alone :
    (Repair.syncPair Cluster.network 1 "A" "C" hinted).1 = .ok ⟨1, 1, 1, 1⟩ ∧
    (Repair.syncPair Cluster.network 1 "A" "C" passed).1 = .ok ⟨1, 1, 0, 0⟩ ∧
    ∀ m, (Repair.syncPair Cluster.network 1 "A" "C" passed).2.replica m = passed.replica m := by
  have hfirst : (Repair.syncPair Cluster.network 1 "A" "C" hinted).1 = .ok ⟨1, 1, 1, 1⟩ := by
    decide +kernel
  have hsecond : (Repair.syncPair Cluster.network 1 "A" "C" passed).1 = .ok ⟨1, 1, 0, 0⟩ := by
    decide +kernel
  have hhashes : hinted.Distinguishes 1 "A" "C" := ⟨by decide +kernel, by decide +kernel⟩
  have hA : (hinted.replica "A").Positive :=
    Replica.positive_of_values (by decide +kernel) (by decide +kernel)
  have hC : (hinted.replica "C").Positive :=
    Replica.positive_of_values (by decide +kernel) (by decide +kernel)
  exact ⟨hfirst, hsecond,
    (Cluster.second_pass_idle hA hC hhashes (pair_of_ok hfirst) (pair_of_ok hsecond)).2.2⟩

end Parted

end QuorumStore
