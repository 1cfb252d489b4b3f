import QuorumStore.Proofs.RepairIdle

namespace QuorumStore

namespace Cluster

variable {c c' : Cluster} {a b : NodeId} {key : Key} {keys : List Key} {report : RepairReport} {depth : Nat}

structure Reconciled (a b : NodeId) (c : Cluster) : Prop where
  sets : ∀ n ∈ [a, b], ∀ key vs, (c.replica n).store.engine.get? key = some vs →
    vs ≠ [] ∧ vs.Pairwise Version.Concurrent
  identical : ∀ key, c.placement.shared a b key = true →
    ∀ v ∈ (c.replica a).store.held key ++ (c.replica b).store.held key,
      ∀ w ∈ (c.replica a).store.held key ++ (c.replica b).store.held key,
        v.vector.compare w.vector = .equal → v = w
  unhinted : ∀ n ∈ [a, b], ∀ key, c.placement.shared a b key = true →
    (c.replica n).hints.hinted key = []

theorem Reconciled.populated {n : NodeId} (h : c.Reconciled a b) (hn : n ∈ [a, b]) :
    (c.replica n).Populated :=
  fun key hget => (h.sets n hn key [] hget).1 rfl

theorem Reconciled.apart {n : NodeId} (h : c.Reconciled a b) (hn : n ∈ [a, b]) (key : Key) :
    ((c.replica n).store.held key).Pairwise Version.Concurrent := by
  cases hget : (c.replica n).store.engine.get? key with
  | none => simp [Store.held, hget]
  | some vs => simpa [Store.held, hget] using (h.sets n hn key vs hget).2

def TellsApart (a b : NodeId) (c : Cluster) : Prop :=
  ∀ key vs ws, c.placement.shared a b key = true →
    (c.replica a).store.engine.get? key = some vs → (c.replica b).store.engine.get? key = some ws →
      Version.setFingerprint vs = Version.setFingerprint ws → vs.Perm ws

theorem perm_of_not_differing (hhashes : c.TellsApart a b) (hkey : c.placement.shared a b key = true)
    (h : ¬ c.Differing a b key) :
    ((c.replica a).store.held key).Perm ((c.replica b).store.held key) := by
  simp only [Differing, Replica.fingerprint?, if_pos hkey, not_not] at h
  cases hA : (c.replica a).store.engine.get? key with
  | none =>
    cases hB : (c.replica b).store.engine.get? key with
    | none => simp [Store.held, hA, hB]
    | some ws => simp [hA, hB] at h
  | some vs =>
    cases hB : (c.replica b).store.engine.get? key with
    | none => simp [hA, hB] at h
    | some ws =>
      simp only [hA, hB, Option.map_some, Option.some.injEq] at h
      simpa [Store.held, hA, hB] using hhashes key vs ws hkey hA hB h

theorem not_differing_of_perm (hA : (c.replica a).Populated) (hB : (c.replica b).Populated)
    (h : c.placement.shared a b key = true →
      ((c.replica a).store.held key).Perm ((c.replica b).store.held key)) : ¬ c.Differing a b key := by
  simp only [Differing, not_not, Replica.fingerprint?]
  split
  · rename_i hkey
    have hperm := h hkey
    simp only [Store.held] at hperm
    cases hgetA : (c.replica a).store.engine.get? key with
    | none =>
      cases hgetB : (c.replica b).store.engine.get? key with
      | none => rfl
      | some ws =>
        have hnil : ws = [] := by simpa [hgetA, hgetB] using hperm.length_eq.symm
        exact absurd (hnil ▸ hgetB) (hB key)
    | some vs =>
      cases hgetB : (c.replica b).store.engine.get? key with
      | none =>
        have hnil : vs = [] := by simpa [hgetA, hgetB] using hperm.length_eq
        exact absurd (hnil ▸ hgetA) (hA key)
      | some ws =>
        rw [hgetA, hgetB] at hperm
        exact congrArg some (Version.setFingerprint_perm hperm)
  · rfl

theorem summary_of_passed (hreconciled : c.Reconciled a b) (htells : c.TellsApart a b)
    (hhashes : c.Distinguishes depth a b) (hcompared : c.Compared depth a b keys)
    (hpassed : Passed a b keys c c') (hkey : c.placement.shared a b key = true) :
    let all := (c.replica a).store.held key ++ (c.replica b).store.held key
    Version.Summary all ((c'.replica a).store.held key) ∧
      Version.Summary all ((c'.replica b).store.held key) := by
  intro all
  have hmemA : a ∈ [a, b] := by simp
  have hmemB : b ∈ [a, b] := by simp
  have happartA := hreconciled.apart hmemA key
  have happartB := hreconciled.apart hmemB key
  have hunhintedA := hreconciled.unhinted a hmemA key hkey
  have hunhintedB := hreconciled.unhinted b hmemB key hkey
  by_cases hmem : key ∈ keys
  · obtain ⟨seenA, seenB, hreadA, hreadB, hheldA, hheldB⟩ := hpassed.mended key hmem
    have hsummary : Version.Summary all (Version.reconcile (seenA ++ seenB)) := by
      refine ⟨fun v hv => ?_, Version.pairwise_reconcile _, fun v hv => ?_⟩
      · rcases List.mem_append.mp (Version.mem_of_mem_reconcile hv) with hv | hv
        · have hheld := Replica.mem_of_mem_read hreadA hv
          rw [hunhintedA, List.append_nil] at hheld
          exact List.mem_append_left _ hheld
        · have hheld := Replica.mem_of_mem_read hreadB hv
          rw [hunhintedB, List.append_nil] at hheld
          exact List.mem_append_right _ hheld
      · rw [Version.covered_reconcile, Version.covered_append, Replica.covered_read hreadA,
          Replica.covered_read hreadB]
        rcases List.mem_append.mp hv with hv | hv
        · exact .inl (.inl ⟨v, hv, v.vector.le_refl⟩)
        · exact .inr (.inl ⟨v, hv, v.vector.le_refl⟩)
    constructor
    · rw [hheldA]
      exact Replica.summary_mend hreadA hunhintedA happartA (fun v hv => List.mem_append_left _ hv) hsummary
    · rw [hheldB]
      exact Replica.summary_mend hreadB hunhintedB happartB (fun v hv => List.mem_append_right _ hv) hsummary
  · -- the pass has not touched the key, so the hash values were equal and the sets are the same
    have hperm := perm_of_not_differing htells hkey (mt (hcompared.complete hhashes key) hmem)
    rw [(hpassed.within a).held hmem, (hpassed.within b).held hmem]
    constructor
    · refine ⟨fun v hv => List.mem_append_left _ hv, happartA, fun v hv => ⟨v, ?_, v.vector.le_refl⟩⟩
      exact (List.mem_append.mp hv).elim id hperm.mem_iff.mpr
    · refine ⟨fun v hv => List.mem_append_right _ hv, happartB, fun v hv => ⟨v, ?_, v.vector.le_refl⟩⟩
      exact (List.mem_append.mp hv).elim hperm.mem_iff.mp id

theorem Passed.legible (hpassed : Passed a b keys c c') (hcompared : c.Compared depth a b keys) :
    (c'.replica a).Legible (c.placement.shared a b) ∧ (c'.replica b).Legible (c.placement.shared a b) := by
  have hlegible : ∀ n, (c.replica n).Legible (c.placement.shared a b) →
      (∀ key ∈ keys, key ∉ (c.replica n).store.damaged) →
      (c'.replica n).Legible (c.placement.shared a b) := by
    intro n hn hread key hkey hpass
    rw [(hpassed.within n).damaged]
    by_cases hmem : key ∈ keys
    · exact hread key hmem
    · refine hn key (SortedMap.mem_keys_iff.mpr ?_) hpass
      have hget := SortedMap.mem_keys_iff.mp hkey
      rwa [show (c'.replica n).store.engine.table.data.get? key = _ from
        (hpassed.within n).elsewhere key hmem] at hget
  constructor
  · refine hlegible a hcompared.legible.1 fun key hkey => ?_
    obtain ⟨seenA, seenB, hreadA, -⟩ := hpassed.mended key hkey
    exact (Replica.read_eq_ok_iff.mp hreadA).1
  · refine hlegible b hcompared.legible.2 fun key hkey => ?_
    obtain ⟨seenA, seenB, -, hreadB, -⟩ := hpassed.mended key hkey
    exact (Replica.read_eq_ok_iff.mp hreadB).1

theorem syncPair_of_same (hA : c.Hears a .digest) (hB : c.Hears b .digest)
    (hlegibleA : (c.replica a).Legible (c.placement.shared a b))
    (hlegibleB : (c.replica b).Legible (c.placement.shared a b))
    (hsame : ∀ key, ¬ c.Differing a b key) :
    ∃ c', Repair.syncPair network depth a b c = (.ok .none, c') := by
  have hshared : c.placement.shared b a = c.placement.shared a b :=
    funext fun key => c.placement.shared_comm b a key
  have hdigestA := Replica.digest_of_legible hlegibleA depth
  have hdigestB := Replica.digest_of_legible (hshared ▸ hlegibleB) depth
  have hentries : (c.replica b).digestEntries c.placement b a (min depth Digest.maxDepth) =
      (c.replica a).digestEntries c.placement a b (min depth Digest.maxDepth) := by
    simp only [Replica.digestEntries, hshared]
    rw [Replica.listing_congr fun key => not_not.mp (hsame key)]
  rw [hentries] at hdigestB
  have hcount : c.Alike (network.count .repairPasses 1 c) := .count c .repairPasses 1
  obtain ⟨cA, hcallA, halikeA⟩ := digest_of_hears (hA.sameNetwork hcount.network) hdigestA
  have halike := hcount.trans halikeA
  rw [← halike.replicas, ← halike.network.placement] at hdigestB
  obtain ⟨cB, hcallB, -⟩ := digest_of_hears (hB.sameNetwork halike.network) hdigestB
  refine ⟨cB, ?_⟩
  simp only [Repair.syncPair, hcallA, hcallB, halike.network.placement]
  rfl

theorem syncPair_converges (hreconciled : c.Reconciled a b) (htells : c.TellsApart a b)
    (hhashes : c.Distinguishes depth a b)
    (h : Repair.syncPair network depth a b c = (.ok report, c')) :
    (∀ key, c.placement.shared a b key = true →
      ((c'.replica a).store.held key).Perm ((c'.replica b).store.held key) ∧
      ∀ v, v ∈ (c'.replica a).store.held key ↔
        v ∈ Version.maximal ((c.replica a).store.held key ++ (c.replica b).store.held key)) ∧
    (∀ n key, c.placement.shared a b key = false →
      (c'.replica n).store.engine.get? key = (c.replica n).store.engine.get? key) ∧
    (∀ n, (c'.replica n).hints = (c.replica n).hints) ∧
    ∃ c'', Repair.syncPair network depth a b c' = (.ok .none, c'') := by
  obtain ⟨keys, hcompared, hpassed⟩ := syncPair_passed h
  have hconverged : ∀ key, c.placement.shared a b key = true →
      ((c'.replica a).store.held key).Perm ((c'.replica b).store.held key) ∧
      ∀ v, v ∈ (c'.replica a).store.held key ↔
        v ∈ Version.maximal ((c.replica a).store.held key ++ (c.replica b).store.held key) := by
    intro key hkey
    obtain ⟨hA, hB⟩ := summary_of_passed hreconciled htells hhashes hcompared hpassed hkey
    have hident := hreconciled.identical key hkey
    refine ⟨(List.perm_ext_iff_of_nodup (Version.nodup_of_pairwise_concurrent hA.apart)
      (Version.nodup_of_pairwise_concurrent hB.apart)).mpr fun v => ?_, fun v => hA.mem_iff hident⟩
    rw [hA.mem_iff hident, hB.mem_iff hident]
  have helsewhere : ∀ n key, c.placement.shared a b key = false →
      (c'.replica n).store.engine.get? key = (c.replica n).store.engine.get? key := by
    intro n key hkey
    apply (hpassed.within n).elsewhere
    intro hmem
    rw [shared_of_differing (hcompared.differing key hmem)] at hkey
    cases hkey
  have hsame : ∀ key, ¬ c'.Differing a b key := by
    intro key
    apply not_differing_of_perm
    · exact hpassed.populated a (hreconciled.populated (by simp))
    · exact hpassed.populated b (hreconciled.populated (by simp))
    · intro hkey
      rw [hpassed.network.placement] at hkey
      exact (hconverged key hkey).1
  obtain ⟨hlegibleA, hlegibleB⟩ := hpassed.legible hcompared
  rw [← hpassed.network.placement] at hlegibleA hlegibleB
  exact ⟨hconverged, helsewhere, fun n => (hpassed.within n).hints,
    syncPair_of_same (hcompared.hears.1.sameNetwork hpassed.network)
      (hcompared.hears.2.sameNetwork hpassed.network) hlegibleA hlegibleB hsame⟩

end Cluster

namespace Parted

def parted : Cluster :=
  .ofReplicas placement 1000 0 (.ofList
    [("A", ⟨.ofEngine (Engine.volatile.replace "m" [ours]), .volatile⟩),
     ("C", ⟨.ofEngine ((Engine.volatile.replace "m" [theirs]).replace "k" [theirs]), .volatile⟩)])

theorem reconciled_parted : parted.Reconciled "A" "C" := by
  have hsets : ∀ n ∈ ["A", "C"], ∀ vs ∈ (parted.replica n).store.engine.table.data.values,
      vs ≠ [] ∧ vs.Pairwise Version.Concurrent := by decide +kernel
  have hidentical : ∀ n ∈ ["A", "C"], ∀ vs ∈ (parted.replica n).store.engine.table.data.values, ∀ v ∈ vs,
      ∀ n' ∈ ["A", "C"], ∀ ws ∈ (parted.replica n').store.engine.table.data.values, ∀ w ∈ ws,
        v.vector.compare w.vector = .equal → v = w := by decide +kernel
  have hstored : ∀ key, ∀ v ∈ (parted.replica "A").store.held key ++ (parted.replica "C").store.held key,
      ∃ n ∈ ["A", "C"], ∃ vs ∈ (parted.replica n).store.engine.table.data.values, v ∈ vs := by
    intro key v hv
    rcases List.mem_append.mp hv with hv | hv
    · exact ⟨"A", by simp, Store.exists_values hv⟩
    · exact ⟨"C", by simp, Store.exists_values hv⟩
  refine ⟨fun n hn key vs hget => hsets n hn vs (Store.mem_values hget), fun key _ v hv w hw => ?_,
    fun n hn key _ => ?_⟩
  · obtain ⟨n, hn, vs, hvs, hmem⟩ := hstored key v hv
    obtain ⟨n', hn', ws, hws, hmem'⟩ := hstored key w hw
    exact hidentical n hn vs hvs v hmem n' hn' ws hws w hmem'
  · have hvolatile : ∀ n ∈ ["A", "C"], (parted.replica n).hints = .volatile := by decide +kernel
    rw [hvolatile n hn]
    rfl

theorem parted_nodes_converge :
    let synced := (Repair.syncPair Cluster.network 1 "A" "C" parted).2
    (Repair.syncPair Cluster.network 1 "A" "C" parted).1 = .ok ⟨1, 1, 1, 2⟩ ∧
    ((synced.replica "A").store.held "m").Perm ((synced.replica "C").store.held "m") ∧
    (∀ v, v ∈ (synced.replica "A").store.held "m" ↔ v ∈ Version.maximal [ours, theirs]) ∧
    ∃ c, Repair.syncPair Cluster.network 1 "A" "C" synced = (.ok .none, c) := by
  intro synced
  have hfirst : (Repair.syncPair Cluster.network 1 "A" "C" parted).1 = .ok ⟨1, 1, 1, 2⟩ := by
    decide +kernel
  have htells : parted.TellsApart "A" "C" := by
    have hvalues : ∀ vs ∈ (parted.replica "A").store.engine.table.data.values,
        ∀ ws ∈ (parted.replica "C").store.engine.table.data.values,
          Version.setFingerprint vs = Version.setFingerprint ws → vs.Perm ws := by decide +kernel
    exact fun key vs ws _ hvs hws => hvalues vs (Store.mem_values hvs) ws (Store.mem_values hws)
  have hhashes : parted.Distinguishes 1 "A" "C" := ⟨by decide +kernel, by decide +kernel⟩
  obtain ⟨hconverged, -, -, hnothing⟩ :=
    Cluster.syncPair_converges reconciled_parted htells hhashes (pair_of_ok hfirst)
  obtain ⟨hperm, hmaximal⟩ := hconverged "m" (by decide +kernel)
  exact ⟨hfirst, hperm, hmaximal, hnothing⟩

end Parted

end QuorumStore
