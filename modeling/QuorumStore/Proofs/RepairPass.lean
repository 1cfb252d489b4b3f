import QuorumStore.Proofs.Convergence
import QuorumStore.Proofs.RepairCalls
import QuorumStore.Proofs.SharedKeys

namespace QuorumStore

namespace Replica

variable {r r' r'' : Replica} {keys keys' : List Key} {key : Key} {vs seen reconciled : List Version}

structure Within (keys : List Key) (r r' : Replica) : Prop where
  hints : r'.hints = r.hints
  damaged : r'.store.damaged = r.store.damaged
  elsewhere : ∀ key ∉ keys, r'.store.engine.get? key = r.store.engine.get? key

namespace Within

theorem refl (keys : List Key) (r : Replica) : Within keys r r :=
  ⟨rfl, rfl, fun _ _ => rfl⟩

theorem trans (h : Within keys r r') (h' : Within keys r' r'') : Within keys r r'' := by
  refine ⟨h'.hints.trans h.hints, h'.damaged.trans h.damaged, fun key hkey => ?_⟩
  rw [h'.elsewhere key hkey, h.elsewhere key hkey]

theorem mono (h : Within keys r r') (hkeys : keys ⊆ keys') : Within keys' r r' :=
  ⟨h.hints, h.damaged, fun key hkey => h.elsewhere key fun hmem => hkey (hkeys hmem)⟩

theorem held (h : Within keys r r') (hkey : key ∉ keys) : r'.store.held key = r.store.held key := by
  rw [Store.held, h.elsewhere key hkey, Store.held]

theorem read (h : Within keys r r') (hkey : key ∉ keys) : r'.read key = r.read key := by
  simp only [Replica.read, Store.read, h.damaged, h.elsewhere key hkey, h.hints]

end Within

theorem read_eq_ok_iff :
    r.read key = .ok seen ↔ key ∉ r.store.damaged ∧
      seen = Version.reconcile (r.store.held key ++ r.hints.hinted key) := by
  by_cases hkey : key ∈ r.store.damaged
  · simp [read, Store.read, hkey]
  · simp [read, Store.read, Store.held, hkey, eq_comm]

theorem within_merge (r : Replica) (key : Key) (vs : List Version) : Within [key] r (r.merge key vs).2 := by
  unfold merge
  cases hm : r.store.merge key vs with
  | error e => exact .refl _ r
  | ok result =>
    refine ⟨rfl, (Store.held_merge hm key).2, fun k hk => ?_⟩
    have hne : k ≠ key := List.mem_singleton.not.mp hk
    unfold Store.merge at hm
    split at hm
    · cases hm
    · dsimp only at hm
      split at hm <;> cases hm
      · rfl
      · exact (Engine.get?_replace ..).trans (if_neg hne)

theorem populated_merge (hr : r.Populated) (key : Key) (vs : List Version) :
    (r.merge key vs).2.Populated := by
  unfold merge
  cases hm : r.store.merge key vs with
  | error e => exact hr
  | ok result => exact (Change.merge hm : Change r (.repairPush key vs) _).populated hr

def mend (r : Replica) (key : Key) (seen reconciled : List Version) : Replica :=
  if Version.differs seen reconciled then (r.merge key reconciled).2 else r

theorem within_mend (r : Replica) (key : Key) (seen reconciled : List Version) :
    Within [key] r (r.mend key seen reconciled) := by
  unfold mend
  split
  · exact within_merge ..
  · exact .refl _ r

theorem populated_mend (hr : r.Populated) (key : Key) (seen reconciled : List Version) :
    (r.mend key seen reconciled).Populated := by
  unfold mend
  split
  · exact populated_merge hr key reconciled
  · exact hr

theorem held_mend (hkey : key ∉ r.store.damaged) (seen reconciled : List Version) :
    (r.mend key seen reconciled).store.held key =
      if Version.differs seen reconciled then Version.reconcile (r.store.held key ++ reconciled)
      else r.store.held key := by
  unfold mend
  split
  · simp [held_merge hkey]
  · rfl

end Replica

namespace Cluster

variable {c c' : Cluster} {a b n : NodeId} {key : Key} {keys : List Key} {report report' : RepairReport}
  {seen reconciled : List Version} {depth : Nat}

theorem mendNode_eq_ok {behind wrote : Bool}
    (h : Repair.mendNode network key reconciled n seen c = (.ok (behind, wrote), c')) :
    behind = Version.differs seen reconciled ∧ (behind = false → wrote = false) ∧ c.SameNetwork c' ∧
      ∀ m, c'.replica m =
        if m = n then (c.replica n).mend key seen reconciled else c.replica m := by
  unfold Repair.mendNode at h
  split at h
  · rename_i hdiffers
    split at h
    rename_i result delay d hpush
    cases result with
    | error e => cases h
    | ok changed =>
      cases h
      obtain ⟨hnetwork, hreplica⟩ := push_eq_ok hpush
      refine ⟨hdiffers.symm, fun h => (nomatch h), hnetwork, fun m => ?_⟩
      rw [hreplica, Replica.mend, if_pos hdiffers]
  · rename_i hdiffers
    cases h
    refine ⟨(Bool.not_eq_true _ ▸ hdiffers).symm, fun h => h, (Alike.refl c).network, fun m => ?_⟩
    by_cases hm : m = n <;> simp [Replica.mend, hdiffers, hm]

theorem mendKey_eq_ok (hab : a ≠ b)
    (h : Repair.mendKey network a b key report c = (.ok report', c')) :
    ∃ seenA seenB, (c.replica a).read key = .ok seenA ∧ (c.replica b).read key = .ok seenB ∧
      c.SameNetwork c' ∧
      (∀ m, c'.replica m =
        if m = a then (c.replica a).mend key seenA (Version.reconcile (seenA ++ seenB))
        else if m = b then (c.replica b).mend key seenB (Version.reconcile (seenA ++ seenB))
        else c.replica m) ∧
      (Version.differs seenA (Version.reconcile (seenA ++ seenB)) = false →
        Version.differs seenB (Version.reconcile (seenA ++ seenB)) = false → report' = report) := by
  unfold Repair.mendKey at h
  split at h
  rename_i resultA cA hA
  split at h
  rename_i resultB cB hB
  split at h
  · cases h
  · cases h
  · rename_i seenA seenB
    obtain ⟨hreadA, halikeA⟩ := versions_eq_ok hA
    obtain ⟨hreadB, halikeB⟩ := versions_eq_ok hB
    have halike := halikeA.trans halikeB
    rw [halikeA.replicas] at hreadB
    dsimp only at h
    split at h
    · cases h
    · rename_i behindA wroteA d hmendA
      split at h
      · cases h
      · rename_i behindB wroteB d' hmendB
        obtain ⟨hbehindA, hwroteA, hnetworkA, hreplicaA⟩ := mendNode_eq_ok hmendA
        obtain ⟨hbehindB, hwroteB, hnetworkB, hreplicaB⟩ := mendNode_eq_ok hmendB
        cases h
        refine ⟨seenA, seenB, hreadA, hreadB, halike.network.trans (hnetworkA.trans hnetworkB),
          fun m => ?_, fun hsameA hsameB => ?_⟩
        · rw [hreplicaB, hreplicaA, hreplicaA, halike.replicas, halike.replicas, halike.replicas,
            if_neg hab.symm]
          by_cases hm : m = a
          · rw [if_pos hm, if_neg (hm ▸ hab), if_pos hm]
          · rw [if_neg hm, if_neg hm]
        · rw [hsameA] at hbehindA
          rw [hsameB] at hbehindB
          simp [hbehindA, hbehindB, hwroteA hbehindA, hwroteB hbehindB]

def Mended (a b : NodeId) (key : Key) (c c' : Cluster) : Prop :=
  ∃ seenA seenB, (c.replica a).read key = .ok seenA ∧ (c.replica b).read key = .ok seenB ∧
    (c'.replica a).store.held key =
      ((c.replica a).mend key seenA (Version.reconcile (seenA ++ seenB))).store.held key ∧
    (c'.replica b).store.held key =
      ((c.replica b).mend key seenB (Version.reconcile (seenA ++ seenB))).store.held key

structure Passed (a b : NodeId) (keys : List Key) (c c' : Cluster) : Prop where
  network : c.SameNetwork c'
  others : ∀ m, m ≠ a → m ≠ b → c'.replica m = c.replica m
  within : ∀ m, (c.replica m).Within keys (c'.replica m)
  populated : ∀ m, (c.replica m).Populated → (c'.replica m).Populated
  mended : ∀ key ∈ keys, Mended a b key c c'

theorem passed_mendKey (hab : a ≠ b)
    (h : Repair.mendKey network a b key report c = (.ok report', c')) : Passed a b [key] c c' := by
  obtain ⟨seenA, seenB, hreadA, hreadB, hnetwork, hreplica, -⟩ := mendKey_eq_ok hab h
  refine ⟨hnetwork, fun m hma hmb => ?_, fun m => ?_, fun m hm => ?_, fun key' hkey' => ?_⟩
  · rw [hreplica, if_neg hma, if_neg hmb]
  · rw [hreplica]
    split
    · rename_i hm
      exact hm ▸ Replica.within_mend ..
    · split
      · rename_i hm
        exact hm ▸ Replica.within_mend ..
      · exact .refl ..
  · rw [hreplica]
    split
    · rename_i heq
      exact Replica.populated_mend (heq ▸ hm) _ _ _
    · split
      · rename_i heq
        exact Replica.populated_mend (heq ▸ hm) _ _ _
      · exact hm
  · obtain rfl := List.mem_singleton.mp hkey'
    refine ⟨seenA, seenB, hreadA, hreadB, ?_, ?_⟩
    · rw [hreplica, if_pos rfl]
    · rw [hreplica, if_neg hab.symm, if_pos rfl]

theorem Passed.nil (a b : NodeId) (h : c.Alike c') : Passed a b [] c c' := by
  refine ⟨h.network, fun m _ _ => h.replicas m, fun m => ?_, fun m hm => ?_, fun key hkey => ?_⟩
  · rw [h.replicas]
    exact .refl ..
  · rw [h.replicas]
    exact hm
  · cases hkey

theorem Passed.cons {d : Cluster} (hkey : key ∉ keys) (h : Passed a b [key] c d)
    (h' : Passed a b keys d c') : Passed a b (key :: keys) c c' := by
  have hin : ∀ m, (c.replica m).Within (key :: keys) (c'.replica m) := fun m =>
    ((h.within m).mono (by simp)).trans ((h'.within m).mono (by simp))
  refine ⟨h.network.trans h'.network, fun m hma hmb => ?_, hin,
    fun m hm => h'.populated m (h.populated m hm), fun k hk => ?_⟩
  · rw [h'.others m hma hmb, h.others m hma hmb]
  · rcases List.mem_cons.mp hk with rfl | hk
    · obtain ⟨seenA, seenB, hreadA, hreadB, hA, hB⟩ := h.mended k (List.mem_singleton_self k)
      refine ⟨seenA, seenB, hreadA, hreadB, ?_, ?_⟩
      · rw [(h'.within a).held hkey, hA]
      · rw [(h'.within b).held hkey, hB]
    · -- what the first key's turn left alone is still as it was at the start
      have hne : k ∉ [key] := fun hmem => hkey (List.mem_singleton.mp hmem ▸ hk)
      obtain ⟨seenA, seenB, hreadA, hreadB, hA, hB⟩ := h'.mended k hk
      rw [(h.within a).read hne] at hreadA
      rw [(h.within b).read hne] at hreadB
      have hintactA := (Replica.read_eq_ok_iff.mp hreadA).1
      have hintactB := (Replica.read_eq_ok_iff.mp hreadB).1
      refine ⟨seenA, seenB, hreadA, hreadB, ?_, ?_⟩
      · rw [hA, Replica.held_mend hintactA, Replica.held_mend ((h.within a).damaged ▸ hintactA),
          (h.within a).held hne]
      · rw [hB, Replica.held_mend hintactB, Replica.held_mend ((h.within b).damaged ▸ hintactB),
          (h.within b).held hne]

theorem passed_mendKeys (hab : a ≠ b) (hkeys : keys.Nodup)
    (h : Repair.mendKeys network a b keys report c = (.ok report', c')) : Passed a b keys c c' := by
  induction keys generalizing c report with
  | nil =>
    cases h
    exact .nil a b (.refl _)
  | cons key keys ih =>
    obtain ⟨hkey, hnodup⟩ := List.nodup_cons.mp hkeys
    rw [Repair.mendKeys] at h
    split at h
    · cases h
    · rename_i report d hmend
      exact (passed_mendKey hab hmend).cons hkey (ih hnodup h)

def Settled (a b : NodeId) (c : Cluster) (key : Key) : Prop :=
  ∀ seenA seenB, (c.replica a).read key = .ok seenA → (c.replica b).read key = .ok seenB →
    Version.differs seenA (Version.reconcile (seenA ++ seenB)) = false ∧
    Version.differs seenB (Version.reconcile (seenA ++ seenB)) = false

theorem mendKeys_of_settled (hab : a ≠ b) (hsettled : ∀ key ∈ keys, Settled a b c key)
    (h : Repair.mendKeys network a b keys report c = (.ok report', c')) :
    report' = report ∧ c.Alike c' := by
  induction keys generalizing c report with
  | nil =>
    cases h
    exact ⟨rfl, .refl _⟩
  | cons key keys ih =>
    rw [Repair.mendKeys] at h
    split at h
    · cases h
    · rename_i report d hmend
      obtain ⟨seenA, seenB, hreadA, hreadB, hnetwork, hreplica, hreport⟩ := mendKey_eq_ok hab hmend
      obtain ⟨hA, hB⟩ := hsettled key (List.mem_cons_self ..) seenA seenB hreadA hreadB
      have halike : c.Alike d := by
        refine ⟨hnetwork, fun m => ?_⟩
        rw [hreplica, Replica.mend, Replica.mend, hA, hB]
        simp only [Bool.false_eq_true, if_false]
        grind
      have hrest : ∀ key ∈ keys, Settled a b d key := by
        intro key' hkey'
        rw [Settled, halike.replicas, halike.replicas]
        exact hsettled key' (List.mem_cons_of_mem _ hkey')
      obtain ⟨hsame, halike'⟩ := ih hrest h
      exact ⟨hsame.trans (hreport hA hB), halike.trans halike'⟩

def Differing (a b : NodeId) (c : Cluster) (key : Key) : Prop :=
  (c.replica a).fingerprint? (c.placement.shared a b) key ≠
    (c.replica b).fingerprint? (c.placement.shared a b) key

theorem shared_of_differing (h : c.Differing a b key) : c.placement.shared a b key = true := by
  by_contra hkey
  exact h (by simp [Replica.fingerprint?, hkey])

def Distinguishes (depth : Nat) (a b : NodeId) (c : Cluster) : Prop :=
  DigestTree.Collisionless (min depth Digest.maxDepth)
    ((c.replica a).digestEntries c.placement a b (min depth Digest.maxDepth))
    ((c.replica b).digestEntries c.placement b a (min depth Digest.maxDepth))

structure Compared (depth : Nat) (a b : NodeId) (keys : List Key) (c : Cluster) : Prop where
  hears : c.Hears a .digest ∧ c.Hears b .digest
  legible : (c.replica a).Legible (c.placement.shared a b) ∧
    (c.replica b).Legible (c.placement.shared a b)
  apart : keys ≠ [] → a ≠ b
  nodup : keys.Nodup
  differing : ∀ key ∈ keys, c.Differing a b key
  complete : c.Distinguishes depth a b → ∀ key, c.Differing a b key → key ∈ keys

theorem exists_entry (depth : Nat) (h : c.Differing a b key) :
    (∃ e ∈ (c.replica a).digestEntries c.placement a b depth,
      e ∉ (c.replica b).digestEntries c.placement b a depth ∧ e.bucket = bucketOf key depth) ∨
    (∃ e ∈ (c.replica b).digestEntries c.placement b a depth,
      e ∉ (c.replica a).digestEntries c.placement a b depth ∧ e.bucket = bucketOf key depth) := by
  have hshared : c.placement.shared b a = c.placement.shared a b :=
    funext fun key => c.placement.shared_comm b a key
  have hkey : ∀ (r : Replica) (hash : Hash) (n peer : NodeId),
      c.placement.shared n peer = c.placement.shared a b →
      ((⟨bucketOf key depth, key, hash⟩ : DigestEntry) ∈ r.digestEntries c.placement n peer depth ↔
        r.fingerprint? (c.placement.shared a b) key = some hash) := by
    intro r hash n peer hpeer
    rw [Replica.mem_digestEntries, hpeer]
    simp
  cases hA : (c.replica a).fingerprint? (c.placement.shared a b) key with
  | some hash =>
    refine .inl ⟨⟨bucketOf key depth, key, hash⟩, (hkey _ hash a b rfl).mpr hA, fun hmem => h ?_, rfl⟩
    rw [hA, (hkey _ hash b a hshared).mp hmem]
  | none =>
    cases hB : (c.replica b).fingerprint? (c.placement.shared a b) key with
    | none => exact absurd (hA.trans hB.symm) h
    | some hash =>
      refine .inr ⟨⟨bucketOf key depth, key, hash⟩, (hkey _ hash b a hshared).mpr hB, fun hmem => h ?_, rfl⟩
      rw [hB, (hkey _ hash a b rfl).mp hmem]

theorem differ_of_differing (hhashes : c.Distinguishes depth a b) (h : c.Differing a b key) :
    let depth := min depth Digest.maxDepth
    let treeA := DigestTree.build depth ((c.replica a).digestEntries c.placement a b depth)
    let treeB := DigestTree.build depth ((c.replica b).digestEntries c.placement b a depth)
    treeA.hash ≠ treeB.hash ∧ bucketOf key depth ∈ treeA.diff 0 treeB := by
  intro depth treeA treeB
  have hbucket : 0 * 2 ^ depth + bucketOf key depth % 2 ^ depth = bucketOf key depth := by
    have hlt : bucketOf key depth < 1 <<< depth := by
      apply Token.bucket_lt
      exact Nat.le_trans (Nat.min_le_right ..) (by decide)
    rw [Nat.one_shiftLeft] at hlt
    rw [Nat.zero_mul, Nat.zero_add, Nat.mod_eq_of_lt hlt]
  rcases exists_entry depth h with ⟨e, he, hne, hb⟩ | ⟨e, he, hne, hb⟩
  · obtain ⟨hroot, hdiff⟩ := DigestTree.differ_of_mem hhashes he hne
    refine ⟨hroot, ?_⟩
    rw [← hbucket, ← hb]
    exact hdiff 0
  · obtain ⟨hroot, hdiff⟩ := DigestTree.differ_of_mem hhashes.symm he hne
    refine ⟨hroot.symm, ?_⟩
    rw [← hbucket, ← hb, DigestTree.diff_comm]
    exact hdiff 0

theorem mem_found_iff {ka kb : SortedMap Key Hash} {f g : Key → Option Hash} {P : Key → Prop}
    [DecidablePred P] (hA : ∀ key, ka.get? key = if P key then f key else none)
    (hB : ∀ key, kb.get? key = if P key then g key else none) :
    key ∈ (Repair.allKeys ka kb).filter (fun key => !decide (ka.get? key = kb.get? key)) ↔
      P key ∧ f key ≠ g key := by
  simp only [List.mem_filter, Repair.allKeys, SortedMap.mem_keys_iff, SortedMap.get?_unionWith, hA, hB]
  by_cases hP : P key
  · cases hf : f key <;> cases hg : g key <;> simp [hP]
  · simp [hP]

theorem syncPair_eq_ok (h : Repair.syncPair network depth a b c = (.ok report, c')) :
    ∃ keys start c₁ c₂, c.Compared depth a b keys ∧ start.keysRepaired = 0 ∧ start.writes = 0 ∧
      c.Alike c₁ ∧ Repair.mendKeys network a b keys start c₁ = (.ok report, c₂) ∧ c₂.Alike c' := by
  have hshared : c.placement.shared b a = c.placement.shared a b :=
    funext fun key => c.placement.shared_comm b a key
  cases hA : Repair.digest network depth a b (network.count .repairPasses 1 c) with
  | mk resultA cA =>
  cases hB : Repair.digest network depth b a cA with
  | mk resultB cB =>
  simp only [Repair.syncPair, hA, hB] at h
  cases resultA with
  | error e => cases h
  | ok da =>
  cases resultB with
  | error e => cases h
  | ok db =>
    obtain ⟨hhearsA, hdigestA, halikeA⟩ := digest_eq_ok hA
    obtain ⟨hhearsB, hdigestB, halikeB⟩ := digest_eq_ok hB
    have halike₁ := (Alike.count c .repairPasses 1).trans halikeA
    have halike₂ := halike₁.trans halikeB
    obtain ⟨hlegibleA, hda⟩ := Replica.digest_eq_ok_iff.mp hdigestA
    rw [halike₁.replicas, halike₁.network.placement] at hdigestB
    obtain ⟨hlegibleB, hdb⟩ := Replica.digest_eq_ok_iff.mp hdigestB
    rw [hshared] at hlegibleB
    have hhears : c.Hears a .digest ∧ c.Hears b .digest :=
      ⟨hhearsA.sameNetwork (Alike.count c .repairPasses 1).network.symm,
        hhearsB.sameNetwork halike₁.network.symm⟩
    dsimp only at h
    split at h
    · -- equal roots: no key differs, or two different things have one hash value
      rename_i hroot
      cases h
      refine ⟨[], .none, _, _, ⟨hhears, ⟨hlegibleA, hlegibleB⟩, fun hne => absurd rfl hne, .nil,
        fun _ hkey => absurd hkey List.not_mem_nil, fun hhashes key hkey => ?_⟩,
        rfl, rfl, halike₂, rfl, .refl _⟩
      rw [hda, hdb] at hroot
      exact absurd hroot (differ_of_differing hhashes hkey).1
    · rename_i hroot
      have hab : a ≠ b := by
        rintro rfl
        exact hroot (congrArg Digest.root (hda.trans hdb.symm))
      cases hkA : Repair.bucketKeys network depth (da.diff db) a b cB with
      | mk resultA' cA' =>
      cases hkB : Repair.bucketKeys network depth (da.diff db) b a cA' with
      | mk resultB' cB' =>
      simp only [hkA, hkB] at h
      cases resultA' with
      | error e => cases h
      | ok ka =>
      cases resultB' with
      | error e => cases h
      | ok kb =>
        obtain ⟨hkeysA, halikeA'⟩ := bucketKeys_eq_ok hkA
        obtain ⟨hkeysB, halikeB'⟩ := bucketKeys_eq_ok hkB
        have halike₃ := halike₂.trans halikeA'
        rw [halike₂.replicas, halike₂.network.placement] at hkeysA
        rw [halike₃.replicas, halike₃.network.placement] at hkeysB
        have hA' := Replica.get?_of_bucketKeys hkeysA
        have hB' := Replica.get?_of_bucketKeys hkeysB
        rw [hshared] at hB'
        dsimp only at h
        split at h
        · cases h
        · rename_i report₁ c₂ hmend
          cases h
          refine ⟨_, _, _, c₂, ⟨hhears, ⟨hlegibleA, hlegibleB⟩, fun _ => hab, ?_, fun key hkey => ?_,
            fun hhashes key hkey => ?_⟩, rfl, rfl, halike₃.trans halikeB', hmend, .count c₂ _ _⟩
          · exact (SortedMap.nodup_keys _).filter _
          · have hfound := (mem_found_iff hA' hB').mp hkey
            exact hfound.2
          · have hdiff := (differ_of_differing hhashes hkey).2
            refine (mem_found_iff hA' hB').mpr ⟨?_, hkey⟩
            rw [hda, hdb, Digest.diff, if_pos rfl]
            exact hdiff

end Cluster

end QuorumStore
