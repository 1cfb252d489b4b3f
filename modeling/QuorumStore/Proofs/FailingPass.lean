import QuorumStore.Proofs.Interruption
import QuorumStore.Proofs.Reconciliation
import QuorumStore.Proofs.RepairIdle

namespace QuorumStore

theorem Replica.mem_held_merge {r : Replica} {key k : Key} {vs : List Version} {v : Version}
    (h : v ∈ (r.merge key vs).2.store.held k) : v ∈ r.store.held k ∨ k = key ∧ v ∈ vs := by
  unfold merge at h
  cases hm : r.store.merge key vs with
  | error e =>
    rw [hm] at h
    exact .inl h
  | ok result =>
    rw [hm] at h
    rw [(Store.held_merge hm k).1] at h
    split at h
    · rename_i hk
      subst hk
      exact (List.mem_append.mp (Version.mem_of_mem_reconcile h)).imp_right fun hv => ⟨rfl, hv⟩
    · exact .inl h

namespace Cluster

inductive Fate where
  | through
  | refused (error : CallError)
  | unanswered (error : CallError)
  deriving DecidableEq

def failing (fate : Nat → Fate) : Network Interrupted where
  send n request s :=
    match fate s.calls with
    | .through =>
        let (reply, c) := send n request s.cluster
        (reply, ⟨c, s.calls + 1⟩)
    | .refused e => (⟨.error e, 0⟩, ⟨s.cluster, s.calls + 1⟩)
    | .unanswered e => (⟨.error e, 0⟩, ⟨(send n request s.cluster).2, s.calls + 1⟩)
  now s := s.cluster.clock
  count m k s := { s with cluster := s.cluster.count m k }

structure Unfailing (fate : Nat → Fate) (s s' : Interrupted) : Prop where
  le : s.calls ≤ s'.calls
  through : ∀ k, s.calls ≤ k → k < s'.calls → fate k = .through

variable {fate : Nat → Fate} {s s' s'' : Interrupted} {c c' d : Cluster} {a b n : NodeId} {key : Key}
  {keys : List Key} {depth : Nat}

namespace Unfailing

theorem of_eq (h : s'.calls = s.calls) : Unfailing fate s s' :=
  ⟨h.ge, fun k hk hk' => by omega⟩

theorem trans (h : Unfailing fate s s') (h' : Unfailing fate s' s'') : Unfailing fate s s'' := by
  refine ⟨Nat.le_trans h.le h'.le, fun k hk hk' => ?_⟩
  by_cases hlt : k < s'.calls
  · exact h.through k hk hlt
  · exact h'.through k (Nat.le_of_not_lt hlt) hk'

end Unfailing

section Calls

variable {request : Request}

theorem sent_cases (hkind : request.kind ≠ .handoff) (n : NodeId) (c : Cluster) :
    c.Alike (send n request c).2 ∨
    ∃ tally, c.isRegistered n = true ∧ (send n request c).2 =
      c.became n ((c.replica n).handle c.placement n c.clock request).2 tally := by
  rw [send_eq hkind]
  split
  · exact .inl (.refl c)
  split
  · exact .inl (.refl c)
  split
  · exact .inl (.refl c)
  · rcases reach_cases (c.count (.sent request.kind) 1) n request with
      ⟨e, delay, h⟩ | ⟨tally, hregistered, h⟩
    · refine .inl ?_
      rw [reachCounted, h]
      exact (Alike.count c _ 1).trans (Alike.count _ _ 1)
    · refine .inr ?_
      rw [reachCounted, h]
      dsimp only
      split
      · exact ⟨_, hregistered, rfl⟩
      · exact ⟨_, hregistered, rfl⟩

theorem failing_send_cases (fate : Nat → Fate) (n : NodeId) (request : Request) (s : Interrupted) :
    ((failing fate).send n request s).2.cluster = s.cluster ∨
      ((failing fate).send n request s).2.cluster = (send n request s.cluster).2 := by
  simp only [failing]
  split
  · exact .inr rfl
  · exact .inl rfl
  · exact .inr rfl

theorem alike_failing_send (hkind : request.kind ≠ .handoff)
    (hasks : ((s.cluster.replica n).handle s.cluster.placement n s.cluster.clock request).2 =
      s.cluster.replica n) :
    s.cluster.Alike ((failing fate).send n request s).2.cluster := by
  rcases failing_send_cases fate n request s with h | h
  · rw [h]
    exact .refl _
  · rw [h]
    rcases sent_cases hkind n s.cluster with halike | ⟨tally, hregistered, hsent⟩
    · exact halike
    · rw [hsent, hasks]
      exact alike_became hregistered tally

variable {α : Type} {expect : Response → Option α} {result : Except RepairError α} {x : α} {delay : Nat}

theorem call_failing_eq_ok
    (h : Repair.call (failing fate) n request expect s = (.ok x, delay, s')) :
    Unfailing fate s s' ∧ Repair.call network n request expect s.cluster = (.ok x, delay, s'.cluster) := by
  simp only [Repair.call, failing] at h
  cases hfate : fate s.calls with
  | through =>
    simp only [hfate, Prod.mk.injEq] at h
    obtain ⟨hresult, hdelay, rfl⟩ := h
    refine ⟨⟨Nat.le_succ _, fun k hk hk' => ?_⟩, ?_⟩
    · obtain rfl : k = s.calls := Nat.le_antisymm (Nat.le_of_lt_succ hk') hk
      exact hfate
    · simp only [Repair.call, network_send, hresult, hdelay]
  | refused e =>
    rw [hfate] at h
    cases h
  | unanswered e =>
    rw [hfate] at h
    cases h

theorem finding_failing {found : Except ReplicaError α} {wrap : α → Response}
    (h : Repair.call (failing fate) n request expect s = (result, delay, s'))
    (hkind : request.kind ≠ .handoff) (hstore : request.usesStore = true) (hack : expect .ack = none)
    (hwrap : ∀ x, expect (wrap x) = some x)
    (hhandle : (s.cluster.replica n).handle s.cluster.placement n s.cluster.clock request =
      (found.map wrap, s.cluster.replica n)) :
    s.cluster.Alike s'.cluster ∧ ∀ x, result = .ok x → Unfailing fate s s' ∧ found = .ok x := by
  constructor
  · have hstate : ((failing fate).send n request s).2 = s' := congrArg (fun r => r.2.2) h
    exact hstate ▸ alike_failing_send hkind (congrArg Prod.snd hhandle)
  · rintro x rfl
    obtain ⟨hunfailing, hcall⟩ := call_failing_eq_ok h
    exact ⟨hunfailing, (finding_eq_ok hcall hkind hstore hack hwrap hhandle).2.1⟩

theorem digest_failing {peer : NodeId} {result : Except RepairError Digest}
    (h : Repair.digest (failing fate) depth n peer s = (result, s')) :
    s.cluster.Alike s'.cluster ∧ ∀ d, result = .ok d → Unfailing fate s s' ∧
      (s.cluster.replica n).digest s.cluster.placement n peer depth = .ok d := by
  rw [Repair.digest] at h
  split at h
  rename_i hcall
  cases h
  exact finding_failing hcall (by simp [Request.kind]) rfl rfl (fun _ => rfl) rfl

theorem bucketKeys_failing {buckets : List Nat} {peer : NodeId}
    {result : Except RepairError (SortedMap Key Hash)}
    (h : Repair.bucketKeys (failing fate) depth buckets n peer s = (result, s')) :
    s.cluster.Alike s'.cluster ∧ ∀ listed, result = .ok listed → Unfailing fate s s' ∧
      (s.cluster.replica n).bucketKeys s.cluster.placement n peer depth buckets = .ok listed := by
  rw [Repair.bucketKeys] at h
  split at h
  rename_i hcall
  cases h
  exact finding_failing hcall (by simp [Request.kind]) rfl rfl (fun _ => rfl) rfl

theorem versions_failing {result : Except RepairError (List Version)}
    (h : Repair.versions (failing fate) key n s = (result, s')) :
    s.cluster.Alike s'.cluster ∧ ∀ seen, result = .ok seen → Unfailing fate s s' ∧
      (s.cluster.replica n).read key = .ok seen := by
  rw [Repair.versions] at h
  split at h
  rename_i hcall
  cases h
  exact finding_failing hcall (by simp [Request.kind]) rfl rfl (fun _ => rfl) rfl

theorem push_failing {vs : List Version} {result : Except RepairError Bool}
    (h : Repair.push (failing fate) key vs n s = (result, delay, s')) :
    (s.cluster.Alike s'.cluster ∨ s.cluster.SameNetwork s'.cluster ∧ ∀ m, s'.cluster.replica m =
      if m = n then ((s.cluster.replica n).merge key vs).2 else s.cluster.replica m) ∧
    ∀ x, result = .ok x → Unfailing fate s s' := by
  constructor
  · obtain rfl : ((failing fate).send n (.repairPush key vs) s).2 = s' := congrArg (fun r => r.2.2) h
    rcases failing_send_cases fate n (.repairPush key vs) s with hsame | hsent
    · rw [hsame]
      exact .inl (.refl _)
    · rw [hsent]
      refine (sent_cases (by simp [Request.kind]) n s.cluster).imp_right ?_
      rintro ⟨tally, hregistered, hbecame⟩
      rw [hbecame]
      exact ⟨sameNetwork_became hregistered _ tally, fun m => replica_became ..⟩
  · rintro x rfl
    exact (call_failing_eq_ok h).1

end Calls

def stock (c : Cluster) (n : NodeId) (key : Key) : List Version :=
  (c.replica n).store.held key ++ (c.replica n).hints.hinted key

structure Partway (a b : NodeId) (keys : List Key) (c c' : Cluster) : Prop where
  network : c.SameNetwork c'
  others : ∀ m, m ≠ a → m ≠ b → c'.replica m = c.replica m
  within : ∀ m, (c.replica m).Within keys (c'.replica m)
  covers : ∀ m key w, Covers m key w c → Covers m key w c'
  among : ∀ m key, ∀ v ∈ (c'.replica m).store.held key,
    v ∈ (c.replica m).store.held key ∨ v ∈ c.stock a key ∨ v ∈ c.stock b key

namespace Partway

theorem of_alike (h : c.Alike c') : Partway a b keys c c' := by
  refine ⟨h.network, fun m _ _ => h.replicas m, fun m => ?_, fun m key w hw => ?_, fun m key v hv => ?_⟩
  · rw [h.replicas]
    exact .refl ..
  · rwa [Covers, h.replicas]
  · rw [h.replicas] at hv
    exact .inl hv

theorem alike (h : Partway a b keys c c') (hd : c'.Alike d) : Partway a b keys c d := by
  obtain ⟨hnetwork, hothers, hwithin, hcovers, hamong⟩ := h
  simp only [Covers, ← hd.replicas] at hothers hwithin hcovers hamong
  exact ⟨hnetwork.trans hd.network, hothers, hwithin, hcovers, hamong⟩

theorem mem_stock (h : Partway a b keys c c') (hn : n = a ∨ n = b) {seen : List Version}
    (hread : (c'.replica n).read key = .ok seen) :
    ∀ v ∈ seen, v ∈ c.stock a key ∨ v ∈ c.stock b key := by
  have hown : ∀ v ∈ c.stock n key, v ∈ c.stock a key ∨ v ∈ c.stock b key := by
    intro v hv
    rcases hn with rfl | rfl
    · exact .inl hv
    · exact .inr hv
  intro v hv
  rcases List.mem_append.mp (Replica.mem_of_mem_read hread hv) with hheld | hhinted
  · exact (h.among n key v hheld).elim (fun hheld => hown v (List.mem_append_left _ hheld)) id
  · rw [(h.within n).hints] at hhinted
    exact hown v (List.mem_append_right _ hhinted)

theorem push (h : Partway a b keys c c') (hn : n = a ∨ n = b) (hkey : key ∈ keys) {vs : List Version}
    (hvs : ∀ v ∈ vs, v ∈ c.stock a key ∨ v ∈ c.stock b key) (hnetwork : c'.SameNetwork d)
    (hreplica : ∀ m, d.replica m =
      if m = n then ((c'.replica n).merge key vs).2 else c'.replica m) : Partway a b keys c d := by
  refine ⟨h.network.trans hnetwork, fun m hma hmb => ?_, fun m => ?_, fun m k w hw => ?_,
    fun m k v hv => ?_⟩
  · have hmn : m ≠ n := by
      rintro rfl
      exact hn.elim hma hmb
    rw [hreplica, if_neg hmn, h.others m hma hmb]
  · rw [hreplica]
    split
    · rename_i hm
      subst hm
      exact (h.within m).trans ((Replica.within_merge _ key vs).mono (by simpa using hkey))
    · exact h.within m
  · have hcovers := h.covers m k w hw
    rw [Covers, hreplica]
    split
    · rename_i hm
      subst hm
      exact (Replica.merge_change key vs (.repairPush key vs)).covered hcovers
    · exact hcovers
  · rw [hreplica] at hv
    split at hv
    · rename_i hm
      subst hm
      rcases Replica.mem_held_merge hv with hheld | ⟨rfl, hpushed⟩
      · exact h.among m k v hheld
      · exact .inr (hvs v hpushed)
    · exact h.among m k v hv

end Partway

variable {report : RepairReport} {result : Except RepairError RepairReport}

theorem partway_mendNode {seen reconciled : List Version} {result : Except RepairError (Bool × Bool)}
    (h : Partway a b keys c s.cluster) (hn : n = a ∨ n = b) (hkey : key ∈ keys)
    (hvs : ∀ v ∈ reconciled, v ∈ c.stock a key ∨ v ∈ c.stock b key)
    (hmend : Repair.mendNode (failing fate) key reconciled n seen s = (result, s')) :
    Partway a b keys c s'.cluster ∧ ∀ x, result = .ok x → Unfailing fate s s' := by
  unfold Repair.mendNode at hmend
  split at hmend
  · split at hmend
    rename_i pushed delay t hpush
    cases hmend
    obtain ⟨hstate, hunfailing⟩ := push_failing hpush
    refine ⟨?_, fun x hx => ?_⟩
    · rcases hstate with halike | ⟨hnetwork, hreplica⟩
      · exact h.alike halike
      · exact h.push hn hkey hvs hnetwork hreplica
    · cases pushed with
      | error e => cases hx
      | ok changed => exact hunfailing changed rfl
  · cases hmend
    exact ⟨h, fun _ _ => .of_eq rfl⟩

theorem partway_mendKey (h : Partway a b keys c s.cluster) (hkey : key ∈ keys)
    (hmend : Repair.mendKey (failing fate) a b key report s = (result, s')) :
    Partway a b keys c s'.cluster ∧ ∀ report', result = .ok report' → Unfailing fate s s' := by
  unfold Repair.mendKey at hmend
  split at hmend
  rename_i resultA sA hA
  split at hmend
  rename_i resultB sB hB
  obtain ⟨halikeA, hokA⟩ := versions_failing hA
  obtain ⟨halikeB, hokB⟩ := versions_failing hB
  have hpartA := h.alike halikeA
  have hpartB := hpartA.alike halikeB
  split at hmend
  · cases hmend
    exact ⟨hpartB, fun _ h => by cases h⟩
  · cases hmend
    exact ⟨hpartB, fun _ h => by cases h⟩
  · rename_i seenA seenB
    obtain ⟨hunfailingA, hreadA⟩ := hokA seenA rfl
    obtain ⟨hunfailingB, hreadB⟩ := hokB seenB rfl
    have hvs : ∀ v ∈ Version.reconcile (seenA ++ seenB), v ∈ c.stock a key ∨ v ∈ c.stock b key := by
      intro v hv
      rcases List.mem_append.mp (Version.mem_of_mem_reconcile hv) with hv | hv
      · exact h.mem_stock (.inl rfl) hreadA v hv
      · exact hpartA.mem_stock (.inr rfl) hreadB v hv
    dsimp only at hmend
    split at hmend
    · rename_i e t hmendA
      cases hmend
      exact ⟨(partway_mendNode hpartB (.inl rfl) hkey hvs hmendA).1, fun _ h => by cases h⟩
    · rename_i behindA wroteA t hmendA
      obtain ⟨hpart, hunfailing⟩ := partway_mendNode hpartB (.inl rfl) hkey hvs hmendA
      split at hmend
      · rename_i e t' hmendB
        cases hmend
        exact ⟨(partway_mendNode hpart (.inr rfl) hkey hvs hmendB).1, fun _ h => by cases h⟩
      · rename_i behindB wroteB t' hmendB
        cases hmend
        obtain ⟨hpart', hunfailing'⟩ := partway_mendNode hpart (.inr rfl) hkey hvs hmendB
        exact ⟨hpart', fun _ _ =>
          hunfailingA.trans (hunfailingB.trans ((hunfailing _ rfl).trans (hunfailing' _ rfl)))⟩

theorem partway_mendKeys {todo : List Key} (h : Partway a b keys c s.cluster) (htodo : todo ⊆ keys)
    (hmend : Repair.mendKeys (failing fate) a b todo report s = (result, s')) :
    Partway a b keys c s'.cluster ∧ ∀ report', result = .ok report' → Unfailing fate s s' := by
  induction todo generalizing s report with
  | nil =>
    cases hmend
    exact ⟨h, fun _ _ => .of_eq rfl⟩
  | cons key todo ih =>
    obtain ⟨hkey, hrest⟩ := List.cons_subset.mp htodo
    rw [Repair.mendKeys] at hmend
    split at hmend
    · rename_i e t hfirst
      cases hmend
      exact ⟨(partway_mendKey h hkey hfirst).1, fun _ h => by cases h⟩
    · rename_i report t hfirst
      obtain ⟨hpart, hunfailing⟩ := partway_mendKey h hkey hfirst
      obtain ⟨hpart', hunfailing'⟩ := ih hpart hrest hmend
      exact ⟨hpart', fun report' hreport => (hunfailing _ rfl).trans (hunfailing' report' hreport)⟩

theorem differing_of_listed {buckets : List Nat} {ka kb : SortedMap Key Hash}
    (hA : (c.replica a).bucketKeys c.placement a b depth buckets = .ok ka)
    (hB : (c.replica b).bucketKeys c.placement b a depth buckets = .ok kb) :
    ∀ key ∈ (Repair.allKeys ka kb).filter (fun key => !decide (ka.get? key = kb.get? key)),
      c.Differing a b key := by
  have hshared : c.placement.shared b a = c.placement.shared a b :=
    funext fun key => c.placement.shared_comm b a key
  have hlistedB := Replica.get?_of_bucketKeys hB
  rw [hshared] at hlistedB
  exact fun key hkey => ((mem_found_iff (Replica.get?_of_bucketKeys hA) hlistedB).mp hkey).2

theorem syncPair_failing (h : Repair.syncPair (failing fate) depth a b s = (result, s')) :
    (∃ keys, (∀ key ∈ keys, s.cluster.Differing a b key) ∧ Partway a b keys s.cluster s'.cluster) ∧
      ∀ report, result = .ok report → Unfailing fate s s' := by
  have hnothing : ∀ {c'}, s.cluster.Alike c' →
      ∃ keys, (∀ key ∈ keys, s.cluster.Differing a b key) ∧ Partway a b keys s.cluster c' :=
    fun halike => ⟨[], fun _ hkey => absurd hkey List.not_mem_nil, .of_alike halike⟩
  have hcounted : s.cluster.Alike ((failing fate).count .repairPasses 1 s).cluster := .count _ _ _
  have hstart : Unfailing fate s ((failing fate).count .repairPasses 1 s) := .of_eq rfl
  generalize hs₀ : (failing fate).count .repairPasses 1 s = s₀ at hcounted hstart
  cases hA : Repair.digest (failing fate) depth a b s₀ with
  | mk resultA sA =>
  cases hB : Repair.digest (failing fate) depth b a sA with
  | mk resultB sB =>
  obtain ⟨halikeA, hokA⟩ := digest_failing hA
  obtain ⟨halikeB, hokB⟩ := digest_failing hB
  have halike₂ := (hcounted.trans halikeA).trans halikeB
  simp only [Repair.syncPair, hs₀, hA, hB] at h
  split at h
  · cases h
    exact ⟨hnothing halike₂, fun _ h => by cases h⟩
  · cases h
    exact ⟨hnothing halike₂, fun _ h => by cases h⟩
  · rename_i da db
    have hunfailing₂ := (hstart.trans (hokA da rfl).1).trans (hokB db rfl).1
    split at h
    · cases h
      exact ⟨hnothing halike₂, fun _ _ => hunfailing₂⟩
    · cases hkA : Repair.bucketKeys (failing fate) depth (da.diff db) a b sB with
      | mk listedA tA =>
      cases hkB : Repair.bucketKeys (failing fate) depth (da.diff db) b a tA with
      | mk listedB tB =>
      simp only [hkA, hkB] at h
      obtain ⟨halikeA', hokA'⟩ := bucketKeys_failing hkA
      obtain ⟨halikeB', hokB'⟩ := bucketKeys_failing hkB
      have halike₃ := halike₂.trans halikeA'
      have halike₄ := halike₃.trans halikeB'
      split at h
      · cases h
        exact ⟨hnothing halike₄, fun _ h => by cases h⟩
      · cases h
        exact ⟨hnothing halike₄, fun _ h => by cases h⟩
      · rename_i ka kb
        obtain ⟨hunfailingA, hkeysA⟩ := hokA' ka rfl
        obtain ⟨hunfailingB, hkeysB⟩ := hokB' kb rfl
        rw [halike₂.replicas, halike₂.network.placement] at hkeysA
        rw [halike₃.replicas, halike₃.network.placement] at hkeysB
        have hdiffering := differing_of_listed hkeysA hkeysB
        split at h
        · rename_i e t hmend
          cases h
          have hpart := (partway_mendKeys (.of_alike halike₄) (List.Subset.refl _) hmend).1
          exact ⟨⟨_, hdiffering, hpart⟩, fun _ h => by cases h⟩
        · rename_i report t hmend
          cases h
          obtain ⟨hpart, hunfailing⟩ := partway_mendKeys (.of_alike halike₄) (List.Subset.refl _) hmend
          refine ⟨⟨_, hdiffering, hpart.alike (.count _ _ _)⟩, fun _ _ => ?_⟩
          exact hunfailing₂.trans (hunfailingA.trans (hunfailingB.trans ((hunfailing _ rfl).trans (.of_eq rfl))))

theorem failing_pass_safe (fate : Nat → Fate) (depth : Nat) (a b : NodeId) (c : Cluster) :
    let pass := Repair.syncPair (failing fate) depth a b ⟨c, 0⟩
    let d := pass.2.cluster
    ((∃ k < pass.2.calls, fate k ≠ .through) → ∃ e, pass.1 = .error e) ∧
    (∀ n key, (d.replica n).store.engine.get? key = (c.replica n).store.engine.get? key ∨
      (n = a ∨ n = b) ∧ c.placement.shared a b key = true ∧ c.Differing a b key ∧
        Version.Known ((d.replica n).store.held key) ((c.replica n).store.held key)) ∧
    (∀ n other, n = a ∧ other = b ∨ n = b ∧ other = a → ∀ key, ∀ v ∈ (d.replica n).store.held key,
      v ∉ (c.replica n).store.held key →
        v ∈ (c.replica other).store.held key ∨ v ∈ (c.replica other).hints.hinted key ∨
          v ∈ (c.replica n).hints.hinted key) ∧
    (∀ n, (d.replica n).hints = (c.replica n).hints) ∧
    ∀ n, n ≠ a → n ≠ b → d.replica n = c.replica n := by
  intro pass d
  have hpass : Repair.syncPair (failing fate) depth a b ⟨c, 0⟩ = (pass.1, pass.2) := rfl
  obtain ⟨⟨keys, hdiffering, hpart⟩, hunfailing⟩ := syncPair_failing hpass
  refine ⟨?_, fun n key => ?_, ?_, fun n => (hpart.within n).hints, hpart.others⟩
  · rintro ⟨k, hk, hfate⟩
    cases hresult : pass.1 with
    | error e => exact ⟨e, rfl⟩
    | ok report => exact absurd ((hunfailing report hresult).through k (Nat.zero_le k) hk) hfate
  · by_cases hkey : key ∈ keys
    · by_cases hn : n = a ∨ n = b
      · have hdiffers := hdiffering key hkey
        refine .inr ⟨hn, shared_of_differing hdiffers, hdiffers, ?_⟩
        refine Version.known_iff_covered.mpr fun v hv => hpart.covers n key v.vector ?_
        exact ⟨v, hv, v.vector.le_refl⟩
      · rw [not_or] at hn
        exact .inl (by rw [hpart.others n hn.1 hn.2])
    · exact .inl ((hpart.within n).elsewhere key hkey)
  · intro n other hpair key v hv hnew
    have hstock : v ∈ c.stock n key ∨ v ∈ c.stock other key := by
      rcases hpair with ⟨rfl, rfl⟩ | ⟨rfl, rfl⟩
      · exact (hpart.among n key v hv).resolve_left hnew
      · exact ((hpart.among n key v hv).resolve_left hnew).symm
    rcases hstock with hown | hother
    · exact .inr (.inr ((List.mem_append.mp hown).resolve_left hnew))
    · exact (List.mem_append.mp hother).elim .inl fun hhinted => .inr (.inl hhinted)

end Cluster

namespace Parted

open Cluster

def diverged : Cluster :=
  .ofReplicas placement 1000 0 (.ofList
    [("A", ⟨.ofEngine (Engine.volatile.replace "m" [ours]), .volatile⟩),
     ("C", ⟨.ofEngine (Engine.volatile.replace "m" [theirs]), .volatile⟩)])

def cutShort (k : Nat) : Fate := if k = 7 then .refused (.unreachable "C") else .through

def halted : Except RepairError RepairReport × Interrupted :=
  Repair.syncPair (failing cutShort) 1 "A" "C" ⟨diverged, 0⟩

theorem second_push_refused : (∃ e, halted.1 = .error e) ∧
    (halted.2.cluster.replica "A").store.held "m" = [ours, theirs] ∧
    (halted.2.cluster.replica "C").store.held "m" = [theirs] ∧
    Version.Known ((halted.2.cluster.replica "A").store.held "m") ((diverged.replica "A").store.held "m") := by
  obtain ⟨hends, hkept, -⟩ := failing_pass_safe cutShort 1 "A" "C" diverged
  rw [← halted] at hends hkept
  obtain ⟨hcalls, hchanged, hheld⟩ : 7 < halted.2.calls ∧
      (halted.2.cluster.replica "A").store.engine.get? "m" ≠
        (diverged.replica "A").store.engine.get? "m" ∧
      (halted.2.cluster.replica "A").store.held "m" = [ours, theirs] ∧
      (halted.2.cluster.replica "C").store.held "m" = [theirs] := by decide +kernel
  exact ⟨hends ⟨7, hcalls, by decide⟩, hheld.1, hheld.2, ((hkept "A" "m").resolve_left hchanged).2.2.2⟩

end Parted

end QuorumStore
