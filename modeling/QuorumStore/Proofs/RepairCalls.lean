import QuorumStore.Proofs.Convergence
import QuorumStore.Proofs.CalmCluster

namespace QuorumStore

namespace Cluster

variable {c c' : Cluster} {n : NodeId} {request : Request}

structure Hears (c : Cluster) (n : NodeId) (kind : RequestKind) : Prop where
  serves : c.Serves n
  truthful : kind ∉ (c.condition n).lies

structure Alike (c c' : Cluster) : Prop where
  network : c.SameNetwork c'
  replicas : ∀ m, c'.replica m = c.replica m

namespace Alike

theorem refl (c : Cluster) : c.Alike c :=
  ⟨sameNetwork_tally c c.tally, fun _ => rfl⟩

theorem trans {c'' : Cluster} (h : c.Alike c') (h' : c'.Alike c'') : c.Alike c'' :=
  ⟨h.network.trans h'.network, fun m => (h'.replicas m).trans (h.replicas m)⟩

theorem count (c : Cluster) (m : Meter) (k : Nat) : c.Alike (c.count m k) :=
  ⟨sameNetwork_tally c _, fun _ => rfl⟩

end Alike

theorem overtake_of_ne_handoff (h : request.kind ≠ .handoff) : c.overtake n request = c := by
  cases request with
  | handoff key vs => exact absurd rfl h
  | _ => rfl

theorem send_eq (hkind : request.kind ≠ .handoff) :
    send n request c =
      if request.kind ∈ (c.condition n).lies then (⟨.ok .ack, (c.condition n).delay⟩, c)
      else if (c.condition n).cutOff then (⟨.error (.unreachable n), (c.condition n).delay⟩, c)
      else if c.lossy then
        (⟨.error (.failed n "chaos: random failure"), (c.condition n).delay + c.latency⟩, c)
      else
        ({ (c.reachCounted n request).1 with
            delay := (c.condition n).delay + (c.reachCounted n request).2.latency +
              (c.reachCounted n request).1.delay },
         (c.reachCounted n request).2) := by
  simp only [send, overtake_of_ne_handoff hkind]

theorem send_of_hears (h : c.Hears n request.kind) (hkind : request.kind ≠ .handoff) :
    ∃ delay tally, send n request c =
      (⟨((c.replica n).handle c.placement n c.clock request).1.mapError
          (fun e => .failed n e.message), delay⟩,
       c.became n ((c.replica n).handle c.placement n c.clock request).2 tally) := by
  obtain ⟨⟨⟨hregistered, hup, huncut, hlossless⟩, hprompt⟩, htruthful⟩ := h
  have hreach : (c.count (.sent request.kind) 1).reach n request =
      (⟨((c.count (.sent request.kind) 1).handle n request).1.mapError
          (fun e => .failed n e.message), 0⟩,
       ((c.count (.sent request.kind) 1).handle n request).2) := by
    have hgone : (!(c.count (.sent request.kind) 1).isRegistered n ||
        !(c.count (.sent request.kind) 1).isUp n) = false := by
      rw [show (c.count (.sent request.kind) 1).isRegistered n = c.isRegistered n from rfl,
        show (c.count (.sent request.kind) 1).isUp n = c.isUp n from rfl, hregistered, hup]
      rfl
    have hstalled : (((c.count (.sent request.kind) 1).condition n).stalled &&
        request.usesStore) = false := by
      rw [show (c.count (.sent request.kind) 1).condition n = c.condition n from rfl, hprompt]
      rfl
    simp only [reach, hgone, hstalled, Bool.false_eq_true, if_false]
  obtain ⟨tally, hhandle⟩ := handle_eq (c := c.count (.sent request.kind) 1) hregistered request
  simp only [send_eq hkind, if_neg htruthful, huncut, hlossless, Bool.false_eq_true, if_false,
    reachCounted, hreach, hhandle]
  split
  · exact ⟨_, _, rfl⟩
  · exact ⟨_, _, rfl⟩

theorem hears_of_answer (hkind : request.kind ≠ .handoff) (hstore : request.usesStore = true)
    {response : Response} (h : (send n request c).1.answer = .ok response) (hack : response ≠ .ack) :
    c.Hears n request.kind := by
  rw [send_eq hkind] at h
  split at h
  · cases h
    exact absurd rfl hack
  · rename_i htruthful
    split at h
    · cases h
    · rename_i huncut
      split at h
      · cases h
      · rename_i hlossless
        dsimp only [reachCounted] at h
        unfold reach at h
        split at h
        · cases h
        · rename_i hthere
          split at h
          · cases h
          · rename_i hprompt
            simp only [Bool.or_eq_true, Bool.not_eq_true', not_or, Bool.not_eq_false] at hthere
            simp only [hstore, Bool.and_true, Bool.not_eq_true] at hprompt
            exact ⟨⟨⟨hthere.1, hthere.2, by simpa using huncut, by simpa using hlossless⟩, hprompt⟩,
              htruthful⟩

theorem answered_of_send (hkind : request.kind ≠ .handoff) (hstore : request.usesStore = true)
    {response : Response} (h : (send n request c).1.answer = .ok response) (hack : response ≠ .ack) :
    ((c.replica n).handle c.placement n c.clock request).1 = .ok response ∧
      ∃ tally, (send n request c).2 =
        c.became n ((c.replica n).handle c.placement n c.clock request).2 tally := by
  obtain ⟨delay, tally, hsend⟩ := send_of_hears (hears_of_answer hkind hstore h hack) hkind
  rw [hsend] at h ⊢
  refine ⟨?_, tally, rfl⟩
  cases hhandle : ((c.replica n).handle c.placement n c.clock request).1 with
  | error e =>
    rw [hhandle] at h
    cases h
  | ok r =>
    rw [hhandle] at h
    cases h
    rfl

theorem Hears.sameNetwork {kind : RequestKind} (h : c.Hears n kind) (hc : c.SameNetwork c') :
    c'.Hears n kind := by
  refine ⟨hc.serves h.serves, ?_⟩
  rw [hc.condition]
  exact h.truthful

theorem alike_became (h : c.isRegistered n = true) (tally : Tally) :
    c.Alike (c.became n (c.replica n) tally) := by
  refine ⟨sameNetwork_became h _ tally, fun m => ?_⟩
  by_cases hm : m = n <;> simp [hm]

variable {α : Type} {expect : Response → Option α} {a : α} {delay : Nat}

theorem call_eq_ok (hkind : request.kind ≠ .handoff) (hstore : request.usesStore = true)
    (hack : expect .ack = none) (h : Repair.call network n request expect c = (.ok a, delay, c')) :
    c.Hears n request.kind ∧ ∃ response tally,
      ((c.replica n).handle c.placement n c.clock request).1 = .ok response ∧
      expect response = some a ∧
      c' = c.became n ((c.replica n).handle c.placement n c.clock request).2 tally := by
  simp only [Repair.call, network_send] at h
  obtain ⟨hresult, -, hstate⟩ : _ ∧ _ ∧ _ := by simpa only [Prod.mk.injEq] using h
  split at hresult
  · cases hresult
  · rename_i response hanswer
    split at hresult
    · cases hresult
    · rename_i b hb
      cases hresult
      have hne : response ≠ .ack := by
        rintro rfl
        rw [hack] at hb
        cases hb
      obtain ⟨hhandle, tally, hsend⟩ := answered_of_send hkind hstore hanswer hne
      exact ⟨hears_of_answer hkind hstore hanswer hne, response, tally, hhandle, hb, hstate.symm.trans hsend⟩

theorem finding_eq_ok {found : Except ReplicaError α} {wrap : α → Response}
    (h : Repair.call network n request expect c = (.ok a, delay, c'))
    (hkind : request.kind ≠ .handoff) (hstore : request.usesStore = true) (hack : expect .ack = none)
    (hwrap : ∀ a, expect (wrap a) = some a)
    (hhandle : (c.replica n).handle c.placement n c.clock request = (found.map wrap, c.replica n)) :
    c.Hears n request.kind ∧ found = .ok a ∧ c.Alike c' := by
  obtain ⟨hhears, response, tally, hanswer, hexpect, heq⟩ := call_eq_ok hkind hstore hack h
  rw [hhandle] at hanswer heq
  refine ⟨hhears, ?_, heq ▸ alike_became hhears.serves.reached.registered tally⟩
  cases found with
  | error e => cases hanswer
  | ok b =>
    cases hanswer
    exact congrArg Except.ok (Option.some.inj ((hwrap b).symm.trans hexpect))

theorem digest_eq_ok {depth : Nat} {peer : NodeId} {d : Digest}
    (h : Repair.digest network depth n peer c = (.ok d, c')) :
    c.Hears n .digest ∧ (c.replica n).digest c.placement n peer depth = .ok d ∧ c.Alike c' := by
  rw [Repair.digest] at h
  split at h
  rename_i hcall
  cases h
  exact finding_eq_ok hcall nofun rfl rfl (fun _ => rfl) rfl

theorem digest_of_hears {depth : Nat} {peer : NodeId} {d : Digest} (h : c.Hears n .digest)
    (hdigest : (c.replica n).digest c.placement n peer depth = .ok d) :
    ∃ c', Repair.digest network depth n peer c = (.ok d, c') ∧ c.Alike c' := by
  have hhandle : ((c.replica n).handle c.placement n c.clock (.digest peer depth)).1 =
      .ok (.digest d) := by
    simp only [Replica.handle, hdigest]
    rfl
  have hkind : (Request.digest peer depth).kind ≠ .handoff := by simp [Request.kind]
  obtain ⟨delay, tally, hsend⟩ := send_of_hears h hkind
  refine ⟨_, ?_, alike_became h.serves.reached.registered tally⟩
  simp only [Repair.digest, Repair.call, network_send, hsend, hhandle, Except.mapError]
  rfl

theorem bucketKeys_eq_ok {depth : Nat} {buckets : List Nat} {peer : NodeId}
    {keys : SortedMap Key Hash}
    (h : Repair.bucketKeys network depth buckets n peer c = (.ok keys, c')) :
    (c.replica n).bucketKeys c.placement n peer depth buckets = .ok keys ∧ c.Alike c' := by
  rw [Repair.bucketKeys] at h
  split at h
  rename_i hcall
  cases h
  exact (finding_eq_ok hcall nofun rfl rfl (fun _ => rfl) rfl).2

theorem versions_eq_ok {key : Key} {vs : List Version}
    (h : Repair.versions network key n c = (.ok vs, c')) :
    (c.replica n).read key = .ok vs ∧ c.Alike c' := by
  rw [Repair.versions] at h
  split at h
  rename_i hcall
  cases h
  exact (finding_eq_ok hcall nofun rfl rfl (fun _ => rfl) rfl).2

theorem push_eq_ok {key : Key} {vs : List Version} {changed : Bool}
    (h : Repair.push network key vs n c = (.ok changed, delay, c')) :
    c.SameNetwork c' ∧
      ∀ m, c'.replica m = if m = n then ((c.replica n).merge key vs).2 else c.replica m := by
  obtain ⟨hhears, response, tally, hhandle, hexpect, rfl⟩ :=
    call_eq_ok (by simp [Request.kind]) rfl rfl h
  exact ⟨sameNetwork_became hhears.serves.reached.registered _ tally,
    fun m => replica_became c n m _ tally⟩

end Cluster

end QuorumStore
