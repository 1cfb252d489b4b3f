import QuorumStore.Cluster
import QuorumStore.Proofs.Survival

namespace QuorumStore.Cluster

@[simp, grind =] theorem contains_place (c : Cluster) (n m : NodeId) (r : Replica) :
    (c.place n r).replicas.contains m = c.replicas.contains m := by
  unfold place
  split
  · rename_i h
    by_cases hm : m = n
    · simp_all [SortedMap.contains]
    · simp [SortedMap.contains, hm]
  · rfl

@[simp, grind =] theorem replica_place (c : Cluster) (n m : NodeId) (r : Replica) :
    (c.place n r).replica m = if m = n ∧ c.replicas.contains n then r else c.replica m := by
  unfold place
  split
  · rename_i h
    by_cases hm : m = n <;> simp [replica, h, hm]
  · rename_i h
    simp [h]

theorem of_place {P : Replica → Prop} {c : Cluster} {n m : NodeId} {r : Replica}
    (h : P (c.replica m)) (hr : m = n → P r) : P ((c.place n r).replica m) := by
  rw [replica_place]
  split
  · rename_i hm
    exact hr hm.1
  · exact h

structure SameNetwork (c d : Cluster) : Prop where
  placement : d.placement = c.placement
  clock : d.clock = c.clock
  conditions : d.conditions = c.conditions
  latency : d.latency = c.latency
  lossy : d.lossy = c.lossy
  race : d.race = c.race
  contains : ∀ m, d.replicas.contains m = c.replicas.contains m

theorem SameNetwork.condition {c d : Cluster} (h : SameNetwork c d) (n : NodeId) :
    d.condition n = c.condition n := by
  rw [Cluster.condition, h.conditions]
  rfl

structure Honest (c : Cluster) : Prop where
  lies : ∀ n, (c.condition n).lies = []
  race : c.race = none

theorem Honest.sameNetwork {c d : Cluster} (hc : c.Honest) (h : SameNetwork c d) : d.Honest :=
  ⟨fun n => by rw [h.condition, hc.lies], by rw [h.race, hc.race]⟩

theorem honest_ofReplicas (p : Placement) (t : Nat) (clock : UInt64)
    (replicas : SortedMap NodeId Replica) : (ofReplicas p t clock replicas).Honest :=
  ⟨fun _ => rfl, rfl⟩

def Refuses (c : Cluster) (n : NodeId) : Prop :=
  c.isRegistered n = false ∨ c.isUp n = false ∨ (c.condition n).cutOff = true ∨ c.lossy = true

structure Reached (c : Cluster) (n : NodeId) : Prop where
  registered : c.isRegistered n = true
  up : c.isUp n = true
  uncut : (c.condition n).cutOff = false
  lossless : c.lossy = false

theorem refuses_or_reached (c : Cluster) (n : NodeId) : c.Refuses n ∨ c.Reached n := by
  by_cases h : c.Refuses n
  · exact .inl h
  · simp only [Refuses, not_or, Bool.not_eq_false, Bool.not_eq_true] at h
    exact .inr ⟨h.1, h.2.1, h.2.2.1, h.2.2.2⟩

structure Serves (c : Cluster) (n : NodeId) : Prop where
  reached : c.Reached n
  prompt : (c.condition n).stalled = false

theorem overtake_of_race_none {c : Cluster} (h : c.race = none) (n : NodeId) (request : Request) :
    c.overtake n request = c := by
  unfold overtake
  split
  · rename_i hrace
    rw [h] at hrace
    cases hrace
  · rfl

theorem isRegistered_contains {c : Cluster} {n : NodeId} (h : c.isRegistered n = true) :
    c.replicas.contains n = true := by
  simp only [isRegistered, Bool.and_eq_true] at h
  exact h.1

def became (c : Cluster) (n : NodeId) (r : Replica) (tally : Tally) : Cluster :=
  { c with replicas := c.replicas.insert n r, tally }

@[simp, grind =] theorem replica_became (c : Cluster) (n m : NodeId) (r : Replica) (tally : Tally) :
    (c.became n r tally).replica m = if m = n then r else c.replica m := by
  by_cases hm : m = n <;> simp [replica, became, hm]

theorem sameNetwork_became {c : Cluster} {n : NodeId} (h : c.isRegistered n = true) (r : Replica)
    (tally : Tally) : c.SameNetwork (c.became n r tally) := by
  refine ⟨rfl, rfl, rfl, rfl, rfl, rfl, fun m => ?_⟩
  have hcontains := isRegistered_contains h
  by_cases hm : m = n <;> simp_all [became, SortedMap.contains]

theorem sameNetwork_tally (c : Cluster) (tally : Tally) : c.SameNetwork { c with tally } :=
  ⟨rfl, rfl, rfl, rfl, rfl, rfl, fun _ => rfl⟩

theorem handle_eq {c : Cluster} {n : NodeId} (h : c.isRegistered n = true) (request : Request) :
    ∃ tally, c.handle n request =
      (((c.replica n).handle c.placement n c.clock request).1,
       c.became n ((c.replica n).handle c.placement n c.clock request).2 tally) := by
  simp only [handle, place, if_pos (isRegistered_contains h)]
  by_cases hk : request.kind = .putHinted
  · rw [if_pos hk]
    exact ⟨_, rfl⟩
  · rw [if_neg hk]
    exact ⟨_, rfl⟩

theorem send_of_refuses {c : Cluster} (hc : c.Honest) {n : NodeId} (h : c.Refuses n)
    (request : Request) :
    ∃ e tally, send n request c =
      (⟨.error e, (c.condition n).delay + if (c.condition n).cutOff then 0 else c.latency⟩,
       { c with tally }) := by
  simp only [send, overtake_of_race_none hc.race, hc.lies, List.not_mem_nil, if_false]
  split
  · exact ⟨_, _, rfl⟩
  · rename_i hcut
    split
    · exact ⟨_, _, rfl⟩
    · rename_i hlossy
      have hgone : (!c.isRegistered n || !c.isUp n) = true := by
        rcases h with h | h | h | h
        · simp [h]
        · simp [h]
        · exact absurd h hcut
        · exact absurd h hlossy
      have hreach : ∀ d : Cluster, d.isRegistered n = c.isRegistered n → d.isUp n = c.isUp n →
          d.reach n request = (⟨.error (.unreachable n), 0⟩, d) := by
        intro d hr hu
        rw [reach, hr, hu, if_pos hgone]
      rw [reachCounted, hreach (c.count _ 1) rfl rfl]
      exact ⟨_, _, rfl⟩

theorem reach_cases (c : Cluster) (n : NodeId) (request : Request) :
    (∃ e delay, c.reach n request = (⟨.error e, delay⟩, c)) ∨
    (∃ tally, c.isRegistered n = true ∧ c.reach n request =
      (⟨((c.replica n).handle c.placement n c.clock request).1.mapError
          (fun e => .failed n e.message), 0⟩,
       c.became n ((c.replica n).handle c.placement n c.clock request).2 tally)) := by
  unfold reach
  split
  · exact .inl ⟨_, _, rfl⟩
  · rename_i hreach
    split
    · exact .inl ⟨_, _, rfl⟩
    · have hreg : c.isRegistered n = true := by
        simp only [Bool.or_eq_true, Bool.not_eq_true', not_or, Bool.not_eq_false] at hreach
        exact hreach.1
      obtain ⟨tally, hhandle⟩ := handle_eq hreg request
      rw [hhandle]
      exact .inr ⟨tally, hreg, rfl⟩

theorem send_of_reached {c : Cluster} (hc : c.Honest) {n : NodeId} (h : c.Reached n)
    {request : Request} (hprompt : ((c.condition n).stalled && request.usesStore) = false) :
    ∃ tally, send n request c =
      (⟨((c.replica n).handle c.placement n c.clock request).1.mapError
          (fun e => .failed n e.message), (c.condition n).delay + c.latency⟩,
       c.became n ((c.replica n).handle c.placement n c.clock request).2 tally) := by
  have hreach : ∀ d : Cluster, d.isRegistered n = true → d.isUp n = true →
      ((d.condition n).stalled && request.usesStore) = false → d.reach n request =
        (⟨(d.handle n request).1.mapError (fun e => .failed n e.message), 0⟩,
         (d.handle n request).2) := by
    intro d hr hu hs
    simp [reach, hr, hu, hs]
  obtain ⟨tally, hhandle⟩ := handle_eq (c := c.count (.sent request.kind) 1) h.registered request
  simp only [send, overtake_of_race_none hc.race, hc.lies, List.not_mem_nil, if_false, h.uncut,
    h.lossless, Bool.false_eq_true, reachCounted,
    hreach (c.count (.sent request.kind) 1) h.registered h.up hprompt, hhandle]
  split
  · exact ⟨_, rfl⟩
  · exact ⟨_, rfl⟩

theorem send_of_stalled {c : Cluster} (hc : c.Honest) {n : NodeId} (h : c.Reached n)
    {request : Request} (hstalled : ((c.condition n).stalled && request.usesStore) = true) :
    (send n request c).1.answer = .error (.timeout n) := by
  have hreach : ∀ d : Cluster, d.isRegistered n = true → d.isUp n = true →
      ((d.condition n).stalled && request.usesStore) = true →
        d.reach n request = (⟨.error (.timeout n), d.callTimeout⟩, d) := by
    intro d hr hu hs
    simp [reach, hr, hu, hs]
  simp only [send, overtake_of_race_none hc.race, hc.lies, List.not_mem_nil, if_false, h.uncut,
    h.lossless, Bool.false_eq_true, reachCounted,
    hreach (c.count (.sent request.kind) 1) h.registered h.up hstalled]

theorem send_of_serves {c : Cluster} (hc : c.Honest) {n : NodeId} (h : c.Serves n)
    (request : Request) :
    ∃ tally, send n request c =
      (⟨((c.replica n).handle c.placement n c.clock request).1.mapError
          (fun e => .failed n e.message), (c.condition n).delay + c.latency⟩,
       c.became n ((c.replica n).handle c.placement n c.clock request).2 tally) :=
  send_of_reached hc h.reached (by rw [h.prompt, Bool.false_and])

theorem send_cases {c : Cluster} (hc : c.Honest) (n : NodeId) (request : Request) :
    (∃ e delay tally, send n request c = (⟨.error e, delay⟩, { c with tally })) ∨
    (∃ delay tally, c.isRegistered n = true ∧ send n request c =
      (⟨((c.replica n).handle c.placement n c.clock request).1.mapError
          (fun e => .failed n e.message), delay⟩,
       c.became n ((c.replica n).handle c.placement n c.clock request).2 tally)) := by
  simp only [send, overtake_of_race_none hc.race, hc.lies, List.not_mem_nil, if_false]
  split
  · exact .inl ⟨_, _, c.tally, rfl⟩
  · split
    · exact .inl ⟨_, _, c.tally, rfl⟩
    · rcases reach_cases (c.count (.sent request.kind) 1) n request with
        ⟨e, delay, h⟩ | ⟨tally, hreg, h⟩
      · refine .inl ⟨e, (c.condition n).delay + c.latency + delay, ?_, ?_⟩
        rotate_left
        · rw [reachCounted, h]
          rfl
      · refine .inr ?_
        simp only [reachCounted, h]
        split
        · exact ⟨_, _, hreg, rfl⟩
        · exact ⟨_, _, hreg, rfl⟩

theorem sameNetwork_send (n : NodeId) (request : Request) {c : Cluster} (hc : c.Honest) :
    SameNetwork c (send n request c).2 := by
  rcases send_cases hc n request with ⟨_, _, tally, h⟩ | ⟨_, tally, hreg, h⟩
  · rw [h]
    exact sameNetwork_tally c tally
  · rw [h]
    exact sameNetwork_became hreg _ tally

theorem change_send {c : Cluster} (hc : c.Honest) (m n : NodeId) (request : Request) :
    (c.replica n).Change request ((send m request c).2.replica n) := by
  rcases send_cases hc m request with ⟨_, _, tally, heq⟩ | ⟨_, tally, _, heq⟩
  · rw [heq]
    exact .none request
  · rw [heq, replica_became]
    split
    · rename_i hn
      exact hn ▸ Replica.handle_change request
    · exact .none request

theorem handled_of_send {c : Cluster} (hc : c.Honest) {n : NodeId} {request : Request}
    {response : Response} (h : (send n request c).1.answer = .ok response) :
    ((c.replica n).handle c.placement n c.clock request).1 = .ok response ∧
      (send n request c).2.replica n =
        ((c.replica n).handle c.placement n c.clock request).2 := by
  rcases send_cases hc n request with ⟨_, _, tally, heq⟩ | ⟨_, tally, _, heq⟩
  · rw [heq] at h
    cases h
  · cases hhandle : ((c.replica n).handle c.placement n c.clock request).1 with
    | error e =>
      rw [heq, hhandle] at h
      cases h
    | ok r =>
      rw [heq, hhandle] at h
      cases h
      simp [heq]

def Covers (n : NodeId) (key : Key) (w : VersionVector) (c : Cluster) : Prop :=
  Version.Covered ((c.replica n).store.held key) w

theorem covers_send {n : NodeId} {key : Key} {w : VersionVector} {c : Cluster} (hc : c.Honest)
    (m : NodeId) (request : Request) (h : Covers n key w c) :
    Covers n key w (send m request c).2 :=
  (change_send hc m n request).covered h

theorem covers_of_send_put {n : NodeId} {key : Key} {v : Version} {c : Cluster} {response : Response}
    (hc : c.Honest) (h : (send n (.put key v) c).1.answer = .ok response) :
    Covers n key v.vector (send n (.put key v) c).2 := by
  obtain ⟨hput, hreplica⟩ := handled_of_send hc h
  rw [Covers, hreplica]
  exact Replica.covered_of_handle_put hput

theorem covered_of_send_get {n : NodeId} {key : Key} {c : Cluster} {vs : List Version}
    (hc : c.Honest) (h : (send n (.get key) c).1.answer = .ok (.versions vs)) (w : VersionVector) :
    Version.Covered vs w ↔ Covers n key w c ∨ Version.Covered ((c.replica n).hints.hinted key) w := by
  obtain ⟨us, hus, hcovered⟩ := Replica.covered_of_handle_get (handled_of_send hc h).1
  cases hus
  exact hcovered w

end QuorumStore.Cluster
