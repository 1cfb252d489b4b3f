import QuorumStore.Proofs.Landing
import QuorumStore.Proofs.StableFailures

namespace QuorumStore

theorem SortedMap.get?_ofList_map {α : Type} (f : NodeId → α) (ns : List NodeId) (n : NodeId) :
    (SortedMap.ofList (ns.map (fun m => (m, f m)))).get? n = if n ∈ ns then some (f n) else none := by
  rw [SortedMap.get?_ofList]
  cases hlast : (ns.map (fun m => (m, f m))).reverse.find? (fun e => decide (n = e.1)) with
  | none =>
    have hfree : ∀ m ∈ ns, ¬ n = m := by simpa using hlast
    have hmem : n ∉ ns := fun h => hfree n h rfl
    simp [hmem]
  | some e =>
    obtain ⟨m, hm, rfl⟩ : ∃ m ∈ ns, (m, f m) = e := by simpa using List.mem_of_find?_eq_some hlast
    obtain rfl : n = m := by simpa using List.find?_some hlast
    simp [hm]

namespace Cluster

variable {nodes : List NodeId} {key : Key} {c d : Cluster} {n x : NodeId}

structure Calm (nodes : List NodeId) (c : Cluster) : Prop where
  race : c.race = none
  latency : c.latency = 0
  lossy : c.lossy = false
  condition : ∀ n, c.condition n = { down := (c.condition n).down }
  registered : ∀ n, c.replicas.contains n = true ↔ n ∈ nodes
  intact : ∀ n, (c.replica n).store.damaged = []

@[simp] theorem replica_ofNodes (p : Placement) (t : Nat) (clock : UInt64) (ns : List NodeId) (n : NodeId) :
    (ofNodes p t clock ns).replica n = .volatile := by
  rw [replica, ofNodes, ofReplicas, SortedMap.get?_ofList_map]
  split <;> simp

theorem calm_ofNodes (p : Placement) (t : Nat) (clock : UInt64) (ns : List NodeId) :
    Calm ns (ofNodes p t clock ns) := by
  refine ⟨rfl, rfl, rfl, fun _ => rfl, fun n => ?_, fun n => ?_⟩
  · rw [SortedMap.contains, ofNodes, ofReplicas, SortedMap.get?_ofList_map]
    split <;> simp [*]
  · rw [replica_ofNodes]
    rfl

namespace Calm

theorem honest (h : Calm nodes c) : c.Honest :=
  ⟨fun n => by rw [h.condition n], h.race⟩

theorem serves (h : Calm nodes c) (hn : n ∈ nodes) (hup : c.isUp n = true) : c.Serves n := by
  refine ⟨⟨?_, hup, ?_, h.lossy⟩, ?_⟩
  · rw [isRegistered, (h.registered n).mpr hn, h.condition n]
    rfl
  · rw [h.condition n]
  · rw [h.condition n]

theorem refuses_of_not_mem (h : Calm nodes c) (hn : n ∉ nodes) : c.Refuses n := by
  have hcontains : c.replicas.contains n = false :=
    Bool.eq_false_iff.mpr fun hreg => hn ((h.registered n).mp hreg)
  refine .inl ?_
  rw [isRegistered, hcontains]
  rfl

theorem of_sameNetwork (h : Calm nodes c) (hd : c.SameNetwork d)
    (hintact : ∀ n, (d.replica n).store.damaged = []) : Calm nodes d := by
  refine ⟨hd.race.trans h.race, hd.latency.trans h.latency, hd.lossy.trans h.lossy, fun n => ?_,
    fun n => ?_, hintact⟩
  · rw [hd.condition]
    exact h.condition n
  · rw [hd.contains]
    exact h.registered n

theorem send (h : Calm nodes c) (n : NodeId) (request : Request) :
    Calm nodes (Cluster.send n request c).2 := by
  refine h.of_sameNetwork (sameNetwork_send n request h.honest) fun m => ?_
  rw [(change_send h.honest n m request).damaged, h.intact]

theorem preserves (nodes : List NodeId) : network.Preserves (Calm nodes) where
  send n request _ h := h.send n request
  count _ _ _ h := ⟨h.race, h.latency, h.lossy, h.condition, h.registered, h.intact⟩

theorem alter (h : Calm nodes c) (n : NodeId) (down : Bool) :
    Calm nodes (c.alter n fun k => { k with down }) := by
  refine ⟨h.race, h.latency, h.lossy, fun m => ?_, h.registered, h.intact⟩
  rw [condition_alter]
  split
  · rw [h.condition n]
  · exact h.condition m

theorem befall_fares (h : Calm nodes c) (n : NodeId) (down : Bool) :
    Incident.befall c (.fares n { down }) = c.alter n fun k => { k with down } := by
  rw [Incident.befall, Cluster.alter, Cluster.alter, h.condition n]

theorem steady (h : Calm nodes c) (key : Key) :
    Steady (fun n => decide (n ∈ nodes) && c.isUp n) key c := by
  refine ⟨fun n hn => ?_, fun n hn => ?_⟩
  · obtain ⟨hmem, hup⟩ := Bool.and_eq_true_iff.mp hn
    refine ⟨h.serves (of_decide_eq_true hmem) hup, ?_⟩
    rw [h.intact n]
    exact List.not_mem_nil
  · rcases Bool.and_eq_false_iff.mp hn with hmem | hdown
    · exact h.refuses_of_not_mem (of_decide_eq_false hmem)
    · exact .inr (.inl hdown)

theorem isOk_send (h : Calm nodes c) (hn : n ∈ nodes) (hup : c.isUp n = true) {request : Request}
    (habout : request.about key) : (Cluster.send n request c).1.answer.isOk = true := by
  rw [Cluster.isOk_send h.honest (h.steady key) n habout, hup, decide_eq_true hn]
  rfl

theorem versions_send (h : Calm nodes c) (hn : n ∈ nodes) (hup : c.isUp n = true) (key : Key) :
    ∃ vs, (Cluster.send n (.get key) c).1.answer = .ok (.versions vs) :=
  versions_of_up h.honest (h.steady key) (Bool.and_eq_true_iff.mpr ⟨decide_eq_true hn, hup⟩)

theorem delay_send (h : Calm nodes c) (n : NodeId) (request : Request) :
    (Cluster.send n request c).1.delay = 0 := by
  have hdelay : (c.condition n).delay = 0 := by rw [h.condition n]
  rcases c.refuses_or_reached n with hrefuses | hreached
  · obtain ⟨e, tally, heq⟩ := send_of_refuses h.honest hrefuses request
    rw [heq]
    dsimp only
    rw [hdelay, h.latency, ite_self]
  · have hprompt : ((c.condition n).stalled && request.usesStore) = false := by
      rw [h.condition n]
      rfl
    obtain ⟨tally, heq⟩ := send_of_reached h.honest hreached hprompt
    rw [heq]
    dsimp only
    rw [hdelay, h.latency]

end Calm

@[simp] theorem network_send (n : NodeId) (request : Request) (c : Cluster) :
    network.send n request c = send n request c :=
  rfl

theorem SameNetwork.trans {e : Cluster} (h : SameNetwork c d) (h' : SameNetwork d e) :
    SameNetwork c e :=
  ⟨h'.placement.trans h.placement, h'.clock.trans h.clock, h'.conditions.trans h.conditions,
    h'.latency.trans h.latency, h'.lossy.trans h.lossy, h'.race.trans h.race,
    fun n => (h'.contains n).trans (h.contains n)⟩

theorem SameNetwork.symm (h : SameNetwork c d) : SameNetwork d c :=
  ⟨h.placement.symm, h.clock.symm, h.conditions.symm, h.latency.symm, h.lossy.symm, h.race.symm,
    fun n => (h.contains n).symm⟩

theorem SameNetwork.isUp (h : SameNetwork c d) (n : NodeId) : d.isUp n = c.isUp n := by
  rw [Cluster.isUp, h.condition]
  rfl

theorem SameNetwork.refuses (h : SameNetwork c d) (hn : c.Refuses n) : d.Refuses n := by
  rwa [Refuses, isRegistered, h.contains, h.isUp, h.condition, h.lossy]

theorem SameNetwork.serves (h : SameNetwork c d) (hn : c.Serves n) : d.Serves n := by
  obtain ⟨⟨hregistered, hup, huncut, hlossless⟩, hprompt⟩ := hn
  refine ⟨⟨?_, ?_, ?_, ?_⟩, ?_⟩
  · rw [isRegistered, h.contains, h.condition]
    exact hregistered
  · rw [h.isUp, hup]
  · rw [h.condition, huncut]
  · rw [h.lossy, hlossless]
  · rw [h.condition, hprompt]

theorem replica_send_get (hc : c.Honest) (n m : NodeId) :
    (send n (.get key) c).2.replica m = c.replica m := by
  rcases send_cases hc n (.get key) with ⟨_, _, tally, heq⟩ | ⟨_, tally, _, heq⟩
  · rw [heq]
    rfl
  · by_cases hm : m = n <;> simp [heq, hm, Replica.handle]

theorem preserves_sameNetwork (nodes : List NodeId) (c₀ : Cluster) :
    network.Preserves (fun c => Calm nodes c ∧ c₀.SameNetwork c) where
  send n request c := by
    rintro ⟨hc, hsame⟩
    exact ⟨hc.send n request, hsame.trans (sameNetwork_send n request hc.honest)⟩
  count m k c := by
    rintro ⟨hc, hsame⟩
    exact ⟨(Calm.preserves nodes).count m k hc, hsame.trans (sameNetwork_tally c _)⟩

def Blank (c : Cluster) : Prop := ∀ n, c.Refuses n ∨ c.replica n = .volatile

theorem reads_blank (nodes : List NodeId) (key : Key) :
    ReadRound.Reads network key (fun c => Calm nodes c ∧ Blank c)
      (fun _ vs => ∀ v ∈ vs, False) where
  keeps n c := by
    rintro ⟨hc, hblank⟩
    refine ⟨hc.send n (.get key), fun m => ?_⟩
    refine (hblank m).imp (sameNetwork_send n (.get key) hc.honest).refuses fun hm => ?_
    exact (replica_send_get hc.honest n m).trans hm
  good n c vs := by
    rintro ⟨hc, hblank⟩ hvs
    rcases hblank n with hrefuses | hvolatile
    · obtain ⟨e, tally, heq⟩ := send_of_refuses hc.honest hrefuses (.get key)
      simp [heq] at hvs
    · have hget := (handled_of_send hc.honest hvs).1
      rw [hvolatile] at hget
      cases hget
      exact fun _ h => nomatch h

def Alone (x : NodeId) (c : Cluster) : Prop := ∀ n, n ≠ x → c.Refuses n

theorem preserves_refusing (nodes : List NodeId) (c₀ : Cluster) :
    network.Preserves (fun c => (Calm nodes c ∧ c₀.SameNetwork c) ∧
      ∀ m, c₀.Refuses m → c.replica m = c₀.replica m) where
  send n request c := by
    rintro ⟨⟨hc, hnetwork⟩, hsame⟩
    refine ⟨(preserves_sameNetwork nodes c₀).send n request ⟨hc, hnetwork⟩, fun m hm => ?_⟩
    refine Eq.trans ?_ (hsame m hm)
    by_cases hmn : m = n
    · subst hmn
      obtain ⟨e, tally, hfail⟩ := send_of_refuses hc.honest (hnetwork.refuses hm) request
      rw [network_send, hfail]
      rfl
    · rcases send_cases hc.honest n request with ⟨_, _, tally, heq⟩ | ⟨_, tally, _, heq⟩
      · rw [network_send, heq]
        rfl
      · simp [heq, hmn]
  count m k c := by
    rintro ⟨hc, hsame⟩
    exact ⟨(preserves_sameNetwork nodes c₀).count m k hc, hsame⟩

theorem refuses_alter_of_ne {f : Condition → Condition} {m : NodeId} (hm : m ≠ n) (h : c.Refuses m) :
    (c.alter n f).Refuses m := by
  simpa [Refuses, hm] using h

theorem alone_of_down (hc : Calm nodes c) (h : ∀ n ∈ nodes, n ≠ x → c.isUp n = false) : Alone x c := by
  intro n hn
  by_cases hmem : n ∈ nodes
  · exact .inr (.inl (h n hmem hn))
  · exact hc.refuses_of_not_mem hmem

end Cluster

end QuorumStore
