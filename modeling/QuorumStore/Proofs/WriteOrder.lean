import QuorumStore.Proofs.StrictQuorum
import QuorumStore.Proofs.StrictRounds
import QuorumStore.Proofs.WriteIdentity

namespace QuorumStore

open Cluster

def Cluster.Environment.Unreliable (e : Environment) : Prop :=
  ∀ n down, e.allows (.fares n { down })

structure Issue (e : Environment) where
  coordinator : NodeId
  payload : Payload
  context : VersionVector
  before : List e.Event
  during : Nat → List e.Event

structure Acknowledged where
  heard : Nat
  vector : VersionVector
  deriving DecidableEq

def Ascending (acks : List Acknowledged) : Prop :=
  acks.Pairwise fun a b => b.vector.compare a.vector = .dominates

instance : DecidablePred Ascending := fun acks =>
  inferInstanceAs (Decidable (acks.Pairwise fun a b => b.vector.compare a.vector = .dominates))

theorem not_ascending_of_same (V : VersionVector) (a b : Nat) : ¬ Ascending [⟨a, V⟩, ⟨b, V⟩] := by
  intro h
  have hboth := (List.pairwise_cons.mp h).1 _ (List.mem_singleton_self _)
  rw [VersionVector.compare_self] at hboth
  cases hboth

namespace Coordinator

variable {σ : Type} {net : Network σ} {c : Coordinator} {key : Key} {payload : Payload}
  {context : VersionVector}

def heard (net : Network σ) (c : Coordinator) (key : Key) (payload : Payload) (s : σ) : Nat :=
  match c.ring.replicas key c.quorum.n with
  | .error _ => 0
  | .ok replicas => (c.surveying net key payload replicas s).1.successes

theorem heard_eq {replicas : List NodeId} (h : c.ring.replicas key c.quorum.n = .ok replicas) (s : σ) :
    c.heard net key payload s = (c.surveying net key payload replicas s).1.successes := by
  rw [heard, h]

end Coordinator

namespace Deployment

variable {e : Environment} {d : Deployment} {key : Key} {c : Cluster} {w : VersionVector}

def attempt (d : Deployment) (key : Key) (i : Issue e) (c : Cluster) :
    Except StoreFailure WriteAck × Interrupted :=
  (d.coordinator i.coordinator).write (interrupted i.during) key i.payload i.context
    ⟨happen i.before c, 0⟩

def issue (d : Deployment) (key : Key) (i : Issue e) (c : Cluster) : Option Acknowledged × Cluster :=
  let (result, s) := d.attempt key i c
  (result.toOption.map fun ack =>
    ⟨(d.coordinator i.coordinator).heard (interrupted i.during) key i.payload ⟨happen i.before c, 0⟩,
      ack.vector⟩, s.cluster)

def acknowledged (d : Deployment) (key : Key) : List (Issue e) → Cluster → List Acknowledged
  | [], _ => []
  | i :: is, c => (d.issue key i c).1.toList ++ d.acknowledged key is (d.issue key i c).2

def Held (d : Deployment) (key : Key) (w : VersionVector) (c : Cluster) : Prop :=
  ∃ replicas holders, d.ring.replicas key d.quorum.n = .ok replicas ∧ holders.Nodup ∧
    holders ⊆ replicas ∧ d.quorum.w ≤ holders.length ∧ ∀ n ∈ holders, Covers n key w c

theorem held_run {c' : Cluster} (hrun : e.Run c c') (hc : c.Honest) (h : d.Held key w c) :
    d.Held key w c' := by
  obtain ⟨replicas, holders, hreplicas, hnodup, hsub, hmany, hcovers⟩ := h
  refine ⟨replicas, holders, hreplicas, hnodup, hsub, hmany, fun n hn => ?_⟩
  exact ((covers_befall e n key w).run hrun ⟨hc, hcovers n hn⟩).2

theorem issue_eq_some {i : Issue e} {a : Acknowledged} (h : (d.issue key i c).1 = some a) :
    ∃ ack, d.attempt key i c = (.ok ack, (d.attempt key i c).2) ∧ ack.vector = a.vector ∧
      (d.coordinator i.coordinator).heard (interrupted i.during) key i.payload
        ⟨happen i.before c, 0⟩ = a.heard := by
  rw [issue] at h
  rcases hattempt : d.attempt key i c with ⟨result, s⟩
  rw [hattempt] at h
  cases result with
  | error failure => cases h
  | ok ack =>
    cases h
    exact ⟨ack, rfl, rfl, rfl⟩

theorem run_issue (i : Issue e) (c : Cluster) : e.Run c (d.issue key i c).2 :=
  ((e.keeps_run c).happen i.before .refl).trans
    (run_write i.during (d.coordinator i.coordinator) key ⟨happen i.before c, 0⟩ i.payload i.context)

theorem held_issue (hstrict : d.quorum.sloppy = false) (hc : c.Honest) {i : Issue e} {a : Acknowledged}
    (h : (d.issue key i c).1 = some a) : d.Held key a.vector (d.issue key i c).2 := by
  obtain ⟨ack, hattempt, hvector, -⟩ := issue_eq_some h
  rw [← hvector]
  exact Coordinator.strict_write_held hstrict ((honest_befall e).happen i.before hc) hattempt

theorem issue_above (hstrict : d.quorum.sloppy = false) (hc : c.Honest) (hw : d.Held key w c)
    {i : Issue e} {a : Acknowledged} (h : (d.issue key i c).1 = some a)
    (hmany : d.quorum.n < d.quorum.w + a.heard) : a.vector.compare w = .dominates := by
  obtain ⟨ack, hattempt, hvector, hheard⟩ := issue_eq_some h
  obtain ⟨replicas, -, hreplicas, hstamp, -⟩ := Coordinator.write_eq_ok hattempt
  obtain ⟨replicas', holders, hreplicas', hnodup, hsub, hquorum, hcovers⟩ :=
    held_run ((e.keeps_run c).happen i.before .refl) hc hw
  obtain rfl : replicas = replicas' := Except.ok.inj (hreplicas.symm.trans hreplicas')
  have honest := (honest_befall e).happen i.before hc
  rw [Coordinator.heard_eq hreplicas] at hheard
  rw [← hvector]
  refine (Coordinator.stamp?_dominates hstamp).1 w ?_
  rw [Coordinator.surveying, show (d.coordinator i.coordinator).quorum = d.quorum from rfl,
    hstrict] at hheard ⊢
  refine Coordinator.strict_round_covers (Ring.nodup_replicas_append_standIns hreplicas) hnodup hsub
    (s := (interrupted i.during).count i.payload.meter 1 ⟨happen i.before c, 0⟩)
    ⟨honest.lies, honest.race⟩ hcovers ?_
  rw [hheard, Ring.length_replicas hreplicas]
  show d.quorum.n < _
  omega

theorem acknowledged_above (hstrict : d.quorum.sloppy = false) (is : List (Issue e)) (hc : c.Honest)
    (hw : d.Held key w c) (hmany : ∀ a ∈ d.acknowledged key is c, d.quorum.n < d.quorum.w + a.heard) :
    ∀ a ∈ d.acknowledged key is c, a.vector.compare w = .dominates := by
  induction is generalizing c with
  | nil => exact fun _ h => nomatch h
  | cons i is ih =>
    have hrun : e.Run c (d.issue key i c).2 := run_issue i c
    rw [acknowledged] at hmany ⊢
    intro a ha
    rcases List.mem_append.mp ha with ha | ha'
    · exact issue_above hstrict hc hw (Option.mem_toList.mp ha) (hmany a (List.mem_append_left _ ha))
    · exact ih ((honest_befall e).run hrun hc) (held_run hrun hc hw)
        (fun b hb => hmany b (List.mem_append_right _ hb)) a ha'

theorem acknowledged_ascending (hstrict : d.quorum.sloppy = false) (is : List (Issue e))
    (hc : c.Honest)
    (hmany : ∀ a ∈ d.acknowledged key is c, d.quorum.n < d.quorum.w + a.heard) :
    Ascending (d.acknowledged key is c) := by
  induction is generalizing c with
  | nil => exact .nil
  | cons i is ih =>
    have hc' := (honest_befall e).run (run_issue i c : e.Run c (d.issue key i c).2) hc
    rw [acknowledged] at hmany ⊢
    have hlater := fun a ha => hmany a (List.mem_append_right _ ha)
    refine List.pairwise_append.mpr ⟨?_, ih hc' hlater, ?_⟩
    · cases (d.issue key i c).1 with
      | none => exact .nil
      | some a => exact List.pairwise_singleton ..
    · intro a ha
      exact acknowledged_above hstrict is hc' (held_issue hstrict hc (Option.mem_toList.mp ha)) hlater

theorem acknowledged_eq_nil (h : ∀ (i : Issue e) c ack s, d.attempt key i c ≠ (.ok ack, s))
    (is : List (Issue e)) (c : Cluster) : d.acknowledged key is c = [] := by
  induction is generalizing c with
  | nil => rfl
  | cons i is ih =>
    have hnone : (d.issue key i c).1 = none := by
      refine Option.eq_none_iff_forall_ne_some.mpr fun a ha => ?_
      obtain ⟨ack, hattempt, -⟩ := issue_eq_some ha
      exact h i c ack _ hattempt
    rw [acknowledged, hnone, ih]
    rfl

theorem attempt_of_short (hshort : (d.ring.preference key).length < d.quorum.n) (i : Issue e)
    (c : Cluster) (ack : WriteAck) (s : Interrupted) : d.attempt key i c ≠ (.ok ack, s) := by
  intro h
  obtain ⟨replicas, -, hreplicas, -⟩ := Coordinator.write_eq_ok h
  obtain ⟨shortage, hshortage⟩ := Ring.replicas_eq_error_iff.mpr hshort
  cases hreplicas.symm.trans hshortage

theorem attempt_of_hasty (hw : 1 ≤ d.quorum.w) (htimeout : d.quorum.writeTimeout = 0) (i : Issue e)
    (c : Cluster) (ack : WriteAck) (s : Interrupted) : d.attempt key i c ≠ (.ok ack, s) := by
  intro h
  obtain ⟨replicas, v, -, -, -, hmet⟩ := Coordinator.write_eq_ok h
  rw [Coordinator.storing, show (d.coordinator i.coordinator).quorum = d.quorum from rfl, htimeout,
    WriteRound.acks_run_of_deadline_zero] at hmet
  omega

structure Strict (d : Deployment) (key : Key) (replicas : List NodeId) : Prop where
  strict : d.quorum.sloppy = false
  patient : 0 < d.quorum.writeTimeout
  placed : d.ring.replicas key d.quorum.n = .ok replicas
  members : replicas ⊆ d.nodes

variable {replicas : List NodeId} {up : NodeId → Bool} {during : Nat → List e.Event} {i : Issue e}
  {V : VersionVector}

def arrange (he : e.Unreliable) (up : NodeId → Bool) (ns : List NodeId) : List e.Event :=
  ns.map fun n => ⟨.fares n { down := !up n }, he n _⟩

theorem happen_arrange (he : e.Unreliable) (up : NodeId → Bool) (hc : Calm d.nodes c)
    (ns : List NodeId) :
    Calm d.nodes (happen (arrange he up ns) c) ∧
      (∀ k, (happen (arrange he up ns) c).replica k = c.replica k) ∧
      ∀ k, (happen (arrange he up ns) c).isUp k = if k ∈ ns then up k else c.isUp k := by
  induction ns generalizing c with
  | nil => exact ⟨hc, fun _ => rfl, fun _ => rfl⟩
  | cons n ns ih =>
    obtain ⟨hcalm, hreplicas, hup⟩ := ih (hc.alter n !up n)
    rw [show happen (arrange he up (n :: ns)) c = happen (arrange he up ns)
      (Incident.befall c (.fares n { down := !up n })) from rfl, hc.befall_fares]
    refine ⟨hcalm, hreplicas, fun k => ?_⟩
    rw [hup]
    by_cases hk : k = n <;> simp [hk]

theorem surveying_finds (hd : d.Strict key replicas) (hc : Calm d.nodes c) (hblank : Blank c)
    (hquiet : ∀ k < replicas.length, during k = []) (m : NodeId) (payload : Payload) :
    let survey := (d.coordinator m).surveying (interrupted during) key payload replicas ⟨c, 0⟩
    survey.1.versions = [] ∧ survey.1.time = 0 ∧
      min d.quorum.w (replicas.countP c.isUp) ≤ survey.1.successes ∧
      survey.2.calls = replicas.length ∧ Calm d.nodes survey.2.cluster ∧
      c.SameNetwork survey.2.cluster := by
  have hnet := preserves_sameNetwork d.nodes c
  have hstart : Calm d.nodes (network.count payload.meter 1 c) ∧
      c.SameNetwork (network.count payload.meter 1 c) :=
    hnet.count payload.meter 1 ⟨hc, sameNetwork_tally c c.tally⟩
  intro survey
  have hsurvey : survey = ReadRound.run (interrupted during) false key replicas
      (d.ring.standIns key replicas) d.quorum.w d.quorum.writeTimeout
      ((interrupted during).count payload.meter 1 ⟨c, 0⟩) := by
    rw [← hd.strict]
    rfl
  rw [hsurvey, run_interrupted _ _ _ _ fun k hk => hquiet k (hk.trans_eq (Nat.zero_add _))]
  refine ⟨List.eq_nil_iff_forall_not_mem.mpr ?_, ?_, ?_, Nat.zero_add _, ?_⟩
  · exact ReadRound.run_versions (reads_blank d.nodes key) _ _ _ ⟨hstart.1, hblank⟩
  · exact ReadRound.run_time (fun n _ h => h.send n _) (fun n _ h => h.delay_send n _) _ _ hd.patient hstart.1
  · refine ReadRound.min_le_successes_run (I := fun c' => Calm d.nodes c' ∧ c.SameNetwork c')
      (fun n _ => hnet.send n (.get key)) (fun n _ h => h.1.delay_send n _) ?_ hd.patient hstart
    rintro n c' ⟨hc', hsame⟩ hup hn
    exact hc'.versions_send (hd.members hn) ((hsame.isUp n).trans hup) key
  · exact ReadRound.run_preserves (I := fun c' => Calm d.nodes c' ∧ c.SameNetwork c')
      (fun n _ => hnet.send n (.get key)) _ _ _ _ _ hstart

theorem acks_storing {seen : ReadRound × Interrupted} (hd : d.Strict key replicas)
    (htime : seen.1.time = 0) (hquiet : ∀ k, seen.2.calls < k → during k = [])
    (hc : Calm d.nodes (happen (during seen.2.calls) seen.2.cluster))
    (hup : d.quorum.w ≤ replicas.countP (happen (during seen.2.calls) seen.2.cluster).isUp)
    (v : Version) (m : NodeId) :
    d.quorum.w ≤ ((d.coordinator m).storing (interrupted during) key replicas v seen).1.acks := by
  generalize hturn : happen (during seen.2.calls) seen.2.cluster = c₀ at hc hup
  rw [Coordinator.storing, show (d.coordinator m).quorum = d.quorum from rfl, hd.strict, htime]
  refine (Nat.le_min.mpr ⟨Nat.le_refl _, hup⟩).trans (WriteRound.min_le_acks_run (I := fun s =>
    seen.2.calls ≤ s.calls ∧ Calm d.nodes (happen (during s.calls) s.cluster) ∧
      c₀.SameNetwork (happen (during s.calls) s.cluster)) ?_ ?_ ?_ hd.patient ?_)
  · rintro n s ⟨hcalls, hs, hsame⟩
    have hnext := (preserves_sameNetwork d.nodes c₀).send n (.put key v) ⟨hs, hsame⟩
    have hlater : during (s.calls + 1) = [] := hquiet _ (by omega)
    refine ⟨Nat.le_succ_of_le hcalls, ?_⟩
    rw [show ((interrupted during).send n (.put key v) s).2.calls = s.calls + 1 from rfl, hlater]
    exact hnext
  · rintro n s ⟨-, hs, -⟩
    exact hs.delay_send n (.put key v)
  · rintro n s ⟨-, hs, hsame⟩ hn hmem
    have hok := hs.isOk_send (hd.members hmem) ((hsame.isUp n).trans hn) (show (Request.put key v).about key
      from rfl)
    cases hanswer : (send n (.put key v) (happen (during s.calls) s.cluster)).1.answer with
    | ok response => exact ⟨response, hanswer⟩
    | error e =>
      rw [hanswer] at hok
      cases hok
  · rw [hturn]
    exact ⟨Nat.le_refl _, hc, sameNetwork_tally c₀ c₀.tally⟩

theorem issue_of_attempt {ack : WriteAck} (h : (d.attempt key i c).1 = .ok ack) :
    (d.issue key i c).1 = some ⟨(d.coordinator i.coordinator).heard (interrupted i.during) key i.payload
      ⟨happen i.before c, 0⟩, ack.vector⟩ := by
  simp only [issue, h]
  rfl

theorem issue_of_blank (hd : d.Strict key replicas)
    (hV : Coordinator.stamp? i.coordinator [] i.context = some V)
    (hquiet : ∀ k, k ≠ d.quorum.n → i.during k = []) (hc : Calm d.nodes (happen i.before c))
    (hblank : Blank (happen i.before c))
    (hturn : ∀ c', Calm d.nodes c' → (happen i.before c).SameNetwork c' →
      Calm d.nodes (happen (i.during d.quorum.n) c') ∧
        d.quorum.w ≤ replicas.countP (happen (i.during d.quorum.n) c').isUp) :
    ∃ heard, (d.issue key i c).1 = some ⟨heard, V⟩ ∧
      min d.quorum.w (replicas.countP (happen i.before c).isUp) ≤ heard := by
  have hlength : replicas.length = d.quorum.n := Ring.length_replicas hd.placed
  obtain ⟨hnone, htime, hheard, hcalls, hcalm, hsame⟩ := surveying_finds hd hc hblank
    (fun k hk => hquiet k (by omega)) i.coordinator i.payload
  rw [hlength] at hcalls
  obtain ⟨hcalm', hup⟩ := hturn _ hcalm hsame
  have hvector : Coordinator.stamp? (d.coordinator i.coordinator).id ((d.coordinator
      i.coordinator).surveying (interrupted i.during) key i.payload replicas
        ⟨happen i.before c, 0⟩).1.versions i.context = some V := by
    rw [hnone]
    exact hV
  have hacks := fun v => acks_storing hd htime (fun k hk => hquiet k (by omega)) (hcalls ▸ hcalm')
    (hcalls ▸ hup) v i.coordinator
  have hattempt : ∃ ack, (d.attempt key i c).1 = .ok ack ∧ ack.vector = V := by
    rw [attempt, Coordinator.write_eq hd.placed hvector]
    dsimp only
    split
    · rename_i hfew
      exact absurd (hacks _) (Nat.not_le_of_lt hfew)
    · exact ⟨_, rfl, rfl⟩
  obtain ⟨ack, hattempt, hack⟩ := hattempt
  refine ⟨_, ?_, hheard⟩
  rw [issue_of_attempt hattempt, hack, Coordinator.heard_eq hd.placed]

theorem countP_isUp (hsub : replicas ⊆ d.nodes)
    (hup : ∀ n ∈ d.nodes, c.isUp n = up n) : replicas.countP c.isUp = replicas.countP up := by
  refine List.countP_congr fun n hn => ?_
  rw [hup n (hsub hn)]

theorem issue_of_arranged (he : e.Unreliable) (hd : d.Strict key replicas)
    (hV : Coordinator.stamp? i.coordinator [] i.context = some V)
    (hbefore : i.before = arrange he up d.nodes) (hquiet : ∀ k, k ≠ d.quorum.n → i.during k = [])
    (hc : Calm d.nodes c) (hvolatile : ∀ n ∈ d.nodes, up n = true → c.replica n = .volatile)
    (hturn : ∀ c', Calm d.nodes c' → (∀ n ∈ d.nodes, c'.isUp n = up n) →
      Calm d.nodes (happen (i.during d.quorum.n) c') ∧
        d.quorum.w ≤ replicas.countP (happen (i.during d.quorum.n) c').isUp) :
    ∃ heard, (d.issue key i c).1 = some ⟨heard, V⟩ ∧ min d.quorum.w (replicas.countP up) ≤ heard := by
  obtain ⟨hcalm, hreplica, hup⟩ := happen_arrange he up hc d.nodes
  rw [← hbefore] at hcalm hreplica hup
  have hup : ∀ n ∈ d.nodes, (happen i.before c).isUp n = up n := fun n hn => (hup n).trans (if_pos hn)
  have hblank : Blank (happen i.before c) := by
    intro n
    by_cases hn : n ∈ d.nodes
    · cases hdown : up n with
      | true => exact .inr ((hreplica n).trans (hvolatile n hn hdown))
      | false => exact .inl (.inr (.inl ((hup n hn).trans hdown)))
    · exact .inl (hcalm.refuses_of_not_mem hn)
  rw [← countP_isUp hd.members hup]
  refine issue_of_blank hd hV hquiet hcalm hblank fun c' hc' hsame => ?_
  exact hturn c' hc' fun n hn => (hsame.isUp n).trans (hup n hn)

theorem issue_leaves (key : Key) (hc : Calm d.nodes (happen i.before c))
    (hquiet : ∀ k, i.during k = []) :
    Calm d.nodes (d.issue key i c).2 ∧ ∀ n, (happen i.before c).Refuses n →
      (d.issue key i c).2.replica n = (happen i.before c).replica n := by
  have hwrite : (Calm d.nodes (d.issue key i c).2 ∧
      (happen i.before c).SameNetwork (d.issue key i c).2) ∧ ∀ n, (happen i.before c).Refuses n →
        (d.issue key i c).2.replica n = (happen i.before c).replica n :=
    Coordinator.write_preserves
      (preserves_interrupted (preserves_refusing d.nodes (happen i.before c)) hquiet)
      (d.coordinator i.coordinator) i.payload i.context (s := ⟨happen i.before c, 0⟩)
      ⟨⟨hc, sameNetwork_tally _ _⟩, fun _ _ => rfl⟩
  exact ⟨hwrite.1.1, hwrite.2⟩

theorem countP_take {l : List NodeId} (k : Nat) (hk : k ≤ l.length) :
    k ≤ l.countP (fun n => decide (n ∈ l.take k)) := by
  have hall : (l.take k).countP (fun n => decide (n ∈ l.take k)) = (l.take k).length :=
    List.countP_eq_length.mpr fun n hn => decide_eq_true hn
  rw [List.length_take, Nat.min_eq_left hk] at hall
  exact hall.symm.trans_le ((List.take_sublist k l).countP_le)

theorem countP_not_take {l : List NodeId} (hl : l.Nodup) (k : Nat) :
    l.length - k ≤ l.countP (fun n => !decide (n ∈ l.take k)) := by
  have hsplit := List.length_eq_countP_add_countP (fun n => decide (n ∈ l.take k)) (l := l)
  have hfirst : l.countP (fun n => decide (n ∈ l.take k)) ≤ k := by
    rw [List.countP_eq_length_filter]
    refine le_trans (List.subperm_of_subset (hl.filter _) fun n hn => ?_).length_le
      (List.length_take_le k l)
    exact of_decide_eq_true (List.mem_filter.mp hn).2
  have hsame : (fun n => decide ¬(decide (n ∈ l.take k)) = true) = fun n => !decide (n ∈ l.take k) := by
    funext n
    simp
  rw [hsame] at hsplit
  omega

theorem exists_same_vector (he : e.Unreliable) (hd : d.Strict key replicas) (hw : 1 ≤ d.quorum.w)
    {k : Nat} (hk : k ≤ d.quorum.w) (hfew : d.quorum.w + k ≤ d.quorum.n) :
    ∃ (is : List (Issue e)) (V : VersionVector) (a b : Nat), (∀ i ∈ is, i.coordinator ∈ d.nodes) ∧
      d.acknowledged key is d.start = [⟨a, V⟩, ⟨b, V⟩] ∧ k ≤ a ∧ k ≤ b := by
  have hlength := Ring.length_replicas hd.placed
  obtain ⟨m, hm⟩ := List.exists_mem_of_length_pos (l := replicas) (by omega)
  obtain ⟨V, hV⟩ := exists_stamp m
  generalize hfirst : (fun n => decide (n ∈ replicas.take d.quorum.w)) = first
  have hcount : d.quorum.w ≤ replicas.countP first := hfirst ▸ countP_take _ (by omega)
  have hothers : d.quorum.n - d.quorum.w ≤ replicas.countP (fun n => !first n) := by
    rw [← hlength, ← hfirst]
    exact countP_not_take (List.nodup_append.mp (Ring.nodup_replicas_append_standIns hd.placed)).1 _
  let one : Issue e := ⟨m, .value [1], ∅, arrange he first d.nodes, fun _ => []⟩
  let two : Issue e := ⟨m, .value [2], ∅, arrange he (fun n => !first n) d.nodes,
    fun k => if k = d.quorum.n then arrange he (fun _ => true) d.nodes else []⟩
  have hstart : Calm d.nodes d.start := calm_ofNodes ..
  have hvolatile : ∀ n, d.start.replica n = .volatile := fun n => replica_ofNodes ..
  obtain ⟨a, hone, ha⟩ := issue_of_arranged (i := one) he hd hV rfl (fun _ _ => rfl) hstart
    (fun n _ _ => hvolatile n) fun c' hc' hup => by
      refine ⟨hc', ?_⟩
      rw [show happen (one.during d.quorum.n) c' = c' from rfl, countP_isUp hd.members hup]
      exact hcount
  -- those that are down meanwhile have not taken the first write
  obtain ⟨hcalm₁, hreplica₁, hup₁⟩ := happen_arrange he first hstart d.nodes
  obtain ⟨hcalm₂, hkept⟩ := issue_leaves key (i := one) hcalm₁ fun _ => rfl
  have hvolatile₂ : ∀ n ∈ d.nodes, (!first n) = true →
      (d.issue key one d.start).2.replica n = .volatile := by
    intro n hn hother
    refine ((hkept n (.inr (.inl ?_))).trans (hreplica₁ n)).trans (hvolatile n)
    rw [show (happen one.before d.start).isUp n = _ from hup₁ n, if_pos hn]
    simpa using hother
  obtain ⟨b, htwo, hb⟩ := issue_of_arranged (i := two) he hd hV rfl (fun k hk => if_neg hk) hcalm₂
    hvolatile₂ fun c' hc' _ => by
      obtain ⟨hcalm, -, hup⟩ := happen_arrange he (fun _ => true) hc' d.nodes
      rw [show two.during d.quorum.n = arrange he (fun _ => true) d.nodes from if_pos rfl,
        countP_isUp hd.members fun n hn => (hup n).trans (if_pos hn),
        List.countP_eq_length.mpr fun _ _ => rfl]
      exact ⟨hcalm, by omega⟩
  refine ⟨[one, two], V, a, b, ?_, ?_, by omega, by omega⟩
  · intro i hi
    simp only [List.mem_cons, List.not_mem_nil, or_false] at hi
    rcases hi with rfl | rfl
    all_goals exact hd.members hm
  · rw [acknowledged, acknowledged, acknowledged, hone, htwo]
    rfl

theorem exists_strict (hstrict : d.quorum.sloppy = false) (hpatient : d.quorum.writeTimeout ≠ 0)
    (hlong : d.quorum.n ≤ (d.ring.preference key).length) : ∃ replicas, d.Strict key replicas :=
  ⟨_, hstrict, Nat.pos_of_ne_zero hpatient, Ring.replicas_eq_ok_iff.mpr ⟨hlong, rfl⟩, fun _ hn =>
    Ring.preference_ofNodes_subset d.perMember d.nodes key (List.mem_of_mem_take hn)⟩

end Deployment

theorem acknowledged_ascend_iff (d : Deployment) (hvalid : d.quorum.validate = .ok ())
    (hstrict : d.quorum.sloppy = false) (key : Key) {k : Nat} (hk : k ≤ d.quorum.w) {e : Environment}
    (he : e.Unreliable) :
    (∀ is : List (Issue e), (∀ i ∈ is, i.coordinator ∈ d.nodes) →
        (∀ a ∈ d.acknowledged key is d.start, k ≤ a.heard) →
        Ascending (d.acknowledged key is d.start)) ↔
      d.quorum.n < d.quorum.w + k ∨ (d.ring.preference key).length < d.quorum.n ∨
        d.quorum.writeTimeout = 0 := by
  obtain ⟨hw, hwn, -, -⟩ := Quorum.validate_eq_ok_iff.mp hvalid
  constructor
  · intro hall
    by_contra hnot
    simp only [not_or, Nat.not_lt] at hnot
    obtain ⟨hfew, hlong, hpatient⟩ := hnot
    obtain ⟨replicas, hd⟩ := Deployment.exists_strict hstrict hpatient hlong
    obtain ⟨is, V, a, b, hwithin, hacknowledged, ha, hb⟩ := Deployment.exists_same_vector he hd hw hk hfew
    have hascending := hall is hwithin
    rw [hacknowledged] at hascending
    refine not_ascending_of_same V a b (hascending fun x hx => ?_)
    simp only [List.mem_cons, List.not_mem_nil, or_false] at hx
    rcases hx with rfl | rfl
    · exact ha
    · exact hb
  · rintro (hmany | hnone) is - hheard
    · refine Deployment.acknowledged_ascending hstrict is (calm_ofNodes ..).honest fun a ha => ?_
      have := hheard a ha
      omega
    · have hnil : d.acknowledged key is d.start = [] := by
        refine Deployment.acknowledged_eq_nil ?_ is d.start
        exact hnone.elim Deployment.attempt_of_short (Deployment.attempt_of_hasty hw)
      rw [hnil]
      exact .nil

namespace Earshot

def trio : Deployment :=
  ⟨⟨3, 2, 2, 5000, 5000, .background, .siblings, false⟩, 1, ["A", "B", "C"], 3, 5000, 0⟩

def fares (n : NodeId) (down : Bool) : Environment.any.Event := ⟨.fares n { down }, trivial⟩

def first : Issue .any := ⟨"A", .value [1], ∅, [], fun _ => []⟩

def hearing : Issue .any := ⟨"B", .value [2], ∅, [fares "C" true], fun _ => []⟩

def deaf : Issue .any :=
  ⟨"A", .value [2], ∅, [], fun
    | 0 => [fares "A" true, fares "B" true, fares "C" true]
    | 3 => [fares "A" false, fares "B" false, fares "C" false]
    | _ => []⟩

theorem hearing_write_above : trio.quorum.validate = .ok () ∧ 2 ≤ trio.quorum.w ∧
    trio.acknowledged "k" [first, hearing] trio.start =
      [⟨2, .ofEntries [("A", 1)]⟩, ⟨2, .ofEntries [("A", 1), ("B", 1)]⟩] ∧
    Ascending (trio.acknowledged "k" [first, hearing] trio.start) := by
  have hvalid : trio.quorum.validate = .ok () := rfl
  have hw : 2 ≤ trio.quorum.w := by decide
  have hacknowledged : trio.acknowledged "k" [first, hearing] trio.start =
      [⟨2, .ofEntries [("A", 1)]⟩, ⟨2, .ofEntries [("A", 1), ("B", 1)]⟩] := by decide +kernel
  refine ⟨hvalid, hw, hacknowledged, (acknowledged_ascend_iff trio hvalid rfl "k" hw
    fun _ _ => trivial).mpr (.inl (by decide)) [first, hearing] ?_ ?_⟩
  · simp [first, hearing, trio]
  · rw [hacknowledged]
    simp

theorem deaf_write_not_above : trio.quorum.n < 2 * trio.quorum.w ∧
    trio.acknowledged "k" [first, deaf] trio.start =
      [⟨2, .ofEntries [("A", 1)]⟩, ⟨0, .ofEntries [("A", 1)]⟩] ∧
    ¬ Ascending (trio.acknowledged "k" [first, deaf] trio.start) ∧
    ((trio.coordinator "A").read network "k"
      (trio.issue "k" deaf (trio.issue "k" first trio.start).2).2).1 =
        .ok (.value (.live [1] (.ofEntries [("A", 1)]) 0)) := by
  decide +kernel

end Earshot

end QuorumStore
