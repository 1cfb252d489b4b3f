import QuorumStore.Proofs.DeliveryRounds
import QuorumStore.Proofs.WriteSpread

namespace QuorumStore

namespace Cluster

variable {c : Cluster}

def Environment.patient : Environment :=
  ⟨fun i => ∀ holder target key vs, i ≠ .settled holder target key vs,
    fun _ _ _ _ _ _ h => (nomatch h), fun _ _ _ _ _ _ h => (nomatch h)⟩

def Lasts (call : Call) (c : Cluster) : Prop :=
  match call.request with
  | .put key v => Covers call.receiver key v.vector c
  | .putHinted target key v => InCustody call.receiver target key v.vector c
  | _ => True

theorem lasts_befall (call : Call) : Environment.patient.Keeps (fun c => c.Honest ∧ Lasts call c) := by
  obtain ⟨n, request, accepted⟩ := call
  cases request with
  | put key v => exact covers_befall _ n key v.vector
  | putHinted target key v => exact fun i hi => inCustody_befall n target key v.vector i (hi n)
  | get | repairPush | handoff | digest | bucketKeys =>
    exact fun i hi c hc => ⟨honest_befall _ i hi c hc.1, trivial⟩

theorem lasts_send (hc : c.Honest) {n : NodeId} {request : Request}
    (hok : (send n request c).1.answer.isOk = true) : Lasts ⟨n, request, true⟩ (send n request c).2 := by
  cases hanswer : (send n request c).1.answer with
  | error e =>
    rw [hanswer] at hok
    cases hok
  | ok response =>
    cases request with
    | put key v => exact covers_of_send_put hc hanswer
    | putHinted target key v => exact inCustody_of_send_hint hc hanswer
    | get | repairPush | handoff | digest | bucketKeys => trivial

def Lasting (t : Interrupted × List Call) : Prop :=
  t.1.cluster.Honest ∧ ∀ call ∈ t.2, call.accepted = true → Lasts call t.1.cluster

theorem lasting_preserved (events : Nat → List Environment.patient.Event) :
    (interrupted events).recording.Preserves Lasting where
  send n request t := by
    rintro ⟨hc, hlasts⟩
    have hkeep : ∀ call ∈ t.2, call.accepted = true →
        Lasts call ((interrupted events).send n request t.1).2.cluster := fun call hcall hok =>
      (((lasts_befall call).preserves events).send n request ⟨hc, hlasts call hcall hok⟩).2
    have hhappen : (happen (events t.1.calls) t.1.cluster).Honest := (honest_befall _).happen _ hc
    refine ⟨((honest_befall _).preserves events).send n request hc, fun call hcall hok => ?_⟩
    simp only [Network.recording] at hcall
    split at hcall
    · rcases List.mem_append.mp hcall with hcall | hcall
      · exact hkeep call hcall hok
      · obtain rfl := List.mem_singleton.mp hcall
        have hanswer : (send n request (happen (events t.1.calls) t.1.cluster)).1.answer.isOk = true := hok
        exact lasts_send hhappen hanswer
    · exact hkeep call hcall hok
  count m k t := by
    rintro ⟨hc, hlasts⟩
    refine ⟨((honest_befall _).preserves events).count m k hc, fun call hcall hok => ?_⟩
    exact (((lasts_befall call).preserves events).count m k ⟨hc, hlasts call hcall hok⟩).2

theorem inCustody_of_spread {replicas : List NodeId} {key : Key} {v : Version} {calls : List Call}
    (h : Spread replicas key v calls) (hlasts : ∀ call ∈ calls, call.accepted = true → Lasts call c)
    {r : NodeId} (hr : r ∈ replicas) : ∃ n, InCustody n r key v.vector c := by
  rcases h.places r hr with ⟨hput, -⟩ | ⟨-, n, hhint, -⟩
  · exact ⟨r, .inr (hlasts _ hput rfl)⟩
  · exact ⟨n, hlasts _ hhint rfl⟩

end Cluster

open Cluster

theorem sloppy_write_replicates {c : Coordinator} {key : Key} {payload : Payload} {context : VersionVector}
    {events : Nat → List Environment.patient.Event} {s : Interrupted} {replicas : List NodeId}
    {accepts : NodeId → Bool} (hvalid : c.quorum.validate = .ok ()) (hsloppy : c.quorum.sloppy = true)
    (hc : s.cluster.Honest) (hreplicas : c.ring.replicas key c.quorum.n = .ok replicas)
    (htimely : c.Timely (interrupted events) key payload context replicas s)
    (haccepts : ∀ call ∈ c.writeCalls (interrupted events) key payload context s,
      call.accepted = accepts call.receiver)
    (hmany : c.quorum.n ≤ ((c.ring.preference key).filter accepts).length) :
    ∃ ack, (c.write (interrupted events) key payload context s).1 = .ok ack ∧
      Spread replicas key (payload.version ack.vector ack.timestamp)
        (c.writeCalls (interrupted events) key payload context s) ∧
      ∀ (d : Cluster) (settings : DeliverySettings) (moves : List DeliveryRound.Move),
        Environment.patient.Run (c.write (interrupted events) key payload context s).2.cluster d →
        (∀ r ∈ replicas, ∀ k, Answers r k d) →
        (∀ n, (d.replica n).hints.count ≤ settings.maxHints) →
        ((DeliveryRound.start d).run settings moves).Complete →
        ∀ r ∈ replicas,
          Covers r key ack.vector ((DeliveryRound.start d).run settings moves).cluster ∧
          ∀ n, (((DeliveryRound.start d).run settings moves).cluster.replica n).hints.get? r key = none := by
  have hw := (Quorum.validate_eq_ok_iff.mp hvalid).2.1
  obtain ⟨ack, hack, hspread⟩ := Coordinator.write_spreads hsloppy hw hreplicas htimely haccepts hmany
  refine ⟨ack, hack, hspread, fun d settings moves hlater hanswers hcount hcomplete r hr => ?_⟩
  obtain ⟨honest, hlasts⟩ : Lasting (c.write (interrupted events).recording key payload context (s, [])).2 :=
    Coordinator.write_preserves (lasting_preserved events) c payload context
      ⟨hc, fun _ hmem => absurd hmem List.not_mem_nil⟩
  rw [Coordinator.write_shows (interrupted events).shows_recording c payload context (s, [])] at hlater
  have honest' : d.Honest := (honest_befall _).run hlater honest
  obtain ⟨n, hcustody⟩ := inCustody_of_spread hspread
    (fun call hcall hok => ((lasts_befall call).run hlater ⟨honest, hlasts call hcall hok⟩).2) hr
  rw [payload.vector_version] at hcustody
  obtain ⟨hnone, hcovers⟩ := DeliveryRound.delivered honest' (answering_of_answers honest' hanswers) hcount
    hcomplete hr key
  exact ⟨hcovers n ack.vector hcustody, hnone⟩

namespace Quintet

def ring : Ring := Ring.ofNodes 1 ["A", "B", "C", "D", "E"]

def coordinator : Coordinator := ⟨"C", ⟨3, 2, 2, 1, 1, .inline, .siblings, true⟩, ring⟩

def cluster : Cluster :=
  Incident.befall
    (Incident.befall (.ofNodes ⟨ring, 3⟩ 1 0 ["A", "B", "C", "D", "E"]) (.fares "B" { down := true }))
    (.fares "D" { down := true })

def start : Interrupted := ⟨cluster, 0⟩

def quiet : Nat → List Environment.patient.Event := fun _ => []

def accepts (n : NodeId) : Bool := n != "B" && n != "D"

def written : Except StoreFailure WriteAck × Interrupted :=
  coordinator.write (interrupted quiet) "k" (.value [1]) ∅ start

def returned : Cluster := Incident.befall written.2.cluster (.fares "B" {})

def settings : DeliverySettings := ⟨1, none⟩

def moves : List DeliveryRound.Move :=
  ["A", "B", "C", "D", "E"].map .begin ++ (List.replicate 5 [0, 1, 2, 3, 4]).flatten.map .step

def delivered : DeliveryRound := (DeliveryRound.start returned).run settings moves

theorem honest : cluster.Honest := by
  have hnodes : (ofNodes ⟨ring, 3⟩ 1 0 ["A", "B", "C", "D", "E"]).Honest := honest_ofReplicas ..
  exact honest_befall .any _ trivial _ (honest_befall .any _ trivial _ hnodes)

theorem timely : coordinator.Timely (interrupted quiet) "k" (.value [1]) ∅ ["C", "B", "E"] start :=
  ⟨.ofEntries [("C", 1)], by decide +kernel, by decide +kernel⟩

theorem written_eq :
    coordinator.write (interrupted quiet) "k" (.value [1]) ∅ start = written :=
  rfl

theorem answering {r : NodeId} (hr : r ∈ ["C", "B", "E"]) (k : Key) : Answers r k returned := by
  have honest' : returned.Honest := by
    have hrun := run_write quiet coordinator "k" start (.value [1]) ∅
    rw [written_eq] at hrun
    exact honest_befall .any _ trivial _ ((honest_befall _).run hrun honest)
  have hserves : ∀ r ∈ ["C", "B", "E"], (returned.isRegistered r && returned.isUp r &&
      !(returned.condition r).cutOff && !returned.lossy && !(returned.condition r).stalled &&
      (returned.replica r).store.damaged.isEmpty) = true := by decide +kernel
  have h := hserves r hr
  simp only [Bool.and_eq_true, Bool.not_eq_true', List.isEmpty_iff] at h
  obtain ⟨⟨⟨⟨⟨hregistered, hup⟩, huncut⟩, hlossless⟩, hprompt⟩, hintact⟩ := h
  refine answers_of_serves honest' ⟨⟨hregistered, hup, huncut, hlossless⟩, hprompt⟩ ?_
  rw [hintact]
  exact List.not_mem_nil

theorem count_le (n : NodeId) : (returned.replica n).hints.count ≤ settings.maxHints := by
  have hall : ∀ e ∈ returned.replicas.entries, e.2.hints.count ≤ 1 := by decide +kernel
  cases hget : returned.replicas.get? n with
  | none =>
    rw [replica, hget]
    exact Nat.zero_le 1
  | some r =>
    rw [replica, hget]
    exact hall (n, r) (SortedMap.mem_entries_iff.mpr hget)

theorem complete : delivered.Complete := by
  have hall : ∀ n ∈ delivered.cluster.replicas.keys, ∃ delivery ∈ delivered.deliveries,
      delivery.1 = n ∧ delivery.2.1.isDone = true := by decide +kernel
  exact fun n hn => hall n (SortedMap.mem_keys_iff.mpr hn)

theorem second_standIn_delivers :
    (⟨"A", .putHinted "B" "k" (.live [1] (.ofEntries [("C", 1)]) 0), true⟩ : Call) ∈
        coordinator.writeCalls (interrupted quiet) "k" (.value [1]) ∅ start ∧
      ∃ ack, written.1 = .ok ack ∧ ∀ r ∈ ["C", "B", "E"],
        Covers r "k" ack.vector delivered.cluster ∧
        ∀ n, (delivered.cluster.replica n).hints.get? r "k" = none := by
  have hreplicas : ring.replicas "k" 3 = .ok ["C", "B", "E"] := by decide +kernel
  have haccepts : ∀ call ∈ coordinator.writeCalls (interrupted quiet) "k" (.value [1]) ∅ start,
      call.accepted = accepts call.receiver := by decide +kernel
  have hmany : 3 ≤ ((ring.preference "k").filter accepts).length := by decide +kernel
  obtain ⟨ack, hack, -, hlater⟩ := sloppy_write_replicates (c := coordinator) (s := start) (by decide) rfl
    honest hreplicas timely haccepts hmany
  rw [written_eq] at hlater
  refine ⟨by decide +kernel, ack, hack, ?_⟩
  exact hlater returned settings moves (.tail .refl ⟨.fares "B" {}, nofun, rfl⟩) (fun r hr => answering hr)
    count_le complete

end Quintet

end QuorumStore
