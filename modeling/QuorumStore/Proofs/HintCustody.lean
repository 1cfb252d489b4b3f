import QuorumStore.Proofs.DeliverySteps
import QuorumStore.Proofs.StableFailures

namespace QuorumStore

theorem Hint.covered_of_settles {settled : List Version} {v : Version} (h : settles settled v = true) :
    Version.Covered settled v.vector := by
  obtain ⟨s, hs, hv⟩ := List.any_eq_true.mp h
  refine ⟨s, hs, ?_⟩
  rcases Bool.or_eq_true_iff.mp hv with heq | hdom
  · rw [of_decide_eq_true heq]
    exact v.vector.le_refl
  · exact (VersionVector.compare_eq_dominates_iff.mp (of_decide_eq_true hdom)).1

theorem HintTable.hints_settle_or {t : HintTable} {target' : NodeId} {key' : Key} {w : VersionVector}
    (target : NodeId) (key : Key) (vs : List Version) (hw : t.Hints target' key' w) :
    (t.settle target key vs).2.Hints target' key' w ∨
      (target' = target ∧ key' = key ∧ Version.Covered vs w) := by
  by_cases hsame : target' = target ∧ key' = key
  · obtain ⟨rfl, rfl⟩ := hsame
    obtain ⟨h, hget, v, hv, hwv⟩ := hw
    have hattempts := attempts_lt hget
    cases hsettles : Hint.settles vs v with
    | true =>
      obtain ⟨s, hs, hvs⟩ := Hint.covered_of_settles hsettles
      exact .inr ⟨rfl, rfl, s, hs, VersionVector.le_trans hwv hvs⟩
    | false =>
      have hrest : v ∈ h.versions.filter (fun v => !Hint.settles vs v) :=
        List.mem_filter.mpr ⟨hv, by simp [hsettles]⟩
      left
      simp only [settle, hget]
      split
      · rename_i hnil
        rw [hnil] at hrest
        cases hrest
      · rename_i rest hne
        refine ⟨{ h with versions := h.versions.filter (fun v => !Hint.settles vs v) }, ?_, v, hrest, hwv⟩
        simp [hattempts]
  · exact .inl (hints_settle hsame hw)

theorem Replica.covered_of_handle_handoff {p : Placement} {self : NodeId} {now : UInt64} {r : Replica}
    {key : Key} {vs : List Version} {response : Response}
    (h : (r.handle p self now (.handoff key vs)).1 = .ok response) {v : Version} (hv : v ∈ vs) :
    Version.Covered ((r.handle p self now (.handoff key vs)).2.store.held key) v.vector := by
  simp only [handle, merge] at h ⊢
  cases hm : r.store.merge key vs with
  | error e =>
    rw [hm] at h
    cases h
  | ok result => exact (Store.covered_merge hm).mpr (.inr ⟨v, hv, v.vector.le_refl⟩)

namespace Cluster

open HintDelivery (Stage)

variable {c d : Cluster} {holder target n : NodeId} {key : Key} {w : VersionVector} {v : Version}
  {settings : DeliverySettings}

theorem covers_of_send_handoff {vs : List Version} {response : Response} (hc : c.Honest)
    (h : (send n (.handoff key vs) c).1.answer = .ok response) (hv : v ∈ vs) :
    Covers n key v.vector (send n (.handoff key vs) c).2 := by
  obtain ⟨hhandle, hreplica⟩ := handled_of_send hc h
  rw [Covers, hreplica]
  exact Replica.covered_of_handle_handoff hhandle hv

def InCustody (holder target : NodeId) (key : Key) (w : VersionVector) (c : Cluster) : Prop :=
  (c.replica holder).hints.Hints target key w ∨ Covers target key w c

theorem hints_send (hc : c.Honest) (m : NodeId) (request : Request)
    (h : (c.replica n).hints.Hints target key w) :
    ((send m request c).2.replica n).hints.Hints target key w :=
  (change_send hc m n request).hints h

theorem hints_place {m : NodeId} {r : Replica}
    (hr : n = m → r.hints.Hints target key w) (h : (c.replica n).hints.Hints target key w) :
    ((c.place m r).replica n).hints.Hints target key w :=
  of_place (P := fun r => r.hints.Hints target key w) h hr

theorem inCustody_send (hc : c.Honest) (m : NodeId) (request : Request)
    (h : InCustody holder target key w c) : InCustody holder target key w (send m request c).2 :=
  h.imp (hints_send hc m request) (covers_send hc m request)

theorem inCustody_of_send_hint {response : Response} (hc : c.Honest)
    (h : (send holder (.putHinted target key v) c).1.answer = .ok response) :
    InCustody holder target key v.vector (send holder (.putHinted target key v) c).2 := by
  left
  rw [(handled_of_send hc h).2]
  exact HintTable.hints_record _ target key v _

def Environment.sparing (holder : NodeId) : Environment :=
  ⟨fun i => ∀ target key vs, i ≠ .settled holder target key vs, fun _ _ _ _ _ h => (nomatch h),
    fun _ _ _ _ _ h => (nomatch h)⟩

theorem inCustody_befall (holder target : NodeId) (key : Key) (w : VersionVector) :
    (Environment.sparing holder).Keeps (fun c => c.Honest ∧ InCustody holder target key w c) := by
  rintro i hi c ⟨hc, h⟩
  refine ⟨honest_befall _ i hi c hc, h.elim (fun h => ?_) fun h => .inr ?_⟩
  rotate_left
  · exact (covers_befall _ target key w i hi c ⟨hc, h⟩).2
  left
  cases i with
  | call m request => exact hints_send hc m request h
  | fares m condition => exact h
  | counted m k => exact h
  | slowed latency => exact h
  | tick clock => exact h
  | losing lossy => exact h
  | damage m k => exact hints_place (fun hm => hm ▸ h) h
  | mend m k => exact hints_place (fun hm => hm ▸ h) h
  | undelivered m target' k hint => exact hints_place (fun hm => HintTable.hints_countFailure (hm ▸ h)) h
  | settled m target' k vs =>
    exact hints_place (fun hm => absurd (by rw [hm]) (hi target' k vs)) h

def Sound (c : Cluster) : Stage → Prop
  | .settling target key h _ _ _ => ∀ v ∈ h.versions, Covers target key v.vector c
  | .dropping _ _ _ _ _ => False
  | _ => True

theorem Sound.mono {stage : Stage} (h : Sound c stage)
    (hd : ∀ n key w, Covers n key w c → Covers n key w d) : Sound d stage := by
  cases stage with
  | settling target key hint hints budget targets => exact fun v hv => hd target key _ (h v hv)
  | dropping target key hint budget targets => exact h
  | choosing | sending | failing | done => trivial

structure Safe (holder : NodeId) (c d : Cluster) : Prop where
  honest : d.Honest
  covers : ∀ n key w, Covers n key w c → Covers n key w d
  custody : ∀ target key w, InCustody holder target key w c → InCustody holder target key w d

theorem Safe.refl (hc : c.Honest) : Safe holder c c :=
  ⟨hc, fun _ _ _ h => h, fun _ _ _ h => h⟩

theorem safe_send (holder : NodeId) (hc : c.Honest) (n : NodeId) (request : Request) :
    Safe holder c (send n request c).2 :=
  ⟨hc.sameNetwork (sameNetwork_send n request hc), fun _ _ _ => covers_send hc n request,
    fun _ _ _ => inCustody_send hc n request⟩

theorem safe_settle (holder : NodeId) (hc : c.Honest) {vs : List Version}
    (h : ∀ v ∈ vs, Covers target key v.vector c) :
    Safe holder c (HintDelivery.settle (hintsOf holder) target key vs c) := by
  have hcovers : ∀ n k w, Covers n k w c →
      Covers n k w (HintDelivery.settle (hintsOf holder) target key vs c) :=
    fun n k w => covers_place rfl
  refine ⟨honest_place hc holder _, hcovers, fun target' k w hw => ?_⟩
  rcases hw with hw | hw
  · -- a version that came in since stays; one that goes is below what the target has taken
    rcases HintTable.hints_settle_or target key vs hw with hleft | ⟨rfl, rfl, hsettled⟩
    · exact .inl (hints_place (fun _ => hleft) hw)
    · obtain ⟨v, hv, hwv⟩ := hsettled
      obtain ⟨u, hu, hvu⟩ := h v hv
      exact .inr (hcovers _ _ _ ⟨u, hu, VersionVector.le_trans hwv hvu⟩)
  · exact .inr (hcovers _ _ _ hw)

theorem safe_countFailure (hc : c.Honest) (hint : Hint) :
    Safe holder c (HintDelivery.countFailure (hintsOf holder) target key hint c).2 :=
  ⟨honest_place hc holder _, fun _ _ _ => covers_place rfl, fun _ _ _ hw =>
    hw.imp (fun hw => hints_place (fun _ => HintTable.hints_countFailure hw) hw) (covers_place rfl)⟩

theorem safe_step (hforever : settings.maxAttempts = none) (hc : c.Honest) {stage stage' : Stage}
    (hsound : Sound c stage)
    (h : HintDelivery.Passes network (hintsOf holder) settings stage c stage' d) :
    Safe holder c d ∧ Sound d stage' := by
  cases h with
  | finish | lookUp | turn | spent | rest => exact ⟨.refl hc, trivial⟩
  | @taken target key hint _ _ hints budget targets hanswer =>
    -- what was sent is what the next step settles, and the target has it now
    exact ⟨safe_send holder hc target _, fun v hv => covers_of_send_handoff hc hanswer hv⟩
  | @refused target key hint _ _ hints budget targets hanswer =>
    exact ⟨safe_send holder hc target _, trivial⟩
  | settled target key hint hints budget targets =>
    obtain ⟨hhonest, hcovers, hcustody⟩ := safe_settle holder hc hsound
    exact ⟨⟨⟨hhonest.lies, hhonest.race⟩, hcovers, hcustody⟩, trivial⟩
  | kept target key hint budget targets => exact ⟨safe_countFailure hc hint, trivial⟩
  | expired target key hint budget targets _ hlimit =>
    rw [hforever] at hlimit
    cases hlimit
  | dropped target key hint budget targets => exact absurd hsound id

inductive Turn (holder : NodeId) where
  | begin
  | step (delivery : Nat)
  | befall (i : (Environment.sparing holder).Event)

structure Moment where
  cluster : Cluster
  deliveries : List (Stage × DeliveryReport)
  acknowledged : List (NodeId × Key × Version)

def Incident.acknowledged (holder : NodeId) (c : Cluster) : Incident → List (NodeId × Key × Version)
  | .call n (.putHinted target key v) =>
      if n = holder ∧ (send n (.putHinted target key v) c).1.answer.isOk = true then [(target, key, v)]
      else []
  | _ => []

theorem inCustody_of_acknowledged (hc : c.Honest) {i : Incident} {a : NodeId × Key × Version}
    (ha : a ∈ i.acknowledged holder c) :
    InCustody holder a.1 a.2.1 a.2.2.vector (i.befall c) := by
  unfold Incident.acknowledged at ha
  split at ha
  · rename_i n target key v
    split at ha
    · rename_i hack
      obtain ⟨rfl, hok⟩ := hack
      rw [List.mem_singleton.mp ha]
      cases hanswer : (send n (.putHinted target key v) c).1.answer with
      | ok response => exact inCustody_of_send_hint hc hanswer
      | error e =>
        rw [hanswer] at hok
        cases hok
    · cases ha
  · cases ha

namespace Moment

def start (c : Cluster) : Moment := ⟨c, [], []⟩

def next (settings : DeliverySettings) (m : Moment) : Turn holder → Moment
  | .begin =>
      let targets := (m.cluster.replica holder).hints.targets
      { m with deliveries := m.deliveries ++ [(.choosing targets settings.maxHints, .none)] }
  | .step i =>
      match m.deliveries[i]? with
      | none => m
      | some (stage, report) =>
          let (stage, report, cluster) :=
            HintDelivery.step network (hintsOf holder) settings (stage, report, m.cluster)
          { m with cluster, deliveries := m.deliveries.set i (stage, report) }
  | .befall i =>
      { m with
        cluster := i.val.befall m.cluster
        acknowledged := i.val.acknowledged holder m.cluster ++ m.acknowledged }

def run (settings : DeliverySettings) (turns : List (Turn holder)) (m : Moment) : Moment :=
  turns.foldl (next settings) m

structure Kept (holder : NodeId) (m : Moment) : Prop where
  honest : m.cluster.Honest
  sound : ∀ delivery ∈ m.deliveries, Sound m.cluster delivery.1
  custody : ∀ a ∈ m.acknowledged, InCustody holder a.1 a.2.1 a.2.2.vector m.cluster

theorem Kept.next (hforever : settings.maxAttempts = none) {m : Moment} (h : Kept holder m)
    (turn : Turn holder) : Kept holder (m.next settings turn) := by
  obtain ⟨hhonest, hsound, hcustody⟩ := h
  cases turn with
  | begin =>
    refine ⟨hhonest, fun delivery hmem => ?_, hcustody⟩
    rcases List.mem_append.mp hmem with hmem | hmem
    · exact hsound delivery hmem
    · rw [List.mem_singleton.mp hmem]
      trivial
  | step i =>
    cases hget : m.deliveries[i]? with
    | none => simpa only [Moment.next, hget] using ⟨hhonest, hsound, hcustody⟩
    | some delivery =>
      obtain ⟨stage, report⟩ := delivery
      obtain ⟨hsafe, hstage⟩ := safe_step hforever hhonest (hsound _ (List.mem_of_getElem? hget))
        (HintDelivery.passes_step stage report m.cluster)
      simp only [Moment.next, hget]
      refine ⟨hsafe.honest, fun delivery hmem => ?_, fun a ha => hsafe.custody _ _ _ (hcustody a ha)⟩
      rcases List.mem_or_eq_of_mem_set hmem with hmem | rfl
      · exact (hsound delivery hmem).mono hsafe.covers
      · exact hstage
  | befall i =>
    refine ⟨honest_befall _ i.val i.property _ hhonest, fun delivery hmem => ?_, fun a ha => ?_⟩
    · refine (hsound delivery hmem).mono fun n key w hw => ?_
      exact (covers_befall _ n key w i.val i.property _ ⟨hhonest, hw⟩).2
    · rcases List.mem_append.mp ha with ha | ha
      · exact inCustody_of_acknowledged hhonest ha
      · exact (inCustody_befall holder _ _ _ i.val i.property _ ⟨hhonest, hcustody a ha⟩).2

theorem Kept.run (hforever : settings.maxAttempts = none) (turns : List (Turn holder)) {m : Moment}
    (h : Kept holder m) : Kept holder (m.run settings turns) := by
  induction turns generalizing m with
  | nil => exact h
  | cons turn turns ih => exact ih (h.next hforever turn)

end Moment

theorem no_hint_lost (hforever : settings.maxAttempts = none) (hc : c.Honest)
    (turns : List (Turn holder)) :
    ∀ a ∈ ((Moment.start c).run settings turns).acknowledged,
      InCustody holder a.1 a.2.1 a.2.2.vector ((Moment.start c).run settings turns).cluster := by
  have hstart : Moment.Kept holder (Moment.start c) :=
    ⟨hc, fun _ hmem => absurd hmem List.not_mem_nil, fun _ hmem => absurd hmem List.not_mem_nil⟩
  exact (hstart.run hforever turns).custody

end Cluster

namespace Overtaken

open Cluster

def settings : DeliverySettings := ⟨10, none⟩

def first : Version := .live [1] (.ofEntries [("A", 1)]) 10

def second : Version := .live [2] (.ofEntries [("A", 2)]) 20

def arrives (v : Version) : Turn "D" :=
  .befall ⟨.call "D" (.putHinted "C" "k" v), fun _ _ _ h => (nomatch h)⟩

def cluster : Cluster := .ofNodes ⟨Ring.ofNodes 1 ["C", "D"], 1⟩ 1000 0 ["C", "D"]

def turns : List (Turn "D") :=
  [arrives first, .begin, .step 0, arrives second, .step 0, .step 0, .step 0, .step 0]

theorem overtaking_hint_kept :
    let m := (Moment.start cluster).run settings turns
    InCustody "D" "C" "k" first.vector m.cluster ∧ InCustody "D" "C" "k" second.vector m.cluster ∧
      (m.cluster.replica "C").store.held "k" = [first] ∧
      ((m.cluster.replica "D").hints.get? "C" "k").map (·.versions) = some [second] := by
  intro m
  have hacknowledged : m.acknowledged = [("C", "k", second), ("C", "k", first)] := by decide +kernel
  have hkept : ∀ a ∈ m.acknowledged, InCustody "D" a.1 a.2.1 a.2.2.vector m.cluster :=
    no_hint_lost rfl (honest_ofReplicas ..) turns
  rw [hacknowledged] at hkept
  refine ⟨hkept ("C", "k", first) (by simp), hkept ("C", "k", second) (by simp), ?_, ?_⟩
  · decide +kernel
  · decide +kernel

end Overtaken

end QuorumStore
