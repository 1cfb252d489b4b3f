import QuorumStore.Proofs.CalmCluster
import QuorumStore.Proofs.DeliveryPlan
import QuorumStore.Proofs.HintCustody

namespace QuorumStore

namespace HintDelivery.Stage

def upcoming : Stage → List (NodeId × Key × Hint)
  | .sending target hints _ _ => hints.map (fun p => (target, p))
  | .settling target key h hints _ _ => (target, key, h) :: hints.map (fun p => (target, p))
  | _ => []

def remaining : Stage → List NodeId
  | .choosing targets _ | .sending _ _ _ targets | .settling _ _ _ _ _ targets
  | .failing _ _ _ _ targets | .dropping _ _ _ _ targets => targets
  | .done => []

def budget : Stage → Nat
  | .choosing _ budget | .sending _ _ budget _ | .failing _ _ _ budget _
  | .dropping _ _ _ budget _ => budget
  | .settling _ _ _ _ budget _ => budget + 1
  | .done => 0

def isDone : Stage → Bool
  | .done => true
  | _ => false

end HintDelivery.Stage

namespace Cluster

open HintDelivery (Stage)

variable {c d : Cluster} {live : List NodeId} {n holder target : NodeId} {key : Key} {vs : List Version}
  {settings : DeliverySettings}

theorem hints_send_handoff (hc : c.Honest) (m : NodeId) (n : NodeId) :
    ((send m (.handoff key vs) c).2.replica n).hints = (c.replica n).hints :=
  (change_send hc m n _).hints_eq (by simp [Request.kind])

theorem damaged_send (hc : c.Honest) (m : NodeId) (request : Request) (n : NodeId) :
    ((send m request c).2.replica n).store.damaged = (c.replica n).store.damaged :=
  (change_send hc m n request).damaged

def Answering (live : List NodeId) (c : Cluster) : Prop :=
  ∀ r ∈ live, c.Serves r ∧ (c.replica r).store.damaged = []

theorem answering_of_answers (hc : c.Honest) (h : ∀ r ∈ live, ∀ key, Answers r key c) :
    Answering live c := by
  intro r hr
  refine ⟨(serves_of_answers hc (h r hr default)).1, ?_⟩
  exact List.eq_nil_iff_forall_not_mem.mpr fun key => (serves_of_answers hc (h r hr key)).2

structure Delivers (live : List NodeId) (c d : Cluster) : Prop where
  network : c.SameNetwork d
  damaged : ∀ n, (d.replica n).store.damaged = (c.replica n).store.damaged
  covers : ∀ n key w, Covers n key w c → Covers n key w d
  hints : ∀ n, (c.replica n).hints.Fades live (d.replica n).hints
  custody : ∀ n, ∀ r ∈ live, ∀ key w, InCustody n r key w c → InCustody n r key w d

namespace Delivers

theorem refl (c : Cluster) : Delivers live c c where
  network := ⟨rfl, rfl, rfl, rfl, rfl, rfl, fun _ => rfl⟩
  damaged _ := rfl
  covers _ _ _ h := h
  hints _ := .refl _
  custody _ _ _ _ _ h := h

theorem trans {e : Cluster} (h : Delivers live c d) (h' : Delivers live d e) : Delivers live c e where
  network := h.network.trans h'.network
  damaged n := (h'.damaged n).trans (h.damaged n)
  covers n key w hw := h'.covers n key w (h.covers n key w hw)
  hints n := (h.hints n).trans (h'.hints n)
  custody n r hr key w hw := h'.custody n r hr key w (h.custody n r hr key w hw)

theorem answering (h : Delivers live c d) (hc : Answering live c) : Answering live d :=
  fun r hr => ⟨h.network.serves (hc r hr).1, (h.damaged r).trans (hc r hr).2⟩

theorem count (c : Cluster) (m : Meter) (k : Nat) : Delivers live c (c.count m k) where
  network := sameNetwork_tally c _
  damaged _ := rfl
  covers _ _ _ h := h
  hints _ := .refl _
  custody _ _ _ _ _ h := h

theorem handoff (live : List NodeId) (hc : c.Honest) (target : NodeId) (key : Key) (vs : List Version) :
    Delivers live c (send target (.handoff key vs) c).2 where
  network := sameNetwork_send target _ hc
  damaged := damaged_send hc target _
  covers _ _ _ := covers_send hc target _
  hints n := by
    rw [hints_send_handoff hc]
    exact .refl _
  custody _ _ _ _ _ := inCustody_send hc target _

theorem place {hints : HintTable} (hfades : (c.replica n).hints.Fades live hints)
    (hcustody : ∀ r ∈ live, ∀ key w, (c.replica n).hints.Hints r key w →
      hints.Hints r key w ∨ Covers r key w c) :
    Delivers live c (c.place n { c.replica n with hints }) where
  network := sameNetwork_place c n _
  damaged m :=
    of_place (P := fun r => r.store.damaged = (c.replica m).store.damaged) rfl fun hm => by rw [hm]
  covers _ _ _ := covers_place rfl
  hints m :=
    of_place (P := fun r => (c.replica m).hints.Fades live r.hints) (.refl _) fun hm => hm ▸ hfades
  custody m r hr key w hw := by
    refine hw.elim (fun hw => ?_) fun hw => .inr (covers_place rfl hw)
    by_cases hm : m = n
    · subst hm
      exact (hcustody r hr key w hw).elim (fun hw' => .inl (hints_place (fun _ => hw') hw))
        fun hw' => .inr (covers_place rfl hw')
    · exact .inl (hints_place (fun h => absurd h hm) hw)

theorem settle {h : Hint}
    (hwhole : target ∈ live → ∀ h', (c.replica n).hints.get? target key = some h' → h' = h)
    (htaken : target ∈ live → ∀ v ∈ h.versions, Covers target key v.vector c) :
    Delivers live c (HintDelivery.settle (hintsOf n) target key h.versions c) := by
  refine place (.settle fun hr h' hget => congrArg Hint.versions (hwhole hr h' hget)) fun r hr k w hw => ?_
  refine (HintTable.hints_settle_or target key h.versions hw).imp_right ?_
  rintro ⟨rfl, rfl, v, hv, hwv⟩
  obtain ⟨u, hu, hvu⟩ := htaken hr v hv
  exact ⟨u, hu, VersionVector.le_trans hwv hvu⟩

theorem countFailure (c : Cluster) (n : NodeId) (key : Key) (htarget : target ∉ live) (h : Hint) :
    Delivers live c (HintDelivery.countFailure (hintsOf n) target key h c).2 :=
  place (.countFailure htarget) fun _ _ _ _ hw => .inl (HintTable.hints_countFailure hw)

end Delivers

structure OnCourse (live : List NodeId) (c : Cluster) (holder : NodeId) (stage : Stage) : Prop where
  planned : (c.replica holder).hints.Planned live stage.upcoming stage.remaining stage.budget
  sound : match stage with
    | .settling target key h _ _ _ => ∀ v ∈ h.versions, Covers target key v.vector c
    | .failing target _ _ _ _ => target ∉ live
    | .dropping target _ _ _ _ => target ∉ live
    | _ => True

theorem hints_settle (c : Cluster) (n target : NodeId) (key : Key) (vs : List Version) :
    ((HintDelivery.settle (hintsOf n) target key vs c).replica n).hints =
      ((c.replica n).hints.settle target key vs).2 := by
  rw [HintDelivery.settle, hintsOf, replica_place]
  split
  · rfl
  · rename_i hn
    have hnone : c.replicas.get? n = none := by
      simpa [SortedMap.contains] using hn
    rw [replica, hnone]
    rfl

theorem OnCourse.delivers {stage : Stage} (h : OnCourse live c holder stage) (hd : Delivers live c d) :
    OnCourse live d holder stage := by
  refine ⟨h.planned.fades (hd.hints holder), ?_⟩
  have hsound := h.sound
  cases stage with
  | settling target key hint hints budget targets =>
    exact fun v hv => hd.covers target key _ (hsound v hv)
  | failing | dropping => exact hsound
  | choosing | sending | done => trivial

theorem delivers_step (hc : c.Honest) (hlive : Answering live c) {stage stage' : Stage}
    (h : OnCourse live c holder stage)
    (hpasses : HintDelivery.Passes network (hintsOf holder) settings stage c stage' d) :
    Delivers live c d ∧ OnCourse live d holder stage' := by
  have hplanned := h.planned
  have hsound := h.sound
  cases hpasses with
  | finish budget =>
    exact ⟨.refl c, ⟨hplanned.ahead, hplanned.fresh, hplanned.distinct, Nat.le_refl 0⟩, trivial⟩
  | lookUp target targets budget => exact ⟨.refl c, hplanned.lookUp, trivial⟩
  | turn | rest => exact ⟨.refl c, hplanned, trivial⟩
  | spent target hint hints targets =>
    -- the budget counted an attempt for each hint, so it cannot run out before them
    have hroom := hplanned.room
    simp [Stage.upcoming, Stage.budget] at hroom
  | @taken target key hint _ _ hints budget targets hanswer =>
    have hdelivers := Delivers.handoff live hc target key hint.versions
    exact ⟨hdelivers, hplanned.fades (hdelivers.hints holder),
      fun v hv => covers_of_send_handoff hc hanswer hv⟩
  | @refused target key hint _ _ hints budget targets hanswer =>
    have htarget : target ∉ live := by
      intro hmem
      have hintact : key ∉ (c.replica target).store.damaged := by
        rw [(hlive target hmem).2]
        exact List.not_mem_nil
      have hok := answers_of_serves hc (hlive target hmem).1 hintact (.handoff key hint.versions) rfl
      rw [show (send target (.handoff key hint.versions) c).1.answer = _ from hanswer] at hok
      cases hok
    have hdelivers := Delivers.handoff live hc target key hint.versions
    exact ⟨hdelivers, .skip htarget (hplanned.fades (hdelivers.hints holder)), htarget⟩
  | settled target key hint hints budget targets =>
    have hplanned : (c.replica holder).hints.Planned live
        ((target, key, hint) :: hints.map (fun p => (target, p))) targets (budget + 1) := hplanned
    have hdelivers : Delivers live c (HintDelivery.settle (hintsOf holder) target key hint.versions c) :=
      .settle (hplanned.fresh _ (List.mem_cons_self ..)) fun _ => hsound
    refine ⟨hdelivers.trans (.count _ .hintsDelivered 1), ?_, trivial⟩
    exact (hints_settle c holder target key hint.versions) ▸ hplanned.settle
  | kept target key hint budget targets =>
    have hdelivers := Delivers.countFailure c holder key hsound hint
    exact ⟨hdelivers, hplanned.fades (hdelivers.hints holder), trivial⟩
  | expired target key hint budget targets =>
    have hdelivers := Delivers.countFailure c holder key hsound hint
    exact ⟨hdelivers, hplanned.fades (hdelivers.hints holder), hsound⟩
  | dropped target key hint budget targets =>
    have htarget : target ∉ live := hsound
    have hdelivers : Delivers live c (HintDelivery.settle (hintsOf holder) target key hint.versions c) :=
      .settle (fun hmem => absurd hmem htarget) fun hmem => absurd hmem htarget
    exact ⟨hdelivers.trans (.count _ .hintsDropped 1), hplanned.fades (hdelivers.hints holder), trivial⟩

structure DeliveryRound where
  cluster : Cluster
  deliveries : List (NodeId × Stage × DeliveryReport)

namespace DeliveryRound

inductive Move where
  | begin (holder : NodeId)
  | step (delivery : Nat)

def start (c : Cluster) : DeliveryRound := ⟨c, []⟩

def next (settings : DeliverySettings) (m : DeliveryRound) : Move → DeliveryRound
  | .begin holder =>
      let targets := (m.cluster.replica holder).hints.targets
      { m with deliveries := m.deliveries ++ [(holder, .choosing targets settings.maxHints, .none)] }
  | .step i =>
      match m.deliveries[i]? with
      | none => m
      | some (holder, stage, report) =>
          let (stage, report, cluster) :=
            HintDelivery.step network (hintsOf holder) settings (stage, report, m.cluster)
          ⟨cluster, m.deliveries.set i (holder, stage, report)⟩

def run (settings : DeliverySettings) (moves : List Move) (m : DeliveryRound) : DeliveryRound :=
  moves.foldl (next settings) m

def Complete (m : DeliveryRound) : Prop :=
  ∀ n, m.cluster.replicas.contains n = true → ∃ delivery ∈ m.deliveries,
    delivery.1 = n ∧ delivery.2.1.isDone = true

structure Kept (live : List NodeId) (c : Cluster) (m : DeliveryRound) : Prop where
  delivers : Delivers live c m.cluster
  onCourse : ∀ delivery ∈ m.deliveries, OnCourse live m.cluster delivery.1 delivery.2.1

theorem Kept.next {m : DeliveryRound} (h : Kept live c m) (hc : c.Honest) (hlive : Answering live c)
    (hcount : ∀ n, (c.replica n).hints.count ≤ settings.maxHints) (move : Move) :
    Kept live c (m.next settings move) := by
  obtain ⟨hdelivers, honCourse⟩ := h
  cases move with
  | begin holder =>
    refine ⟨hdelivers, fun delivery hmem => ?_⟩
    rcases List.mem_append.mp hmem with hmem | hmem
    · exact honCourse delivery hmem
    · rw [List.mem_singleton.mp hmem]
      exact ⟨.start _ (Nat.le_trans (hdelivers.hints holder).count_le (hcount holder)), trivial⟩
  | step i =>
    cases hget : m.deliveries[i]? with
    | none => simpa only [DeliveryRound.next, hget] using ⟨hdelivers, honCourse⟩
    | some delivery =>
      obtain ⟨holder, stage, report⟩ := delivery
      obtain ⟨hstep, hstage⟩ := delivers_step (hc.sameNetwork hdelivers.network) (hdelivers.answering hlive)
        (honCourse _ (List.mem_of_getElem? hget)) (HintDelivery.passes_step stage report m.cluster)
      simp only [DeliveryRound.next, hget]
      refine ⟨hdelivers.trans hstep, fun delivery hmem => ?_⟩
      rcases List.mem_or_eq_of_mem_set hmem with hmem | rfl
      · exact (honCourse delivery hmem).delivers hstep
      · exact hstage

theorem Kept.run {m : DeliveryRound} (h : Kept live c m) (hc : c.Honest) (hlive : Answering live c)
    (hcount : ∀ n, (c.replica n).hints.count ≤ settings.maxHints) (moves : List Move) :
    Kept live c (m.run settings moves) := by
  induction moves generalizing m with
  | nil => exact h
  | cons move moves ih => exact ih (h.next hc hlive hcount move)

theorem Kept.get?_eq_none {m : DeliveryRound} (h : Kept live c m) (hcomplete : m.Complete) {r : NodeId}
    (hr : r ∈ live) (n : NodeId) (key : Key) : (m.cluster.replica n).hints.get? r key = none := by
  cases hcontains : m.cluster.replicas.get? n with
  | none =>
    rw [replica, hcontains]
    rfl
  | some replica =>
    have hthere : m.cluster.replicas.contains n = true := by
      rw [SortedMap.contains, hcontains]
      rfl
    obtain ⟨⟨holder, stage, report⟩, hmem, rfl, hdone⟩ := hcomplete n hthere
    -- a delivery at its end has nothing ahead of it, where a hint for a live node would be
    have hplanned := (h.onCourse _ hmem).planned
    cases stage with
    | done =>
      refine Option.eq_none_iff_forall_ne_some.mpr fun hint hget => ?_
      rcases hplanned.ahead r hr key hint hget with hin | hin
      · cases hin
      · cases hin
    | choosing | sending | settling | failing | dropping => cases hdone

theorem delivered (hc : c.Honest) (hlive : Answering live c)
    (hcount : ∀ n, (c.replica n).hints.count ≤ settings.maxHints) {moves : List Move}
    (hcomplete : ((start c).run settings moves).Complete) {r : NodeId} (hr : r ∈ live) (key : Key) :
    (∀ n, (((start c).run settings moves).cluster.replica n).hints.get? r key = none) ∧
      ∀ n w, InCustody n r key w c → Covers r key w ((start c).run settings moves).cluster := by
  have hstart : Kept live c (start c) := ⟨.refl c, fun _ hmem => absurd hmem List.not_mem_nil⟩
  have hkept := hstart.run hc hlive hcount moves
  have hnone := hkept.get?_eq_none hcomplete hr
  refine ⟨fun n => hnone n key, fun n w hw => ?_⟩
  rcases hkept.delivers.custody n r hr key w hw with ⟨h, hget, -⟩ | hcovers
  · rw [hnone] at hget
    cases hget
  · exact hcovers

end DeliveryRound

end Cluster

end QuorumStore
