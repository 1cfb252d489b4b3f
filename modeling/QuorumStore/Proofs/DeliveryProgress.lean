import Mathlib.Logic.Function.Iterate
import QuorumStore.Proofs.CalmCluster
import QuorumStore.Proofs.DeliveryPlan

namespace QuorumStore

theorem SortedMap.filter_keys_congr {α : Type} {m m' : SortedMap String α} {p p' : String → Bool}
    (h : ∀ k, ((m.get? k).isSome && p k) = ((m'.get? k).isSome && p' k)) :
    m.keys.filter p = m'.keys.filter p' := by
  have hkeys : ∀ (m : SortedMap String α) (p : String → Bool),
      m.keys.filter p = ((m.mapValues fun _ _ => ()).filter fun k _ => p k).keys := by
    intro m p
    simp only [keys, SortedMap.filter, mapValues, List.filter_map, List.map_map]
    rfl
  rw [hkeys, hkeys]
  refine congrArg keys (ext_get? fun k => ?_)
  have hk := h k
  rw [get?_filter, get?_filter, get?_mapValues, get?_mapValues]
  revert hk
  cases m.get? k <;> cases m'.get? k <;> cases p k <;> cases p' k <;> simp [Option.filter]

namespace HintTable

variable {t t' : HintTable} {target n : NodeId} {key : Key} {vs : List Version}

def handoffs (t : HintTable) (target : NodeId) : List (Key × List Version) :=
  (t.hintsFor target).map (fun p => (p.1, p.2.versions))

def pending (t : HintTable) : List NodeId := t.targets.filter (fun n => !(t.handoffs n).isEmpty)

theorem handoffs_congr (hkeys : ∀ key, (t'.engine.get? (keyOf n key)).isSome =
      (t.engine.get? (keyOf n key)).isSome)
    (hversions : ∀ key, (t'.get? n key).map (·.versions) = (t.get? n key).map (·.versions)) :
    t'.handoffs n = t.handoffs n := by
  have hkeysFor : t'.keysFor n = t.keysFor n := by
    refine SortedMap.filter_keys_congr fun k => ?_
    by_cases hstart : (keyStart n).toList.isPrefixOf k.toList = true
    · obtain ⟨key, rfl⟩ : ∃ key, k = keyOf n key := ⟨_, exists_keyOf_of_start hstart⟩
      exact congrArg (· && _) (hkeys key)
    · simp only [Bool.not_eq_true] at hstart
      rw [hstart, Bool.and_false, Bool.and_false]
  have hform : ∀ t : HintTable, t.handoffs n = (t.keysFor n).filterMap (fun k =>
      ((t.load? k).map (·.versions)).map
        (fun vs => (String.ofList (k.toList.drop (keyStart n).toList.length), vs))) := by
    intro t
    simp only [handoffs, hintsFor, List.map_filterMap, Option.map_map]
    rfl
  rw [hform, hform, hkeysFor]
  refine List.filterMap_congr fun k hk => ?_
  obtain ⟨-, key, rfl⟩ := mem_keysFor.mp hk
  exact congrArg _ (hversions key)

theorem mem_targets_of_handoffs (hn : (t.handoffs n).isEmpty = false) : n ∈ t.targets := by
  cases hhints : t.hintsFor n with
  | nil =>
    rw [handoffs, hhints] at hn
    cases hn
  | cons p ps =>
    have hp : (p.1, p.2) ∈ t.hintsFor n := hhints ▸ List.mem_cons_self ..
    exact mem_targets (mem_hintsFor.mp hp)

theorem pending_congr (h : ∀ n, t'.handoffs n = t.handoffs n) : t'.pending = t.pending := by
  refine SortedMap.filter_keys_congr fun n => ?_
  cases hn : (t.handoffs n).isEmpty with
  | true => rw [h n, hn, Bool.not_true, Bool.and_false, Bool.and_false]
  | false =>
    have hn' : (t'.handoffs n).isEmpty = false := by rw [h n, hn]
    rw [SortedMap.mem_keys_iff.mp (mem_targets_of_handoffs hn),
      SortedMap.mem_keys_iff.mp (mem_targets_of_handoffs hn'), hn']

theorem handoffs_countFailure (target : NodeId) (key : Key) (n : NodeId) :
    (t.countFailure target key).2.handoffs n = t.handoffs n := by
  unfold countFailure
  split
  · rfl
  · rename_i h hget
    refine handoffs_congr (fun key' => ?_) fun key' => ?_
    · rw [get?_engine_save]
      split
      · rename_i heq
        rw [heq, isSome_of_get? hget]
        rfl
      · rfl
    · rw [get?_save (h := h.fail) (Nat.mod_lt _ (by decide))]
      split
      · rename_i hsame
        obtain ⟨rfl, rfl⟩ := hsame
        rw [hget]
        rfl
      · rfl

theorem handoffs_settle (hn : n ≠ target) : (t.settle target key vs).2.handoffs n = t.handoffs n := by
  have hne : ∀ key', ¬ (n = target ∧ key' = key) := fun _ h => hn h.1
  unfold settle
  split
  · rfl
  · split
    · refine handoffs_congr (fun key' => ?_) fun key' => congrArg _ (get?_remove_of_ne (hne key'))
      simp [hne key']
    · refine handoffs_congr (fun key' => ?_) fun key' => congrArg _ (get?_save_of_ne (hne key') _)
      simp [hne key']

end HintTable

theorem Replica.handle_handoff_of_damaged {r : Replica} {key : Key} (h : key ∈ r.store.damaged)
    (p : Placement) (self : NodeId) (now : UInt64) (vs : List Version) :
    r.handle p self now (.handoff key vs) = (.error (.store (.corrupt key)), r) := by
  simp only [handle, merge, Store.merge, if_pos h]
  rfl

namespace HintDelivery

variable {σ : Type} (net : Network σ) (access : HintAccess σ) (settings : DeliverySettings)

theorem delivered_le_deliverTo (target : NodeId) (hints : List (Key × Hint)) (budget : Nat)
    (report : DeliveryReport) (s : σ) :
    report.delivered ≤ (deliverTo net access settings target hints budget report s).2.1.delivered := by
  induction hints generalizing budget report s with
  | nil => exact Nat.le_refl _
  | cons hint hints ih =>
    obtain ⟨key, h⟩ := hint
    cases budget with
    | zero => exact Nat.le_refl _
    | succ budget =>
      unfold deliverTo
      dsimp only
      split
      · exact Nat.le_of_succ_le (ih budget { report with delivered := report.delivered + 1 } _)
      · split <;> exact Nat.le_refl _

theorem delivered_le_deliverAll (targets : List NodeId) (budget : Nat) (report : DeliveryReport) (s : σ) :
    report.delivered ≤ (deliverAll net access settings targets budget report s).1.delivered := by
  induction targets generalizing budget report s with
  | nil => exact Nat.le_refl _
  | cons target targets ih => exact Nat.le_trans (delivered_le_deliverTo ..) (ih _ _ _)

theorem delivered_lt_deliverTo {target : NodeId} {key : Key} {h : Hint} {s : σ} {response : Response}
    (htaken : (net.send target (.handoff key h.versions) s).1.answer = .ok response)
    (hints : List (Key × Hint)) (budget : Nat) (report : DeliveryReport) :
    report.delivered <
      (deliverTo net access settings target ((key, h) :: hints) (budget + 1) report s).2.1.delivered := by
  simp only [deliverTo, htaken]
  exact delivered_le_deliverTo net access settings target hints budget
    { report with delivered := report.delivered + 1 } _

theorem deliverTo_refused {target : NodeId} {key : Key} {h : Hint} {s : σ} {e : CallError}
    (hrefused : (net.send target (.handoff key h.versions) s).1.answer = .error e)
    (hints : List (Key × Hint)) (budget : Nat) (report : DeliveryReport) :
    let counted := (countFailure access target key h (net.send target (.handoff key h.versions) s).2).2
    ∃ report' s', deliverTo net access settings target ((key, h) :: hints) (budget + 1) report s =
        (budget, report', s') ∧ report'.delivered = report.delivered ∧
      (s' = counted ∨ settings.maxAttempts ≠ none ∧
        s' = net.count .hintsDropped 1 (settle access target key h.versions counted)) := by
  intro counted
  simp only [deliverTo, hrefused]
  split
  · rename_i hlimit
    refine ⟨_, _, rfl, rfl, .inr ⟨fun hnone => ?_, rfl⟩⟩
    rw [hnone] at hlimit
    cases hlimit
  · exact ⟨_, _, rfl, rfl, .inl rfl⟩

end HintDelivery

namespace Cluster

variable {c d : Cluster} {holder target : NodeId} {key : Key} {vs : List Version} {up : NodeId → Bool}
  {settings : DeliverySettings} {P : NodeId → Prop}

theorem isOk_send_handoff_iff (hc : c.Honest) :
    (send target (.handoff key vs) c).1.answer.isOk = true ↔
      c.Serves target ∧ key ∉ (c.replica target).store.damaged := by
  constructor
  · intro hok
    rcases c.refuses_or_reached target with hrefuses | hreached
    · obtain ⟨e, tally, heq⟩ := send_of_refuses hc hrefuses (.handoff key vs)
      rw [heq] at hok
      cases hok
    cases hstalled : (c.condition target).stalled with
    | true =>
      rw [send_of_stalled hc hreached (by rw [hstalled]; rfl)] at hok
      cases hok
    | false =>
      have hserves : c.Serves target := ⟨hreached, hstalled⟩
      refine ⟨hserves, fun hdamaged => ?_⟩
      obtain ⟨tally, heq⟩ := send_of_serves hc hserves (.handoff key vs)
      rw [heq, Replica.handle_handoff_of_damaged hdamaged] at hok
      cases hok
  · rintro ⟨hserves, hkey⟩
    exact answers_of_serves hc hserves hkey _ rfl

theorem replica_of_refused (hc : c.Honest)
    (hrefused : (send target (.handoff key vs) c).1.answer.isOk = false) (n : NodeId) :
    (send target (.handoff key vs) c).2.replica n = c.replica n := by
  rcases send_cases hc target (.handoff key vs) with ⟨_, _, tally, heq⟩ | ⟨_, tally, _, heq⟩
  · rw [heq]
    rfl
  · by_cases hdamaged : key ∈ (c.replica target).store.damaged
    · by_cases hn : n = target <;> simp [heq, hn, Replica.handle_handoff_of_damaged hdamaged]
    · have habout : (Request.handoff key vs).about key := rfl
      simp [heq, Replica.handle_isOk hdamaged habout] at hrefused

structure Awaits (holder : NodeId) (P : NodeId → Prop) (c d : Cluster) : Prop where
  network : c.SameNetwork d
  store : ∀ n, (d.replica n).store = (c.replica n).store
  handoffs : ∀ n, P n → (d.replica holder).hints.handoffs n = (c.replica holder).hints.handoffs n

namespace Awaits

theorem refl (c : Cluster) : Awaits holder P c c :=
  ⟨⟨rfl, rfl, rfl, rfl, rfl, rfl, fun _ => rfl⟩, fun _ => rfl, fun _ _ => rfl⟩

theorem mono {Q : NodeId → Prop} (h : Awaits holder P c d) (hQ : ∀ n, Q n → P n) : Awaits holder Q c d :=
  ⟨h.network, h.store, fun n hn => h.handoffs n (hQ n hn)⟩

theorem isOk_send (h : Awaits holder P c d) (hc : c.Honest) :
    (send target (.handoff key vs) d).1.answer.isOk = (send target (.handoff key vs) c).1.answer.isOk := by
  rw [Bool.eq_iff_iff, isOk_send_handoff_iff hc, isOk_send_handoff_iff (hc.sameNetwork h.network), h.store]
  exact and_congr_left fun _ => ⟨h.network.symm.serves, h.network.serves⟩

theorem refused (h : Awaits holder P c d) (hc : c.Honest)
    (hrefused : (send target (.handoff key vs) d).1.answer.isOk = false) :
    Awaits holder P c (send target (.handoff key vs) d).2 := by
  have hd := hc.sameNetwork h.network
  refine ⟨h.network.trans (sameNetwork_send target _ hd), fun n => ?_, fun n hn => ?_⟩
  · rw [replica_of_refused hd hrefused, h.store]
  · rw [replica_of_refused hd hrefused, h.handoffs n hn]

theorem place {hints : HintTable} (h : Awaits holder P c d)
    (hhints : ∀ n, P n → hints.handoffs n = (d.replica holder).hints.handoffs n) :
    Awaits holder P c (d.place holder { d.replica holder with hints }) := by
  refine ⟨h.network.trans (sameNetwork_place d holder _), fun n => ?_, fun n hn => ?_⟩
  · exact of_place (P := fun r => r.store = (c.replica n).store) (h.store n)
      fun heq => by rw [← h.store n, heq]
  · exact of_place (P := fun r => r.hints.handoffs n = (c.replica holder).hints.handoffs n)
      (h.handoffs n hn) fun _ => (hhints n hn).trans (h.handoffs n hn)

theorem countFailure (h : Awaits holder P c d) (target : NodeId) (key : Key) (hint : Hint) :
    Awaits holder P c (HintDelivery.countFailure (hintsOf holder) target key hint d).2 :=
  h.place fun n _ => HintTable.handoffs_countFailure target key n

theorem drop (h : Awaits holder P c d) (htarget : ¬ P target) (key : Key) (vs : List Version) :
    Awaits holder P c (count .hintsDropped 1 (HintDelivery.settle (hintsOf holder) target key vs d)) := by
  have hsettled : Awaits holder P c (HintDelivery.settle (hintsOf holder) target key vs d) :=
    h.place fun n hn => HintTable.handoffs_settle fun heq => htarget (heq ▸ hn)
  exact ⟨hsettled.network.trans (sameNetwork_tally _ _), hsettled.store, hsettled.handoffs⟩

end Awaits

theorem deliverTo_awaits (settings : DeliverySettings) {hint : Hint} (h : Awaits holder P c d) (hc : c.Honest)
    (hopen : settings.maxAttempts = none ∨ ¬ P target) {e : CallError}
    (hrefused : (send target (.handoff key hint.versions) d).1.answer = .error e)
    (hints : List (Key × Hint)) (budget : Nat) (report : DeliveryReport) :
    ∃ report' d', HintDelivery.deliverTo network (hintsOf holder) settings target ((key, hint) :: hints)
        (budget + 1) report d = (budget, report', d') ∧
      report'.delivered = report.delivered ∧ Awaits holder P c d' := by
  obtain ⟨report', d', heq, hdelivered, hd'⟩ :=
    HintDelivery.deliverTo_refused network (hintsOf holder) settings hrefused hints budget report
  have hcounted := (h.refused hc (by rw [hrefused]; rfl)).countFailure target key hint
  refine ⟨report', d', heq, hdelivered, ?_⟩
  rcases hd' with rfl | ⟨hlimit, rfl⟩
  · exact hcounted
  · exact hcounted.drop (hopen.resolve_left hlimit) key hint.versions

def Reaches (up : NodeId → Bool) (targets : List NodeId) (attempts : Nat) : Prop :=
  (∃ n ∈ targets, up n = true) ∧ (targets.takeWhile (fun n => !up n)).length < attempts

theorem reaches_cons_up {n : NodeId} {ns : List NodeId} {attempts : Nat} (hn : up n = true) :
    Reaches up (n :: ns) attempts ↔ 0 < attempts := by
  simp [Reaches, hn]

theorem reaches_cons_down {n : NodeId} {ns : List NodeId} {attempts : Nat} (hn : up n = false) :
    Reaches up (n :: ns) (attempts + 1) ↔ Reaches up ns attempts := by
  simp [Reaches, hn]

theorem not_reaches_zero {ns : List NodeId} : ¬ Reaches up ns 0 := fun h => Nat.not_lt_zero _ h.2

def Takes (c : Cluster) (holder n : NodeId) : Bool :=
  ((c.replica holder).hints.handoffs n).head?.any (fun p => (send n (.handoff p.1 p.2) c).1.answer.isOk)

theorem takes_iff (hc : c.Honest) : c.Takes holder n = true ↔
    c.Serves n ∧ ∃ p, ((c.replica holder).hints.handoffs n).head? = some p ∧
      p.1 ∉ (c.replica n).store.damaged := by
  rw [Takes, Option.any_eq_true]
  constructor
  · rintro ⟨p, hp, htaken⟩
    obtain ⟨hserves, hkey⟩ := (isOk_send_handoff_iff hc).mp htaken
    exact ⟨hserves, p, hp, hkey⟩
  · rintro ⟨hserves, p, hp, hkey⟩
    exact ⟨p, hp, (isOk_send_handoff_iff hc).mpr ⟨hserves, hkey⟩⟩

theorem Awaits.takes (h : Awaits holder (fun _ => True) c d) (hc : c.Honest) :
    d.Takes holder = c.Takes holder := by
  funext n
  rw [Bool.eq_iff_iff, takes_iff hc, takes_iff (hc.sameNetwork h.network), h.handoffs n trivial, h.store]
  exact and_congr_left fun _ => ⟨h.network.symm.serves, h.network.serves⟩

theorem deliverAll_delivers_iff (hc : c.Honest) {targets : List NodeId} (hnodup : targets.Nodup)
    (budget : Nat) (report : DeliveryReport) (hd : Awaits holder (· ∈ targets) c d) :
    report.delivered <
        (HintDelivery.deliverAll network (hintsOf holder) settings targets budget report d).1.delivered ↔
      Reaches (c.Takes holder)
        (targets.filter (fun n => !((c.replica holder).hints.handoffs n).isEmpty)) budget := by
  induction targets generalizing budget report d with
  | nil => simp [HintDelivery.deliverAll, Reaches]
  | cons target targets ih =>
    obtain ⟨htarget, hnodup⟩ := List.nodup_cons.mp hnodup
    have hlater : Awaits holder (· ∈ targets) c d := hd.mono fun n hn => List.mem_cons_of_mem _ hn
    have hhandoffs : (c.replica holder).hints.handoffs target =
        (((hintsOf holder).table d).hintsFor target).map (fun p => (p.1, p.2.versions)) :=
      (hd.handoffs target (List.mem_cons_self ..)).symm
    rw [HintDelivery.deliverAll]
    cases hhints : ((hintsOf holder).table d).hintsFor target with
    | nil =>
      rw [hhints] at hhandoffs
      rw [List.filter_cons_of_neg (by rw [hhandoffs]; decide)]
      exact ih hnodup budget report hlater
    | cons p hints =>
      obtain ⟨key, hint⟩ := p
      rw [hhints] at hhandoffs
      have hanswer : (send target (.handoff key hint.versions) d).1.answer.isOk = c.Takes holder target := by
        rw [hd.isOk_send hc, Takes, hhandoffs]
        rfl
      rw [List.filter_cons_of_pos (by rw [hhandoffs]; rfl)]
      cases budget with
      | zero => exact (ih hnodup 0 report hlater).trans (iff_of_false not_reaches_zero not_reaches_zero)
      | succ budget =>
        cases hsend : (send target (.handoff key hint.versions) d).1.answer with
        | ok response =>
          rw [hsend] at hanswer
          rw [reaches_cons_up hanswer.symm]
          refine iff_of_true (Nat.lt_of_lt_of_le ?_ (HintDelivery.delivered_le_deliverAll ..)) budget.succ_pos
          exact HintDelivery.delivered_lt_deliverTo network (hintsOf holder) settings hsend hints budget report
        | error e =>
          rw [hsend] at hanswer
          obtain ⟨report', d', heq, hdelivered, hd'⟩ :=
            deliverTo_awaits settings hlater hc (.inr htarget) hsend hints budget report
          rw [heq, reaches_cons_down hanswer.symm, ← hdelivered]
          exact ih hnodup budget report' hd'

theorem deliverAll_awaits (hforever : settings.maxAttempts = none) (hc : c.Honest) (targets : List NodeId)
    (budget : Nat) (report : DeliveryReport) (hd : Awaits holder P c d)
    (hnone : (HintDelivery.deliverAll network (hintsOf holder) settings targets budget report d).1.delivered ≤
      report.delivered) :
    Awaits holder P c
      (HintDelivery.deliverAll network (hintsOf holder) settings targets budget report d).2 := by
  induction targets generalizing budget report d with
  | nil => exact hd
  | cons target targets ih =>
    rw [HintDelivery.deliverAll] at hnone ⊢
    cases hhints : ((hintsOf holder).table d).hintsFor target with
    | nil =>
      rw [hhints] at hnone
      exact ih budget report hd hnone
    | cons p hints =>
      obtain ⟨key, hint⟩ := p
      rw [hhints] at hnone
      cases budget with
      | zero => exact ih 0 report hd hnone
      | succ budget =>
        cases hsend : (send target (.handoff key hint.versions) d).1.answer with
        | ok response =>
          -- something would have been delivered
          have hlt :=
            HintDelivery.delivered_lt_deliverTo network (hintsOf holder) settings hsend hints budget report
          exact absurd (Nat.le_trans (HintDelivery.delivered_le_deliverAll ..) hnone) (Nat.not_le_of_lt hlt)
        | error e =>
          obtain ⟨report', d', heq, hdelivered, hd'⟩ :=
            deliverTo_awaits settings hd hc (.inl hforever) hsend hints budget report
          rw [heq] at hnone ⊢
          exact ih budget report' hd' (hdelivered ▸ hnone)

theorem delivers_iff (hc : c.Honest) :
    0 < (c.deliver settings holder).1.delivered ↔
      Reaches (c.Takes holder) (c.replica holder).hints.pending settings.maxHints :=
  deliverAll_delivers_iff hc (SortedMap.nodup_keys _) settings.maxHints .none (.refl c)

def afterCycles (settings : DeliverySettings) (holder : NodeId) (cycles : Nat) (c : Cluster) : Cluster :=
  (fun c => (c.deliver settings holder).2)^[cycles] c

theorem deliver_awaits (hforever : settings.maxAttempts = none) (hc : c.Honest)
    (hnot : ¬ Reaches (c.Takes holder) (c.replica holder).hints.pending settings.maxHints)
    (hd : Awaits holder (fun _ => True) c d) :
    (d.deliver settings holder).1.delivered = 0 ∧
      Awaits holder (fun _ => True) c (d.deliver settings holder).2 := by
  have hpending := HintTable.pending_congr fun n => hd.handoffs n trivial
  have hnone : (d.deliver settings holder).1.delivered = 0 := by
    refine Nat.eq_zero_of_not_pos fun hpos => hnot ?_
    rw [← hpending, ← hd.takes hc]
    exact (delivers_iff (hc.sameNetwork hd.network)).mp hpos
  exact ⟨hnone, deliverAll_awaits hforever hc _ _ .none hd (Nat.le_of_eq hnone)⟩

theorem afterCycles_awaits (hforever : settings.maxAttempts = none) (hc : c.Honest)
    (hnot : ¬ Reaches (c.Takes holder) (c.replica holder).hints.pending settings.maxHints) (cycles : Nat) :
    Awaits holder (fun _ => True) c (afterCycles settings holder cycles c) := by
  induction cycles with
  | zero => exact .refl c
  | succ cycles ih =>
    rw [afterCycles, Function.iterate_succ_apply']
    exact (deliver_awaits hforever hc hnot ih).2

theorem delivery_progress_iff (hc : c.Honest) :
    (0 < (c.deliver settings holder).1.delivered ↔
      Reaches (c.Takes holder) (c.replica holder).hints.pending settings.maxHints) ∧
    (settings.maxAttempts = none →
      ¬ Reaches (c.Takes holder) (c.replica holder).hints.pending settings.maxHints →
      ∀ cycles, ((afterCycles settings holder cycles c).deliver settings holder).1.delivered = 0) :=
  ⟨delivers_iff hc, fun hforever hnot cycles =>
    (deliver_awaits hforever hc hnot (afterCycles_awaits hforever hc hnot cycles)).1⟩

end Cluster

namespace Behind

open Cluster

def version : Version := .live [1] (.ofEntries [("C", 1)]) 1

def start : Cluster :=
  (Cluster.ofNodes ⟨Ring.ofNodes 1 ["A", "B", "D"], 1⟩ 1000 0 ["A", "B", "D"]).alter "A"
    (fun condition => { condition with down := true })

def cluster : Cluster :=
  (send "D" (.putHinted "B" "k" version) (send "D" (.putHinted "A" "k" version) start).2).2

theorem honest_cluster : cluster.Honest := by
  have hstart : start.Honest := by
    refine ⟨fun n => ?_, rfl⟩
    by_cases hn : n = "A" <;> simp [start, hn] <;> rfl
  have hfirst := hstart.sameNetwork (sameNetwork_send "D" (.putHinted "A" "k" version) hstart)
  exact hfirst.sameNetwork (sameNetwork_send "D" (.putHinted "B" "k" version) hfirst)

theorem reachable_target_starved :
    (send "B" (.handoff "k" [version]) cluster).1.answer.isOk = true ∧
      ((cluster.replica "D").hints.get? "B" "k").map (·.versions) = some [version] ∧
      (cluster.deliver ⟨1, none⟩ "D").1 = ⟨0, 1, 0⟩ := by
  decide +kernel

theorem second_attempt_delivers :
    0 < (cluster.deliver ⟨2, none⟩ "D").1.delivered ∧
      ∀ cycles, ((afterCycles ⟨1, none⟩ "D" cycles cluster).deliver ⟨1, none⟩ "D").1.delivered = 0 := by
  refine ⟨(delivery_progress_iff honest_cluster).1.mpr ?_, (delivery_progress_iff honest_cluster).2 rfl ?_⟩
  · unfold Reaches
    decide +kernel
  · unfold Reaches
    decide +kernel

end Behind

end QuorumStore
