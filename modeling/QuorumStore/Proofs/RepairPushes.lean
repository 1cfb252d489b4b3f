import QuorumStore.Proofs.HeardNodes
import QuorumStore.Proofs.Interruption
import QuorumStore.Proofs.Landing
import QuorumStore.Proofs.ReadResolution
import QuorumStore.Proofs.RepairPass
import QuorumStore.Proofs.SessionHistory

namespace QuorumStore

variable {σ τ : Type} {net : Network σ} {net' : Network τ} {f : τ → σ} {key : Key}

namespace Version

theorem canonical_nil (policy : ConflictPolicy) : (resolve policy []).canonical = [] := by
  cases policy <;> rfl

theorem canonical_ne_nil (policy : ConflictPolicy) {vs : List Version} (h : vs ≠ []) :
    (resolve policy vs).canonical ≠ [] := by
  obtain ⟨v, hv⟩ := List.exists_mem_of_ne_nil vs h
  obtain ⟨k, hk, -⟩ := covered_canonical policy ⟨v, hv, v.vector.le_refl⟩
  exact List.ne_nil_of_mem hk

end Version

namespace Repair

theorem push_shows (h : net.Shows net' f) (vs : List Version) (n : NodeId) (s : τ) :
    push net key vs n (f s) =
      ((push net' key vs n s).1, (push net' key vs n s).2.1, f (push net' key vs n s).2.2) := by
  simp only [push, call, h.send]

theorem pushAll_shows (h : net.Shows net' f) (vs : List Version) (time : Nat) (ns : List NodeId) (s : τ) :
    pushAll net key vs time ns (f s) =
      ((pushAll net' key vs time ns s).1, (pushAll net' key vs time ns s).2.1,
        f (pushAll net' key vs time ns s).2.2) := by
  induction ns generalizing s with
  | nil => rfl
  | cons n ns ih =>
    simp only [pushAll, push_shows h]
    split
    · simp only [h.count, ih]
    · simp only [ih]

theorem pushResolved_shows (h : net.Shows net' f) (canonical : List Version) (time : Nat)
    (observed : List (NodeId × List Version)) (s : τ) :
    pushResolved net key canonical time observed (f s) =
      ((pushResolved net' key canonical time observed s).1,
        (pushResolved net' key canonical time observed s).2.1,
        f (pushResolved net' key canonical time observed s).2.2) := by
  unfold pushResolved
  split
  · rfl
  · rw [pushAll_shows h]

end Repair

namespace Coordinator

theorem repairObserved_shows (h : net.Shows net' f) (canonical : List Version) (round : ReadRound)
    (deadline : Option Nat) (s : τ) :
    repairObserved net key canonical round deadline (f s) =
      f (repairObserved net' key canonical round deadline s) := by
  simp only [repairObserved, Repair.pushResolved_shows h]

theorem read_shows (h : net.Shows net' f) (c : Coordinator) (s : τ) :
    c.read net key (f s) = ((c.read net' key s).1, f (c.read net' key s).2) := by
  unfold read
  simp only [h.count, ReadRound.run_shows h]
  split
  · rfl
  · split
    · rfl
    · split
      · rfl
      · split <;> split <;> split <;> simp only [repairObserved_shows h]

end Coordinator

def Response.isMerged : Response → Bool
  | .merged _ => true
  | _ => false

def Network.pushing (net : Network σ) : Network (σ × List (NodeId × Bool)) where
  send n request s :=
    let (reply, t) := net.send n request s.1
    (reply, t, match request with
      | .repairPush _ _ => s.2 ++ [(n, reply.answer.toOption.any Response.isMerged)]
      | _ => s.2)
  now s := net.now s.1
  count m k s := (net.count m k s.1, s.2)

theorem Network.shows_pushing (net : Network σ) : net.Shows net.pushing Prod.fst :=
  ⟨fun _ _ _ => rfl, fun _ => rfl, fun _ _ _ => rfl⟩

theorem Network.pushed_stays (net : Network σ) (push : NodeId × Bool) :
    net.pushing.Preserves (fun s => push ∈ s.2) where
  send n request s hs := by
    cases request with
    | repairPush key vs => exact List.mem_append_left _ hs
    | _ => exact hs
  count _ _ _ hs := hs

def Coordinator.pushes (net : Network σ) (c : Coordinator) (key : Key) (s : σ) : List (NodeId × Bool) :=
  (c.read net.pushing key (s, [])).2.2

def Coordinator.resolution (net : Network σ) (c : Coordinator) (key : Key) (replicas : List NodeId) (s : σ) :
    Resolution :=
  Version.resolve c.quorum.policy (Version.reconcile (c.gathering net key replicas s).versions)

structure Network.Quiet (net : Network σ) (key : Key) (replica : σ → NodeId → Replica) : Prop where
  count : ∀ m k s, replica (net.count m k s) = replica s
  get : ∀ n s, replica (net.send n (.get key) s).2 = replica s
  answer : ∀ n s vs, (net.send n (.get key) s).1.answer = .ok (.versions vs) → (replica s n).read key = .ok vs
  push : ∀ n vs s changed, (net.send n (.repairPush key vs) s).1.answer = .ok (.merged changed) →
    ∀ m, replica (net.send n (.repairPush key vs) s).2 m =
      if m = n then ((replica s n).merge key vs).2 else replica s m

variable {replica : σ → NodeId → Replica} {vs canonical : List Version} {c : Coordinator}
  {replicas : List NodeId}

theorem Network.Quiet.reads (h : net.Quiet key replica) (s : σ) :
    ReadRound.Reads net key (fun t => replica t = replica s)
      (fun n vs => (replica s n).read key = .ok vs) where
  keeps n t ht := (h.get n t).trans ht
  good n t vs ht hvs := ht ▸ h.answer n t vs hvs

namespace Repair

def stale (canonical : List Version) (observed : List (NodeId × List Version)) : List NodeId :=
  (observed.filter fun o => Version.differs o.2 canonical).map (·.1)

theorem stale_append (canonical : List Version) (observed observed' : List (NodeId × List Version)) :
    stale canonical (observed ++ observed') = stale canonical observed ++ stale canonical observed' := by
  simp [stale]

theorem stale_sublist (canonical : List Version) (observed : List (NodeId × List Version)) :
    (stale canonical observed).Sublist (observed.map (·.1)) :=
  List.filter_sublist.map _

theorem mem_stale_iff {observed : List (NodeId × List Version)} (hnodup : (observed.map (·.1)).Nodup)
    {n : NodeId} (h : (n, vs) ∈ observed) :
    n ∈ stale canonical observed ↔ Version.differs vs canonical = true := by
  simp only [stale, List.mem_map, List.mem_filter]
  constructor
  · rintro ⟨o, ⟨ho, hdiffers⟩, rfl⟩
    rwa [List.inj_on_of_nodup_map hnodup ho h rfl] at hdiffers
  · exact fun hdiffers => ⟨(n, vs), ⟨h, hdiffers⟩, rfl⟩

theorem pushAll_effect (hnet : net.Quiet key replica) (vs : List Version) (time : Nat) {ns : List NodeId}
    (hnodup : ns.Nodup) {t : σ × List (NodeId × Bool)}
    (hok : ∀ push ∈ (pushAll net.pushing key vs time ns t).2.2.2, push.2 = true) (m : NodeId) :
    replica (pushAll net.pushing key vs time ns t).2.2.1 m =
      if m ∈ ns then ((replica t.1 m).merge key vs).2 else replica t.1 m := by
  induction ns generalizing t with
  | nil => rfl
  | cons n ns ih =>
    obtain ⟨hn, hns⟩ := List.nodup_cons.mp hnodup
    simp only [pushAll] at hok ⊢
    generalize hpushed : (if (push net.pushing key vs n t).1.isOk
      then net.pushing.count .readRepairs 1 (push net.pushing key vs n t).2.2
      else (push net.pushing key vs n t).2.2) = u at hok ⊢
    -- the record says that this push was answered as such
    have hrecord : (n, (net.send n (.repairPush key vs) t.1).1.answer.toOption.any Response.isMerged) ∈ u.2 := by
      have hmem : (n, (net.send n (.repairPush key vs) t.1).1.answer.toOption.any Response.isMerged) ∈
          (push net.pushing key vs n t).2.2.2 := List.mem_append_right _ (List.mem_singleton_self _)
      rw [← hpushed]
      split
      · exact hmem
      · exact hmem
    have hmerged := hok _ (pushAll_preserves (net.pushed_stays _) vs time ns hrecord)
    obtain ⟨changed, hanswer⟩ : ∃ changed,
        (net.send n (.repairPush key vs) t.1).1.answer = .ok (.merged changed) := by
      cases hanswer : (net.send n (.repairPush key vs) t.1).1.answer with
      | error e =>
        rw [hanswer] at hmerged
        cases hmerged
      | ok response =>
        rw [hanswer] at hmerged
        cases response with
        | merged changed => exact ⟨changed, rfl⟩
        | _ => cases hmerged
    have hreplica : ∀ m, replica u.1 m =
        if m = n then ((replica t.1 n).merge key vs).2 else replica t.1 m := by
      intro m
      rw [← hnet.push n vs t.1 changed hanswer m, ← hpushed]
      split
      · exact congrFun (hnet.count ..) m
      · rfl
    rw [ih hns hok, hreplica]
    by_cases hm : m = n
    · subst hm
      rw [if_neg hn, if_pos rfl, if_pos (List.mem_cons_self ..)]
    · rw [if_neg hm]
      simp only [List.mem_cons, hm, false_or]

theorem pushResolved_effect (hnet : net.Quiet key replica) (hne : canonical ≠ []) (time : Nat)
    {observed : List (NodeId × List Version)} (hnodup : (observed.map (·.1)).Nodup)
    {t : σ × List (NodeId × Bool)}
    (hok : ∀ push ∈ (pushResolved net.pushing key canonical time observed t).2.2.2, push.2 = true)
    (m : NodeId) :
    replica (pushResolved net.pushing key canonical time observed t).2.2.1 m =
      if m ∈ stale canonical observed then ((replica t.1 m).merge key canonical).2 else replica t.1 m := by
  have hsome : ¬ canonical.isEmpty = true := by rwa [List.isEmpty_iff]
  rw [pushResolved, if_neg hsome] at hok ⊢
  exact pushAll_effect hnet canonical time ((stale_sublist canonical observed).nodup hnodup) hok m

end Repair

open Repair (stale)

namespace Coordinator

theorem repairObserved_effect (hnet : net.Quiet key replica) (hne : canonical ≠ []) {round : ReadRound}
    (deadline : Nat) (hnodup : ∀ limit, ((round.primaries ++ lateAnswers limit round.pending).map (·.1)).Nodup)
    {t : σ × List (NodeId × Bool)}
    (hok : ∀ push ∈ (repairObserved net.pushing key canonical round (some deadline) t).2, push.2 = true) :
    ∃ limit, deadline ≤ limit ∧ ∀ m,
      replica (repairObserved net.pushing key canonical round (some deadline) t).1 m =
        if m ∈ stale canonical (round.primaries ++ lateAnswers (some limit) round.pending)
        then ((replica t.1 m).merge key canonical).2 else replica t.1 m := by
  simp only [repairObserved, Option.map_some] at hok ⊢
  generalize hfirst : Repair.pushResolved net.pushing key canonical round.time round.primaries t = first
    at hok ⊢
  refine ⟨max deadline (first.2.1 + 1), Nat.le_max_left .., fun m => ?_⟩
  have hall := hnodup (some (max deadline (first.2.1 + 1)))
  generalize hlate : lateAnswers (some (max deadline (first.2.1 + 1))) round.pending = late at hok hall ⊢
  rw [List.map_append] at hall
  obtain ⟨hprimaries, hlater, hapart⟩ := List.nodup_append.mp hall
  have hok' : ∀ push ∈ first.2.2.2, push.2 = true := fun push hpush =>
    hok push (Repair.pushResolved_preserves (net.pushed_stays push) canonical first.2.1 late hpush)
  rw [Repair.pushResolved_effect hnet hne _ hlater hok]
  rw [← hfirst] at hok' ⊢
  rw [Repair.pushResolved_effect hnet hne _ hprimaries hok', Repair.stale_append]
  have honce : m ∈ stale canonical round.primaries → m ∉ stale canonical late := fun hm hm' =>
    hapart m ((Repair.stale_sublist canonical round.primaries).subset hm) m
      ((Repair.stale_sublist canonical late).subset hm') rfl
  by_cases hm : m ∈ stale canonical round.primaries
  · rw [if_pos hm, if_neg (honce hm), if_pos (List.mem_append_left _ hm)]
  · rw [if_neg hm]
    simp only [List.mem_append, hm, false_or]

theorem read_eq_resolution {s : σ} (hreplicas : c.ring.replicas key c.quorum.n = .ok replicas)
    (hmet : c.quorum.r ≤ (c.gathering net key replicas s).successes) :
    (c.read net key s).1 = Session.shown (c.resolution net key replicas s).read := by
  rw [gathering] at hmet
  simp only [resolution, gathering, read, hreplicas]
  rw [if_neg (Nat.not_lt_of_le hmet)]
  split
  · rename_i hnil
    rw [hnil]
    cases c.quorum.policy <;> rfl
  · split
    · rename_i hread
      rw [hread]
      rfl
    · rename_i hread
      rw [hread]
      rfl

theorem read_inline {s : σ} (hreplicas : c.ring.replicas key c.quorum.n = .ok replicas)
    (hmet : c.quorum.r ≤ (c.gathering net key replicas s).successes)
    (hinline : c.quorum.readRepair = .inline)
    (hne : Version.reconcile (c.gathering net key replicas s).versions ≠ []) :
    let round := ReadRound.run net c.quorum.sloppy key replicas (c.ring.standIns key replicas) c.quorum.r
      c.quorum.readTimeout (net.count .gets 1 s)
    ∃ t, (t = round.2 ∨ t = net.count .conflicts 1 round.2) ∧
      (c.read net key s).2 = repairObserved net key (c.resolution net key replicas s).canonical
        (c.gathering net key replicas s) (some c.quorum.readTimeout) t := by
  rw [gathering] at hmet hne
  obtain ⟨v, vs, hvs⟩ := List.exists_cons_of_ne_nil hne
  simp only [read, hreplicas, hinline, resolution, gathering]
  rw [if_neg (Nat.not_lt_of_le hmet)]
  simp only [hvs]
  split <;> split
  · exact ⟨_, .inr rfl, rfl⟩
  · exact ⟨_, .inl rfl, rfl⟩
  · exact ⟨_, .inr rfl, rfl⟩
  · exact ⟨_, .inl rfl, rfl⟩

theorem read_nothing {s : σ} (hreplicas : c.ring.replicas key c.quorum.n = .ok replicas)
    (hmet : c.quorum.r ≤ (c.gathering net key replicas s).successes)
    (hnil : Version.reconcile (c.gathering net key replicas s).versions = []) :
    (c.read net key s).2 = (ReadRound.run net c.quorum.sloppy key replicas (c.ring.standIns key replicas)
      c.quorum.r c.quorum.readTimeout (net.count .gets 1 s)).2 := by
  rw [gathering] at hmet hnil
  simp only [read, hreplicas]
  rw [if_neg (Nat.not_lt_of_le hmet)]
  simp only [hnil]

theorem gathering_pushing (net : Network σ) (c : Coordinator) (key : Key) (replicas : List NodeId) (s : σ) :
    c.gathering net.pushing key replicas (s, []) = c.gathering net key replicas s :=
  (congrArg Prod.fst (ReadRound.run_shows net.shows_pushing replicas (c.ring.standIns key replicas)
    (net.count .gets 1 s, []))).symm

theorem read_effect (hnet : net.Quiet key replica) {s : σ}
    (hreplicas : c.ring.replicas key c.quorum.n = .ok replicas)
    (hmet : c.quorum.r ≤ (c.gathering net key replicas s).successes)
    (hinline : c.quorum.readRepair = .inline)
    (hnodup : ∀ limit, (((c.gathering net key replicas s).primaries ++
      lateAnswers limit (c.gathering net key replicas s).pending).map (·.1)).Nodup)
    (hok : ∀ push ∈ c.pushes net key s, push.2 = true) :
    let round := c.gathering net key replicas s
    let canonical := (c.resolution net key replicas s).canonical
    ∃ limit, c.quorum.readTimeout ≤ limit ∧ ∀ m, replica (c.read net key s).2 m =
      if canonical ≠ [] ∧ m ∈ stale canonical (round.primaries ++ lateAnswers (some limit) round.pending)
      then ((replica s m).merge key canonical).2 else replica s m := by
  have hrun : ∀ t : σ × List (NodeId × Bool), replica (ReadRound.run net.pushing c.quorum.sloppy key replicas
      (c.ring.standIns key replicas) c.quorum.r c.quorum.readTimeout t).2.1 = replica t.1 := fun t =>
    ReadRound.run_preserves (I := fun u : σ × List (NodeId × Bool) => replica u.1 = replica t.1)
      (fun n u hu => (hnet.get n u.1).trans hu) _ _ _ _ _ rfl
  have hstart : replica (net.count .gets 1 s) = replica s := hnet.count ..
  rw [resolution]
  rw [← gathering_pushing] at hmet hnodup ⊢
  rw [read_shows net.shows_pushing c (s, [])]
  rw [pushes] at hok
  by_cases hrec : Version.reconcile (c.gathering net.pushing key replicas (s, [])).versions = []
  · refine ⟨c.quorum.readTimeout, Nat.le_refl _, fun m => ?_⟩
    dsimp only
    rw [hrec, Version.canonical_nil, if_neg (by simp), read_nothing hreplicas hmet hrec, hrun]
    exact congrFun hstart m
  · obtain ⟨t, ht, hread⟩ := read_inline hreplicas hmet hinline hrec
    have hsame : replica t.1 = replica s := by
      rcases ht with rfl | rfl
      · exact (hrun _).trans hstart
      · exact (hnet.count ..).trans ((hrun _).trans hstart)
    have hne := Version.canonical_ne_nil c.quorum.policy hrec
    rw [hread] at hok ⊢
    obtain ⟨limit, hlimit, heffect⟩ := repairObserved_effect hnet hne c.quorum.readTimeout hnodup hok
    refine ⟨limit, hlimit, fun m => ?_⟩
    rw [← hsame]
    refine (heffect m).trans ?_
    simp only [ne_eq, hne, not_false_eq_true, true_and]

theorem mem_lateAnswers {limit : Nat} {pending : List (InFlight ReadAnswer)} {n : NodeId} :
    (n, vs) ∈ lateAnswers (some limit) pending ↔ ∃ call ∈ pending, call.answer.isStandIn = false ∧
      call.due < limit ∧ call.answer.versions = .ok vs ∧ call.answer.node = n := by
  simp only [lateAnswers, List.mem_filterMap]
  refine exists_congr fun call => and_congr_right fun _ => ?_
  cases call.answer.versions with
  | error e => simp
  | ok us =>
    by_cases hlate : call.answer.isStandIn = false ∧ call.due < limit
    · simp [hlate.1, hlate.2, and_comm]
    · have hskip : (call.answer.isStandIn || !((some limit).all fun t => decide (call.due < t))) = true := by
        simpa [Classical.or_iff_not_imp_left] using hlate
      dsimp only
      rw [if_pos hskip]
      exact iff_of_false (fun h => nomatch h) fun h => hlate ⟨h.1, h.2.1⟩

theorem lateAnswers_sublist (limit : Option Nat) (pending : List (InFlight ReadAnswer)) :
    ((lateAnswers limit pending).map (·.1)).Sublist (pending.map (·.answer.node)) := by
  induction pending with
  | nil => exact .slnil
  | cons call pending ih =>
    rw [lateAnswers, List.filterMap_cons]
    split
    · exact ih.cons _
    · rename_i o ho
      have hnode : o.1 = call.answer.node := by
        split at ho
        · cases ho
        · split at ho <;> cases ho
          rfl
      rw [List.map_cons, hnode]
      exact ih.cons_cons _

theorem read_mends (hnet : net.Quiet key replica) {s : σ}
    (hreplicas : c.ring.replicas key c.quorum.n = .ok replicas)
    (hmet : c.quorum.r ≤ (c.gathering net key replicas s).successes)
    (hinline : c.quorum.readRepair = .inline) (hok : ∀ push ∈ c.pushes net key s, push.2 = true) :
    let round := c.gathering net key replicas s
    let canonical := (c.resolution net key replicas s).canonical
    (∀ n vs, (n, vs) ∈ round.primaries ++ lateAnswers (some c.quorum.readTimeout) round.pending →
      replica (c.read net key s).2 n =
        if canonical = [] then replica s n else (replica s n).mend key vs canonical) ∧
    ∀ m, m ∉ replicas → replica (c.read net key s).2 m = replica s m := by
  intro round canonical
  have hroll := c.gathering_roll (hnet.reads s) hreplicas (hnet.count .gets 1 s)
  have hnodup : ∀ limit, ((round.primaries ++ lateAnswers limit round.pending).map (·.1)).Nodup := by
    intro limit
    refine List.Nodup.sublist ?_ (hroll.nodup.sublist ((List.sublist_append_left ..).append_left _))
    rw [List.map_append]
    exact hroll.inOrder.append (lateAnswers_sublist limit _)
  obtain ⟨limit, hlimit, heffect⟩ := read_effect hnet hreplicas hmet hinline hnodup hok
  refine ⟨fun n vs hn => ?_, fun m hm => ?_⟩
  · have hmem : (n, vs) ∈ round.primaries ++ lateAnswers (some limit) round.pending := by
      refine (List.mem_append.mp hn).elim (List.mem_append_left _) fun hlate => List.mem_append_right _ ?_
      obtain ⟨call, hcall, hkind, hdue, hshown⟩ := mem_lateAnswers.mp hlate
      exact mem_lateAnswers.mpr ⟨call, hcall, hkind, Nat.lt_of_lt_of_le hdue hlimit, hshown⟩
    have hstale : n ∈ stale canonical _ ↔ _ := Repair.mem_stale_iff (hnodup _) hmem
    rw [heffect, Replica.mend]
    by_cases hnil : canonical = []
    · rw [if_neg fun h => h.1 hnil, if_pos hnil]
    · rw [if_neg hnil]
      by_cases hdiffers : Version.differs vs canonical = true
      · rw [if_pos ⟨hnil, hstale.mpr hdiffers⟩, if_pos hdiffers]
      · rw [if_neg fun h => hdiffers (hstale.mp h.2), if_neg hdiffers]
  · rw [heffect, if_neg]
    rintro ⟨-, hstale⟩
    obtain ⟨⟨n, vs⟩, hn, rfl⟩ := List.mem_map.mp ((Repair.stale_sublist ..).subset hstale)
    rcases List.mem_append.mp hn with hn | hn
    · exact hm ((hroll.primaries n vs).mp hn).2.1
    · obtain ⟨call, hcall, hkind, -, -, rfl⟩ := mem_lateAnswers.mp hn
      exact hm ((hroll.faithful call hcall).standing.mp hkind)

end Coordinator

namespace Cluster

variable {e : Environment} {d : Cluster} {n : NodeId} {request : Request}

def Incident.Outward : Incident → Prop
  | .counted _ _ => True
  | .fares _ _ => True
  | .slowed _ => True
  | .losing _ => True
  | .tick _ => True
  | _ => False

theorem replica_befall {i : Incident} (h : i.Outward) (c : Cluster) :
    (i.befall c).replica = c.replica := by
  cases i with
  | counted | fares | slowed | losing | tick => rfl
  | call | damage | mend | settled | undelivered => exact h.elim

theorem replica_happen {events : List e.Event} (h : ∀ i ∈ events, i.val.Outward) (c : Cluster) :
    (happen events c).replica = c.replica := by
  induction events generalizing c with
  | nil => rfl
  | cons i events ih =>
    obtain ⟨hi, hevents⟩ := List.forall_mem_cons.mp h
    exact (ih hevents (i.val.befall c)).trans (replica_befall hi c)

theorem replica_send_of_unchanging (hkind : request.kind ≠ .handoff)
    (hsame : ∀ p now (r : Replica), (r.handle p n now request).2 = r) :
    (send n request d).2.replica = d.replica := by
  rw [send_eq hkind]
  split
  · rfl
  · split
    · rfl
    · split
      · rfl
      · simp only [reachCounted]
        have hreach : ((d.count (.sent request.kind) 1).reach n request).2.replica = d.replica := by
          rcases reach_cases (d.count (.sent request.kind) 1) n request with ⟨e, delay, h⟩ | ⟨tally, -, h⟩
          · rw [h]
            rfl
          · rw [h]
            funext m
            rw [replica_became, hsame]
            split
            · rename_i hm
              rw [hm]
              rfl
            · rfl
        split <;> exact hreach

theorem quiet_interrupted {events : Nat → List e.Event} (h : ∀ k, ∀ i ∈ events k, i.val.Outward)
    (key : Key) : (interrupted events).Quiet key (fun s => s.cluster.replica) where
  count _ _ _ := rfl
  get n s := by
    rw [← replica_happen (h s.calls) s.cluster]
    exact replica_send_of_unchanging (by simp [Request.kind]) (fun _ _ _ => rfl)
  answer n s vs hvs := by
    obtain ⟨hread, -⟩ := answered_of_send (by simp [Request.kind]) rfl hvs (by simp)
    rw [replica_happen (h s.calls)] at hread
    simp only [Replica.handle] at hread
    cases hr : (s.cluster.replica n).read key with
    | error e =>
      rw [hr] at hread
      cases hread
    | ok us =>
      rw [hr] at hread
      cases hread
      rfl
  push n vs s changed hmerged m := by
    obtain ⟨-, tally, hsend⟩ := answered_of_send (by simp [Request.kind]) rfl hmerged (by simp)
    have hreplica := congrFun (congrArg replica hsend) m
    rw [replica_became, replica_happen (h s.calls)] at hreplica
    exact hreplica

end Cluster

end QuorumStore
