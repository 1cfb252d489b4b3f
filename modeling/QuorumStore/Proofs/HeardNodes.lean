import QuorumStore.Proofs.Operations

namespace QuorumStore

namespace ReadRound

variable {σ ε : Type} {net : Network σ} {I : σ → Prop} {sloppy : Bool} {key : Key} {quorum deadline : Nat}
  {replicas standIns heard : List NodeId} {g : ReadRound} {call : InFlight ReadAnswer}
  {rest : List (InFlight ReadAnswer)}

def hearing (net : Network σ) (sloppy : Bool) (key : Key) (quorum deadline : Nat) :
    Nat → ReadRound → σ → List ReadAnswer
  | 0, _, _ => []
  | fuel + 1, g, s =>
      if quorum ≤ g.successes then []
      else
        match InFlight.earliest g.pending with
        | none => []
        | some (call, rest) =>
            if deadline ≤ call.due then []
            else
              let (g, s) := receive net sloppy key quorum call.answer
                { g with pending := rest, time := call.due } s
              call.answer :: hearing net sloppy key quorum deadline fuel g s

def speakers (answers : List ReadAnswer) : List NodeId :=
  (answers.filter (·.versions.isOk)).map (·.node)

theorem speakers_append (answers answers' : List ReadAnswer) :
    speakers (answers ++ answers') = speakers answers ++ speakers answers' := by
  simp [speakers]

def heardNodes (net : Network σ) (sloppy : Bool) (key : Key) (replicas standIns : List NodeId)
    (quorum deadline : Nat) (s : σ) : List NodeId :=
  let (pending, s) := askAll net key replicas s
  speakers (hearing net sloppy key quorum deadline (replicas.length + standIns.length)
    ⟨0, [], [], pending, standIns, 0⟩ s)

variable {view : NodeId → Except ε (List Version)}

structure Faithful (view : NodeId → Except ε (List Version)) (replicas : List NodeId)
    (a : ReadAnswer) : Prop where
  standing : a.isStandIn = false ↔ a.node ∈ replicas
  shown : ∀ vs, a.versions = .ok vs → view a.node = .ok vs

structure Roll (view : NodeId → Except ε (List Version)) (replicas heard : List NodeId)
    (g : ReadRound) : Prop where
  nodup : (heard ++ (g.awaited ++ g.standIns)).Nodup
  count : g.successes = heard.length
  primaries : ∀ n vs, (n, vs) ∈ g.primaries ↔ n ∈ heard ∧ n ∈ replicas ∧ view n = .ok vs
  inOrder : (g.primaries.map Prod.fst).Sublist heard
  hinted : ∀ v, v ∈ g.hinted ↔ ∃ n ∈ heard, n ∉ replicas ∧ ∃ vs, view n = .ok vs ∧ v ∈ vs
  seen : ∀ n ∈ heard, ∃ vs, view n = .ok vs
  faithful : ∀ call ∈ g.pending, Faithful view replicas call.answer
  standIns : ∀ n ∈ g.standIns, n ∉ replicas

theorem mem_primaries_hear {n m : NodeId} {isStandIn : Bool} {us vs : List Version} :
    (n, us) ∈ (g.hear m isStandIn vs).primaries ↔
      (n, us) ∈ g.primaries ∨ isStandIn = false ∧ n = m ∧ us = vs := by
  cases isStandIn <;> simp [hear]

theorem mem_hinted_hear {m : NodeId} {isStandIn : Bool} {vs : List Version} {v : Version} :
    v ∈ (g.hear m isStandIn vs).hinted ↔ v ∈ g.hinted ∨ isStandIn = true ∧ v ∈ vs := by
  cases isStandIn <;> simp [hear]

namespace Roll

theorem hear (h : Roll view replicas heard g) (hperm : (call :: rest).Perm g.pending) {vs : List Version}
    (hvs : call.answer.versions = .ok vs) :
    Roll view replicas (heard ++ [call.answer.node])
      (({ g with pending := rest, time := call.due } : ReadRound).hear call.answer.node
        call.answer.isStandIn vs) := by
  obtain ⟨hstanding, hshown⟩ := h.faithful call (hperm.subset (List.mem_cons_self ..))
  have hview := hshown vs hvs
  have hnodes : (call.answer.node :: rest.map (·.answer.node)).Perm g.awaited :=
    hperm.map (fun c : InFlight ReadAnswer => c.answer.node)
  have hguest : call.answer.isStandIn = true ↔ call.answer.node ∉ replicas := by
    rw [← hstanding, Bool.not_eq_false]
  refine ⟨?_, ?_, fun n us => ?_, ?_, fun v => ?_, ?_, ?_, ?_⟩
  · rw [awaited, pending_hear, standIns_hear, List.append_assoc]
    exact ((hnodes.append_right g.standIns).append_left heard).nodup_iff.mpr h.nodup
  · simp [h.count]
  · rw [mem_primaries_hear, hstanding, List.mem_append, List.mem_singleton]
    constructor
    · rintro (hold | ⟨hmem, rfl, rfl⟩)
      · obtain ⟨hn, hr, hus⟩ := (h.primaries n us).mp hold
        exact ⟨.inl hn, hr, hus⟩
      · exact ⟨.inr rfl, hmem, hview⟩
    · rintro ⟨hn | rfl, hr, hus⟩
      · exact .inl ((h.primaries n us).mpr ⟨hn, hr, hus⟩)
      · exact .inr ⟨hr, rfl, Except.ok.inj (hus.symm.trans hview)⟩
  · cases call.answer.isStandIn with
    | false =>
      rw [ReadRound.hear, if_neg Bool.false_ne_true, List.map_append]
      exact h.inOrder.append (.refl [call.answer.node])
    | true => exact h.inOrder.trans (List.sublist_append_left ..)
  · rw [mem_hinted_hear, hguest]
    constructor
    · rintro (hold | ⟨hmem, hv⟩)
      · obtain ⟨n, hn, hshow⟩ := (h.hinted v).mp hold
        exact ⟨n, List.mem_append_left _ hn, hshow⟩
      · exact ⟨_, List.mem_append_right _ (List.mem_singleton_self _), hmem, vs, hview, hv⟩
    · rintro ⟨n, hn, hr, us, hus, hv⟩
      rcases List.mem_append.mp hn with hn | hn
      · exact .inl ((h.hinted v).mpr ⟨n, hn, hr, us, hus, hv⟩)
      · obtain rfl := List.mem_singleton.mp hn
        exact .inr ⟨hr, Except.ok.inj (hus.symm.trans hview) ▸ hv⟩
  · exact List.forall_mem_append.mpr ⟨h.seen, List.forall_mem_singleton.mpr ⟨vs, hview⟩⟩
  · simpa using fun c hc => h.faithful c (hperm.subset (List.mem_cons_of_mem _ hc))
  · simpa using h.standIns

theorem drop (h : Roll view replicas heard g) (hperm : (call :: rest).Perm g.pending) :
    Roll view replicas heard { g with pending := rest, time := call.due } := by
  have hnodes : (call.answer.node :: rest.map (·.answer.node)).Perm g.awaited :=
    hperm.map (fun c : InFlight ReadAnswer => c.answer.node)
  refine ⟨?_, h.count, h.primaries, h.inOrder, h.hinted, h.seen,
    fun c hc => h.faithful c (hperm.subset (List.mem_cons_of_mem _ hc)), h.standIns⟩
  have hall := ((hnodes.append_right g.standIns).append_left heard).nodup_iff.mpr h.nodup
  exact hall.sublist ((List.sublist_cons_self ..).append_left heard)

theorem ask {s : σ} {n : NodeId} {ns : List NodeId} (h : Roll view replicas heard g)
    (hns : g.standIns = n :: ns)
    (hshown : ∀ vs, (ReadRound.ask net key true g.time n s).1.answer.versions = .ok vs → view n = .ok vs) :
    Roll view replicas heard
      { g with pending := g.pending ++ [(ReadRound.ask net key true g.time n s).1], standIns := ns } := by
  have hnew : n ∉ replicas := h.standIns n (hns ▸ List.mem_cons_self ..)
  refine ⟨?_, h.count, h.primaries, h.inOrder, h.hinted, h.seen, ?_,
    fun m hm => h.standIns m (hns ▸ List.mem_cons_of_mem n hm)⟩
  · have hall := h.nodup
    rw [hns] at hall
    rw [awaited, List.map_append, List.append_assoc]
    exact hall
  · refine List.forall_mem_append.mpr ⟨h.faithful, List.forall_mem_singleton.mpr ⟨?_, hshown⟩⟩
    exact iff_of_false (Bool.true_eq_false ▸ id) hnew

end Roll

theorem shown_ask (hr : Reads net key I (fun n vs => view n = .ok vs)) {n : NodeId}
    {isStandIn : Bool} {time : Nat} {s : σ} (hs : I s) :
    ∀ vs, (ask net key isStandIn time n s).1.answer.versions = .ok vs → view n = .ok vs :=
  hr.proper hs

theorem Roll.receive (hr : Reads net key I (fun n vs => view n = .ok vs))
    (h : Roll view replicas heard g) (hcall : InFlight.earliest g.pending = some (call, rest)) {s : σ}
    (hs : I s) :
    Roll view replicas (heard ++ speakers [call.answer])
      (receive net sloppy key quorum call.answer { g with pending := rest, time := call.due } s).1 := by
  have hperm := InFlight.earliest_perm hcall
  rw [ReadRound.receive]
  split
  · rename_i vs hvs
    have hspeaks : speakers [call.answer] = [call.answer.node] := by simp [speakers, hvs, Except.isOk, Except.toBool]
    rw [hspeaks]
    exact h.hear hperm hvs
  · rename_i e he
    have hsilent : speakers [call.answer] = [] := by simp [speakers, he, Except.isOk, Except.toBool]
    rw [hsilent, List.append_nil]
    have hdrop := h.drop hperm
    rw [replace]
    split
    · exact hdrop
    · rename_i n ns hns
      split
      · exact hdrop.ask hns (shown_ask hr hs)
      · exact hdrop

theorem listen_roll (hr : Reads net key I (fun n vs => view n = .ok vs)) (fuel : Nat)
    (h : Roll view replicas heard g) {s : σ} (hs : I s) :
    Roll view replicas (heard ++ speakers (hearing net sloppy key quorum deadline fuel g s))
      (listen net sloppy key quorum deadline fuel g s).1 := by
  have hstop : Roll view replicas (heard ++ speakers []) g := (List.append_nil heard).symm ▸ h
  induction fuel generalizing heard g s with
  | zero => exact hstop
  | succ fuel ih =>
    by_cases hmet : quorum ≤ g.successes
    · simp only [hearing, listen, if_pos hmet]
      exact hstop
    · simp only [hearing, listen, if_neg hmet]
      cases hcall : InFlight.earliest g.pending with
      | none => exact hstop
      | some next =>
        obtain ⟨call, rest⟩ := next
        by_cases hlate : deadline ≤ call.due
        · simp only [if_pos hlate]
          exact ⟨hstop.nodup, hstop.count, hstop.primaries, hstop.inOrder, hstop.hinted, hstop.seen,
            hstop.faithful, hstop.standIns⟩
        · simp only [if_neg hlate]
          have hnext : Roll view replicas (heard ++ speakers [call.answer]) (receive net sloppy key quorum
              call.answer { g with pending := rest, time := call.due } s).1 := h.receive hr hcall hs
          have hkept : I (receive net sloppy key quorum call.answer
              { g with pending := rest, time := call.due } s).2 := receive_preserves hr.keeps _ _ hs
          have hlater := ih hnext hkept ((List.append_nil _).symm ▸ hnext)
          rw [List.append_assoc, ← speakers_append] at hlater
          exact hlater

theorem run_roll (hr : Reads net key I (fun n vs => view n = .ok vs)) (sloppy : Bool)
    (quorum deadline : Nat) (hall : (replicas ++ standIns).Nodup) {s : σ} (hs : I s) :
    Roll view replicas (heardNodes net sloppy key replicas standIns quorum deadline s)
      (run net sloppy key replicas standIns quorum deadline s).1 := by
  have hnodes : (askAll net key replicas s).1.map (·.answer.node) = replicas := map_node_askAll replicas s
  have hstart : Roll view replicas [] ⟨0, [], [], (askAll net key replicas s).1, standIns, 0⟩ := by
    refine ⟨?_, rfl, fun n vs => ?_, .refl _, fun v => ?_, List.forall_mem_nil _, ?_, fun n hn hmem => ?_⟩
    · rw [awaited, hnodes]
      exact hall
    · exact iff_of_false List.not_mem_nil fun h => List.not_mem_nil h.1
    · refine iff_of_false List.not_mem_nil ?_
      rintro ⟨_, hn, -⟩
      exact List.not_mem_nil hn
    · intro c hc
      obtain ⟨hkind, hshown⟩ := of_mem_askAll (Q := fun c => c.answer.isStandIn = false ∧
        ∀ vs, c.answer.versions = .ok vs → view c.answer.node = .ok vs) hr.keeps
        (fun n s hs => ⟨rfl, shown_ask hr hs⟩) replicas hs c hc
      exact ⟨iff_of_true hkind (hnodes ▸ List.mem_map_of_mem hc), hshown⟩
    · exact (List.nodup_append.mp hall).2.2 n hmem n hn rfl
  exact listen_roll hr _ hstart (askAll_preserves hr.keeps replicas hs)

end ReadRound

namespace Coordinator

variable {σ : Type}

def heardNodes (net : Network σ) (c : Coordinator) (key : Key) (replicas : List NodeId) (s : σ) : List NodeId :=
  ReadRound.heardNodes net c.quorum.sloppy key replicas (c.ring.standIns key replicas) c.quorum.r
    c.quorum.readTimeout (net.count .gets 1 s)

theorem gathering_roll {ε : Type} {net : Network σ} {c : Coordinator} {key : Key} {replicas : List NodeId}
    {I : σ → Prop} {view : NodeId → Except ε (List Version)}
    (hr : ReadRound.Reads net key I (fun n vs => view n = .ok vs))
    (hreplicas : c.ring.replicas key c.quorum.n = .ok replicas) {s : σ} (hs : I (net.count .gets 1 s)) :
    ReadRound.Roll view replicas (c.heardNodes net key replicas s) (c.gathering net key replicas s) :=
  ReadRound.run_roll hr _ _ _ (Ring.nodup_replicas_append_standIns hreplicas) hs

end Coordinator

end QuorumStore
