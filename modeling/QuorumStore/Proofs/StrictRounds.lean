import QuorumStore.Proofs.CalmCluster

namespace QuorumStore

variable {σ τ : Type} {net : Network σ} {I : σ → Prop} {key : Key} {v : Version} {quorum deadline : Nat}
  {up : NodeId → Bool} {replicas standIns : List NodeId}

theorem countP_le_of_map {α : Type} {calls : List α} {node : α → NodeId} {good : α → Bool}
    (hnodes : calls.map node = replicas)
    (hgood : ∀ c ∈ calls, up (node c) = true → node c ∈ replicas → good c = true) :
    replicas.countP up ≤ calls.countP good := by
  rw [← hnodes, List.countP_map]
  refine List.countP_mono_left fun c hc hup => hgood c hc hup ?_
  exact hnodes ▸ List.mem_map_of_mem hc

namespace ReadRound

def settle (a : ReadAnswer) (g : ReadRound) : ReadRound :=
  match a.versions with
  | .ok vs => g.hear a.node a.isStandIn vs
  | .error _ => g

theorem receive_of_strict (net : Network σ) (key : Key) (quorum : Nat) (a : ReadAnswer) (g : ReadRound)
    (s : σ) : receive net false key quorum a g s = (settle a g, s) := by
  simp only [receive, settle]
  cases a.versions with
  | ok vs => rfl
  | error e =>
    simp only [replace]
    split
    · rfl
    · rfl

@[simp] theorem pending_settle (a : ReadAnswer) (g : ReadRound) : (settle a g).pending = g.pending := by
  unfold settle
  split
  · exact pending_hear ..
  · rfl

theorem successes_settle (a : ReadAnswer) (g : ReadRound) :
    (settle a g).successes = g.successes + if a.versions.isOk then 1 else 0 := by
  unfold settle
  split
  · rename_i h
    rw [successes_hear, h]
    rfl
  · rename_i h
    rw [h]
    rfl

theorem listen_of_strict (net : Network σ) (net' : Network τ) (fuel : Nat) (g : ReadRound) (s : σ)
    (s' : τ) : listen net false key quorum deadline fuel g s =
      ((listen net' false key quorum deadline fuel g s').1, s) := by
  induction fuel generalizing g with
  | zero => rfl
  | succ fuel ih =>
    unfold listen
    split
    · rfl
    · split
      · rfl
      · split
        · rfl
        · simp only [receive_of_strict, ih]

theorem min_le_successes_listen (fuel : Nat) {g : ReadRound} (s : σ) (hfuel : g.pending.length ≤ fuel)
    (hprompt : ∀ c ∈ g.pending, c.due < deadline) :
    min quorum (g.successes + g.pending.countP (·.answer.versions.isOk)) ≤
      (listen net false key quorum deadline fuel g s).1.successes := by
  induction fuel generalizing g with
  | zero =>
    rw [List.length_eq_zero_iff.mp (Nat.le_zero.mp hfuel), List.countP_nil]
    exact Nat.min_le_right ..
  | succ fuel ih =>
    unfold listen
    split
    · exact Nat.le_trans (Nat.min_le_left ..) ‹_›
    · split
      · rename_i hnone
        rw [InFlight.earliest_eq_none.mp hnone, List.countP_nil]
        exact Nat.min_le_right ..
      · rename_i call rest hcall
        have hperm := InFlight.earliest_perm hcall
        rw [if_neg (Nat.not_le_of_lt (hprompt call (hperm.subset (List.mem_cons_self ..))))]
        dsimp only
        rw [receive_of_strict]
        -- what the call adds to the successes it takes from the good answers under way
        have hlength := hperm.length_eq
        rw [List.length_cons] at hlength
        refine le_of_eq_of_le ?_ (ih (g := settle call.answer { g with pending := rest, time := call.due })
          ?_ ?_)
        · rw [successes_settle, pending_settle, ← hperm.countP_eq, List.countP_cons, Nat.add_assoc,
            Nat.add_comm (List.countP ..)]
        · rw [pending_settle]
          dsimp only
          omega
        · rw [pending_settle]
          exact fun c hc => hprompt c (hperm.subset (List.mem_cons_of_mem _ hc))

theorem min_le_successes_run (hkeeps : ∀ n s, I s → I (net.send n (.get key) s).2)
    (hdelay : ∀ n s, I s → (net.send n (.get key) s).1.delay = 0)
    (hanswer : ∀ n s, I s → up n = true → n ∈ replicas →
      ∃ vs, (net.send n (.get key) s).1.answer = .ok (.versions vs))
    (hdeadline : 0 < deadline) {s : σ} (hs : I s) : min quorum (replicas.countP up) ≤
      (run net false key replicas standIns quorum deadline s).1.successes := by
  have hcalls : ∀ c ∈ (askAll net key replicas s).1, c.due < deadline ∧
      (up c.answer.node = true → c.answer.node ∈ replicas → c.answer.versions.isOk = true) := by
    refine of_mem_askAll hkeeps (fun n s hs => ⟨?_, fun hup hmem => ?_⟩) replicas hs
    · simp only [ask, hdelay n s hs]
      exact hdeadline
    · obtain ⟨vs, hvs⟩ := hanswer n s hs hup hmem
      simp only [ask, hvs]
      rfl
  have hnodes : (askAll net key replicas s).1.map (·.answer.node) = replicas := map_node_askAll replicas s
  have hlength : (askAll net key replicas s).1.length = replicas.length := by
    rw [← List.length_map, hnodes]
  have hcount := countP_le_of_map hnodes fun c hc => (hcalls c hc).2
  refine le_trans ?_ (min_le_successes_listen _ _ ?_ fun c hc => (hcalls c hc).1)
  · dsimp only
    omega
  · dsimp only
    omega

end ReadRound

namespace WriteRound

theorem receive_ok (net : Network σ) {a : WriteAnswer} (g : WriteRound) (s : σ) :
    (receive net false key v a g s).1.acks = g.acks + (if a.outcome.isOk then 1 else 0) ∧
      (receive net false key v a g s).1.pending = g.pending := by
  unfold receive
  split
  · rename_i h
    rw [h]
    exact ⟨rfl, rfl⟩
  · rename_i h
    rw [h]
    unfold replace
    split
    · exact ⟨rfl, rfl⟩
    · exact ⟨rfl, rfl⟩

theorem min_le_acks_listen (fuel : Nat) {g : WriteRound} {s : σ} (hfuel : g.pending.length ≤ fuel)
    (hprompt : ∀ c ∈ g.pending, c.due < deadline) :
    min quorum (g.acks + g.pending.countP (·.answer.outcome.isOk)) ≤
      (listen net false key v quorum deadline fuel g s).1.acks := by
  induction fuel generalizing g s with
  | zero =>
    rw [List.length_eq_zero_iff.mp (Nat.le_zero.mp hfuel), List.countP_nil]
    exact Nat.min_le_right ..
  | succ fuel ih =>
    unfold listen
    split
    · exact Nat.le_trans (Nat.min_le_left ..) ‹_›
    · split
      · rename_i hnone
        rw [InFlight.earliest_eq_none.mp hnone, List.countP_nil]
        exact Nat.min_le_right ..
      · rename_i call rest hcall
        have hperm := InFlight.earliest_perm hcall
        rw [if_neg (Nat.not_le_of_lt (hprompt call (hperm.subset (List.mem_cons_self ..))))]
        have hlength := hperm.length_eq
        rw [List.length_cons] at hlength
        dsimp only
        generalize hreceive : receive net false key v call.answer
          { g with pending := rest, time := call.due } s = heard
        obtain ⟨hacks, hpending⟩ : heard.1.acks = _ ∧ heard.1.pending = _ := hreceive ▸ receive_ok ..
        refine le_of_eq_of_le ?_ (ih (g := heard.1) (s := heard.2) ?_ ?_)
        · rw [hacks, hpending, ← hperm.countP_eq, List.countP_cons, Nat.add_assoc,
            Nat.add_comm (List.countP ..)]
        · rw [hpending]
          dsimp only
          omega
        · rw [hpending]
          exact fun c hc => hprompt c (hperm.subset (List.mem_cons_of_mem _ hc))

theorem of_mem_writeAll {Q : InFlight WriteAnswer → Prop} {time : Nat}
    (hkeeps : ∀ n s, I s → I (net.send n (.put key v) s).2)
    (hwrite : ∀ n s, I s → Q (write net key v time n none s).1) (ns : List NodeId) {s : σ} (hs : I s) :
    ∀ c ∈ (writeAll net key v time ns s).1, Q c := by
  induction ns generalizing s with
  | nil => exact fun _ h => nomatch h
  | cons n ns ih =>
    intro c hc
    rcases List.mem_cons.mp hc with rfl | hc
    · exact hwrite n s hs
    · exact ih (hkeeps n s hs) c hc

theorem map_target_writeAll (time : Nat) (ns : List NodeId) (s : σ) :
    (writeAll net key v time ns s).1.map (·.answer.target) = ns := by
  induction ns generalizing s with
  | nil => rfl
  | cons n ns ih => exact congrArg (n :: ·) (ih _)

theorem min_le_acks_run (hkeeps : ∀ n s, I s → I (net.send n (.put key v) s).2)
    (hdelay : ∀ n s, I s → (net.send n (.put key v) s).1.delay = 0)
    (hanswer : ∀ n s, I s → up n = true → n ∈ replicas →
      ∃ response, (net.send n (.put key v) s).1.answer = .ok response)
    {time : Nat} (hdeadline : time < deadline) {s : σ} (hs : I s) : min quorum (replicas.countP up) ≤
      (run net false key v replicas standIns quorum time deadline s).1.acks := by
  have hcalls : ∀ c ∈ (writeAll net key v time replicas s).1, c.due < deadline ∧
      (up c.answer.target = true → c.answer.target ∈ replicas → c.answer.outcome.isOk = true) := by
    refine of_mem_writeAll hkeeps (fun n s hs => ⟨?_, fun hup hmem => ?_⟩) replicas hs
    · simp only [write, hdelay n s hs]
      exact hdeadline
    · obtain ⟨response, hresponse⟩ := hanswer n s hs hup hmem
      simp only [write, hresponse]
      rfl
  have htargets : (writeAll net key v time replicas s).1.map (·.answer.target) = replicas :=
    map_target_writeAll time replicas s
  have hlength : (writeAll net key v time replicas s).1.length = replicas.length := by
    rw [← List.length_map, htargets]
  have hcount := countP_le_of_map htargets fun c hc => (hcalls c hc).2
  refine le_trans ?_ (min_le_acks_listen _ ?_ fun c hc => (hcalls c hc).1)
  · dsimp only
    omega
  · dsimp only
    omega

theorem acks_run_of_deadline_zero (net : Network σ) (sloppy : Bool) (time : Nat) (s : σ) :
    (run net sloppy key v replicas standIns quorum time 0 s).1.acks = 0 := by
  have hlisten : ∀ fuel (g : WriteRound) (s : σ),
      (listen net sloppy key v quorum 0 fuel g s).1.acks = g.acks := by
    intro fuel g s
    cases fuel with
    | zero => rfl
    | succ fuel =>
      unfold listen
      split
      · rfl
      · split
        · rfl
        · rw [if_pos (Nat.zero_le _)]
  exact hlisten ..

end WriteRound

namespace Cluster

variable {e : Environment} {events : Nat → List e.Event}

theorem askAll_interrupted (ns : List NodeId) {s : Interrupted}
    (hquiet : ∀ k, k < s.calls + ns.length → events k = []) :
    ReadRound.askAll (interrupted events) key ns s =
      ((ReadRound.askAll network key ns s.cluster).1,
        ⟨(ReadRound.askAll network key ns s.cluster).2, s.calls + ns.length⟩) := by
  induction ns generalizing s with
  | nil => rfl
  | cons n ns ih =>
    rw [List.length_cons] at hquiet
    have hask : ReadRound.ask (interrupted events) key false 0 n s =
        ((ReadRound.ask network key false 0 n s.cluster).1,
          ⟨(ReadRound.ask network key false 0 n s.cluster).2, s.calls + 1⟩) := by
      simp only [ReadRound.ask, interrupted, hquiet s.calls (by omega)]
      rfl
    simp only [ReadRound.askAll, hask]
    rw [ih (s := ⟨(ReadRound.ask network key false 0 n s.cluster).2, s.calls + 1⟩)
      fun k hk => hquiet k (by dsimp only at hk; omega)]
    simp only [List.length_cons, Nat.add_assoc, Nat.add_comm 1]

theorem run_interrupted (replicas standIns : List NodeId) (quorum deadline : Nat) {s : Interrupted}
    (hquiet : ∀ k, k < s.calls + replicas.length → events k = []) :
    ReadRound.run (interrupted events) false key replicas standIns quorum deadline s =
      ((ReadRound.run network false key replicas standIns quorum deadline s.cluster).1,
        ⟨(ReadRound.run network false key replicas standIns quorum deadline s.cluster).2,
          s.calls + replicas.length⟩) := by
  rw [ReadRound.run, ReadRound.run, askAll_interrupted replicas hquiet]
  generalize ReadRound.askAll network key replicas s.cluster = asked
  dsimp only
  rw [ReadRound.listen_of_strict (interrupted events) network _ _ _ asked.2,
    congrArg Prod.snd (ReadRound.listen_of_strict network network _ _ asked.2 asked.2)]

theorem preserves_interrupted {J : Cluster → Prop} (hnet : network.Preserves J)
    (hquiet : ∀ k, events k = []) : (interrupted events).Preserves (fun s => J s.cluster) where
  send n request s hs := by
    show J (send n request (happen (events s.calls) s.cluster)).2
    rw [hquiet]
    exact hnet.send n request hs
  count m k _ hs := hnet.count m k hs

end Cluster

end QuorumStore
