import QuorumStore.Proofs.Operations

namespace QuorumStore

variable {σ τ : Type} {net : Network σ} {net' : Network τ} {f : τ → σ} {key : Key} {v : Version}
  {sloppy : Bool} {quorum deadline : Nat}

structure Network.Shows (net : Network σ) (net' : Network τ) (f : τ → σ) : Prop where
  send : ∀ n request s, net.send n request (f s) =
    ((net'.send n request s).1, f (net'.send n request s).2)
  now : ∀ s, net.now (f s) = net'.now s
  count : ∀ m k s, net.count m k (f s) = f (net'.count m k s)

namespace ReadRound

theorem ask_shows (h : net.Shows net' f) (isStandIn : Bool) (time : Nat) (n : NodeId) (s : τ) :
    ask net key isStandIn time n (f s) =
      ((ask net' key isStandIn time n s).1, f (ask net' key isStandIn time n s).2) := by
  simp only [ask, h.send]

theorem askAll_shows (h : net.Shows net' f) (ns : List NodeId) (s : τ) :
    askAll net key ns (f s) = ((askAll net' key ns s).1, f (askAll net' key ns s).2) := by
  induction ns generalizing s with
  | nil => rfl
  | cons n ns ih => simp only [askAll, ask_shows h, ih]

theorem receive_shows (h : net.Shows net' f) (a : ReadAnswer) (g : ReadRound) (s : τ) :
    receive net sloppy key quorum a g (f s) =
      ((receive net' sloppy key quorum a g s).1, f (receive net' sloppy key quorum a g s).2) := by
  unfold receive
  split
  · rfl
  · unfold replace
    split
    · rfl
    · split
      · simp only [ask_shows h]
      · rfl

theorem listen_shows (h : net.Shows net' f) (fuel : Nat) (g : ReadRound) (s : τ) :
    listen net sloppy key quorum deadline fuel g (f s) =
      ((listen net' sloppy key quorum deadline fuel g s).1,
        f (listen net' sloppy key quorum deadline fuel g s).2) := by
  induction fuel generalizing g s with
  | zero => rfl
  | succ fuel ih =>
    unfold listen
    split
    · rfl
    · split
      · rfl
      · split
        · rfl
        · simp only [receive_shows h, ih]

theorem run_shows (h : net.Shows net' f) (replicas standIns : List NodeId) (s : τ) :
    run net sloppy key replicas standIns quorum deadline (f s) =
      ((run net' sloppy key replicas standIns quorum deadline s).1,
        f (run net' sloppy key replicas standIns quorum deadline s).2) := by
  simp only [run, askAll_shows h, listen_shows h]

end ReadRound

namespace WriteRound

theorem write_shows (h : net.Shows net' f) (time : Nat) (target : NodeId) (standIn : Option NodeId)
    (s : τ) :
    write net key v time target standIn (f s) =
      ((write net' key v time target standIn s).1, f (write net' key v time target standIn s).2) := by
  cases standIn with
  | none => simp only [write, h.send]
  | some n => simp only [write, h.send]

theorem writeAll_shows (h : net.Shows net' f) (time : Nat) (ns : List NodeId) (s : τ) :
    writeAll net key v time ns (f s) =
      ((writeAll net' key v time ns s).1, f (writeAll net' key v time ns s).2) := by
  induction ns generalizing s with
  | nil => rfl
  | cons n ns ih => simp only [writeAll, write_shows h, ih]

theorem receive_shows (h : net.Shows net' f) (a : WriteAnswer) (g : WriteRound) (s : τ) :
    receive net sloppy key v a g (f s) =
      ((receive net' sloppy key v a g s).1, f (receive net' sloppy key v a g s).2) := by
  unfold receive
  split
  · rfl
  · unfold replace
    split
    · rfl
    · split
      · simp only [write_shows h]
      · rfl

theorem listen_shows (h : net.Shows net' f) (fuel : Nat) (g : WriteRound) (s : τ) :
    listen net sloppy key v quorum deadline fuel g (f s) =
      ((listen net' sloppy key v quorum deadline fuel g s).1,
        f (listen net' sloppy key v quorum deadline fuel g s).2) := by
  induction fuel generalizing g s with
  | zero => rfl
  | succ fuel ih =>
    unfold listen
    split
    · rfl
    · split
      · rfl
      · split
        · rfl
        · simp only [receive_shows h, ih]

theorem drain_shows (h : net.Shows net' f) (fuel : Nat) (g : WriteRound) (s : τ) :
    drain net sloppy key v fuel g (f s) =
      ((drain net' sloppy key v fuel g s).1, f (drain net' sloppy key v fuel g s).2) := by
  induction fuel generalizing g s with
  | zero => rfl
  | succ fuel ih =>
    unfold drain
    split
    · rfl
    · simp only [receive_shows h, ih]

theorem run_shows (h : net.Shows net' f) (replicas standIns : List NodeId) (time : Nat) (s : τ) :
    run net sloppy key v replicas standIns quorum time deadline (f s) =
      ((run net' sloppy key v replicas standIns quorum time deadline s).1,
        f (run net' sloppy key v replicas standIns quorum time deadline s).2) := by
  simp only [run, writeAll_shows h, listen_shows h]

end WriteRound

theorem Coordinator.accept_shows (h : net.Shows net' f) (c : Coordinator) (payload : Payload)
    (context : VersionVector) (s : τ) :
    c.accept net key payload context (f s) =
      ((c.accept net' key payload context s).1, f (c.accept net' key payload context s).2) := by
  unfold accept
  simp only [h.count, ReadRound.run_shows h]
  split
  · rfl
  · split
    · rfl
    · simp only [h.now, WriteRound.run_shows h]
      split
      · simp only [h.count]
      · rfl

theorem Coordinator.write_shows (h : net.Shows net' f) (c : Coordinator) (payload : Payload)
    (context : VersionVector) (s : τ) :
    c.write net key payload context (f s) =
      ((c.write net' key payload context s).1, f (c.write net' key payload context s).2) := by
  unfold write
  rw [accept_shows h]
  rcases c.accept net' key payload context s with ⟨_ | ⟨ack, round⟩, t⟩
  · rfl
  · simp only [WriteRound.drain_shows h]

def Request.version? : Request → Option Version
  | .put _ v => some v
  | .putHinted _ _ v => some v
  | _ => none

def Network.noting (net : Network σ) : Network (σ × List Version) where
  send n request s :=
    let (reply, t) := net.send n request s.1
    (reply, t, if reply.answer.isOk then s.2 ++ request.version?.toList else s.2)
  now s := net.now s.1
  count m k s := (net.count m k s.1, s.2)

theorem Network.Preserves.noting {I : σ → Prop} (h : net.Preserves I) :
    net.noting.Preserves (fun s => I s.1) :=
  ⟨fun n request _ hs => h.send n request hs, fun m k _ hs => h.count m k hs⟩

theorem ReadRound.Reads.noting {I : σ → Prop} {good : NodeId → List Version → Prop}
    (h : Reads net key I good) : Reads net.noting key (fun s => I s.1) good :=
  ⟨fun n s => h.keeps n s.1, fun n s => h.good n s.1⟩

theorem Network.reply_noting (net : Network σ) (n : NodeId) (request : Request)
    (s : σ × List Version) : (net.noting.send n request s).1 = (net.send n request s.1).1 :=
  rfl

theorem Network.state_noting (net : Network σ) (n : NodeId) (request : Request)
    (s : σ × List Version) : (net.noting.send n request s).2.1 = (net.send n request s.1).2 :=
  rfl

theorem Network.mem_noted_iff {n : NodeId} {request : Request} {s : σ × List Version} :
    v ∈ (net.noting.send n request s).2.2 ↔
      v ∈ s.2 ∨ request.version? = some v ∧ (net.send n request s.1).1.answer.isOk = true := by
  simp only [noting]
  split
  · rename_i hok
    rw [hok, List.mem_append, Option.mem_toList, and_iff_left rfl]
  · rename_i hfail
    exact ⟨.inl, fun h => h.elim id fun h => absurd h.2 hfail⟩

theorem Network.noted_stays (net : Network σ) (v : Version) :
    net.noting.Preserves (fun s => v ∈ s.2) :=
  ⟨fun _ _ _ hs => mem_noted_iff.mpr (.inl hs), fun _ _ _ hs => hs⟩

theorem ReadRound.run_notes_nothing (replicas standIns : List NodeId) (s : σ × List Version) :
    (run net.noting sloppy key replicas standIns quorum deadline s).2.2 = s.2 := by
  refine run_preserves (I := fun t : σ × List Version => t.2 = s.2) ?_ sloppy replicas standIns quorum deadline rfl
  intro n t ht
  rw [← ht]
  simp only [Network.noting, Request.version?, Option.toList_none, List.append_nil, ite_self]

namespace WriteRound

variable {I : σ → Prop} {replicas standIns : List NodeId} {n : NodeId} {time : Nat}
  {s : σ × List Version}

theorem run_takes (hnet : net.Preserves I) (hn : n ∈ replicas)
    (hok : ∀ s, I s → (net.send n (.put key v) s).1.answer.isOk = true) (hs : I s.1) :
    v ∈ (run net.noting sloppy key v replicas standIns quorum time deadline s).2.2 := by
  have hstays := net.noted_stays v
  have hall : v ∈ (writeAll net.noting key v time replicas s).2.2 := by
    induction replicas generalizing s with
    | nil => exact nomatch hn
    | cons m ms ih =>
      rcases List.mem_cons.mp hn with rfl | hn
      · exact writeAll_preserves (I := fun t : σ × List Version => v ∈ t.2) (fun n _ => hstays.send n _)
          time ms (Network.mem_noted_iff.mpr (.inr ⟨rfl, hok s.1 hs⟩))
      · exact ih hn (hnet.send m (.put key v) hs)
  exact listen_preserves (I := fun t : σ × List Version => v ∈ t.2) (fun n _ => hstays.send n _)
    (fun n _ _ => hstays.send n _) _ _ hall

theorem run_of_replaced {K : σ → Prop} (hK : net.Preserves K) {m : NodeId} {s : σ} {e : CallError}
    (hfail : (net.send n (.put key v) s).1.answer = .error e)
    (hdue : time + (net.send n (.put key v) s).1.delay < deadline)
    (h : K (net.send m (.putHinted n key v) (net.send n (.put key v) s).2).2) :
    K (run net true key v [n] (m :: standIns) (quorum + 1) time deadline s).2 := by
  have hwrite : (write net key v time n none s).1 =
      ⟨time + (net.send n (.put key v) s).1.delay, ⟨n, none, .error e⟩⟩ := by
    simp only [write, hfail]
    rfl
  rw [run, List.length_singleton, Nat.add_comm 1]
  simp only [writeAll, hwrite, listen, InFlight.earliest, receive, replace]
  rw [if_neg (by omega), if_neg (by omega)]
  exact listen_preserves (fun n _ => hK.send n _) (fun n _ _ => hK.send n _) _ _ h

theorem receive_of_strict {g : WriteRound} {s : σ} (hnone : sloppy = false ∨ g.standIns = [])
    (a : WriteAnswer) :
    (receive net sloppy key v a g s).2 = s ∧
      (sloppy = false ∨ (receive net sloppy key v a g s).1.standIns = []) := by
  unfold receive
  split
  · exact ⟨rfl, hnone⟩
  · unfold replace
    split
    · exact ⟨rfl, hnone⟩
    · rename_i hns
      split
      · rename_i hsloppy
        rw [hns, hsloppy] at hnone
        exact absurd hnone (by simp)
      · exact ⟨rfl, hnone⟩

theorem run_of_strict (hnone : sloppy = false ∨ standIns = []) (replicas : List NodeId) (s : σ) :
    (run net sloppy key v replicas standIns quorum time deadline s).2 =
        (writeAll net key v time replicas s).2 ∧
      (sloppy = false ∨
        (run net sloppy key v replicas standIns quorum time deadline s).1.standIns = []) := by
  refine listen_induction (M := fun g t => t = (writeAll net key v time replicas s).2 ∧
    (sloppy = false ∨ g.standIns = [])) (fun _ _ h => h) ?_ _ ⟨rfl, hnone⟩
  rintro g t call rest - - ⟨rfl, hg⟩
  refine receive_of_strict ?_ call.answer
  exact hg

theorem drain_of_strict {g : WriteRound} {s : σ} (hnone : sloppy = false ∨ g.standIns = [])
    (fuel : Nat) : (drain net sloppy key v fuel g s).2 = s := by
  refine (drain_induction (M := fun g t => t = s ∧ (sloppy = false ∨ g.standIns = [])) ?_ fuel
    ⟨rfl, hnone⟩).1
  rintro g t call rest - ⟨rfl, hg⟩
  refine receive_of_strict ?_ call.answer
  exact hg

end WriteRound

namespace Coordinator

variable {c : Coordinator} {payload : Payload} {context vector : VersionVector}
  {replicas : List NodeId}

theorem write_takes {s : σ × List Version}
    (hreplicas : c.ring.replicas key c.quorum.n = .ok replicas)
    (hvector : stamp? c.id (c.surveying net.noting key payload replicas s).1.versions context =
      some vector)
    (h : v ∈ (c.storing net.noting key replicas
      (payload.version vector (net.noting.now (c.surveying net.noting key payload replicas s).2))
      (c.surveying net.noting key payload replicas s)).2.2) :
    v ∈ (c.write net.noting key payload context s).2.2 := by
  have hstays := net.noted_stays v
  rw [write_eq hreplicas hvector]
  dsimp only
  split
  · exact hstays.count _ _ h
  · exact WriteRound.drain_preserves (I := fun t : σ × List Version => v ∈ t.2)
      (fun n _ => hstays.send n _) (fun n _ _ => hstays.send n _) _ _ h

theorem write_of_single {K : σ → Prop} (hcount : ∀ m k s, K s → K (net.count m k s)) {n : NodeId}
    {s : σ} (hreplicas : c.ring.replicas key c.quorum.n = .ok [n])
    (hnone : c.quorum.sloppy = false ∨ c.ring.standIns key [n] = [])
    (hvector : stamp? c.id (c.surveying net key payload [n] s).1.versions context = some vector)
    (h : K (net.send n (.put key (payload.version vector
      (net.now (c.surveying net key payload [n] s).2))) (c.surveying net key payload [n] s).2).2) :
    K (c.write net key payload context s).2 := by
  obtain ⟨hstate, hg⟩ := WriteRound.run_of_strict hnone [n] (c.surveying net key payload [n] s).2
  have hone : K (c.storing net key [n] (payload.version vector
      (net.now (c.surveying net key payload [n] s).2)) (c.surveying net key payload [n] s)).2 := by
    rw [storing, hstate]
    exact h
  rw [write_eq hreplicas hvector]
  dsimp only
  split
  · exact hcount _ _ _ hone
  · exact (congrArg K (WriteRound.drain_of_strict hg _)).mpr hone

end Coordinator

end QuorumStore
