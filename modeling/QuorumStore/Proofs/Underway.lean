import QuorumStore.Proofs.Interruption

namespace QuorumStore

open Cluster

-- a call that has been made: its node has dealt with it if there is an answer
structure Post where
  node : NodeId
  request : Request
  answer : Option (Except CallError Response)

-- nothing happens to a node when it is called, and nothing is heard of it yet
def posting : Network (List Post) where
  send n request posts := (⟨.error (.timeout n), 0⟩, posts ++ [⟨n, request, none⟩])
  now _ := 0
  count _ _ posts := posts

structure Underway (γ : Type) where
  round : γ
  posts : List Post
  cluster : Cluster

inductive Move (e : Environment) where
  | meanwhile (event : e.Event)
  | lands (call : Nat)
  | heard (call : Nat)

def Hearing (γ : Type) : Type := Nat → Except CallError Response → γ × List Post → γ × List Post

namespace Underway

variable {γ : Type} {e : Environment}

def advance (hear : Hearing γ) (u : Underway γ) : Move e → Underway γ
  | .meanwhile i => { u with cluster := i.val.befall u.cluster }
  | .lands k =>
      match u.posts[k]? with
      | some ⟨n, request, none⟩ =>
          let (reply, c) := send n request u.cluster
          { u with posts := u.posts.set k ⟨n, request, some reply.answer⟩, cluster := c }
      | _ => u
  | .heard k =>
      match u.posts[k]? with
      | some ⟨_, _, some answer⟩ =>
          let (round, posts) := hear k answer (u.round, u.posts)
          { u with round, posts }
      | _ => u

def play (hear : Hearing γ) (moves : List (Move e)) (u : Underway γ) : Underway γ :=
  moves.foldl (advance hear) u

variable {hear : Hearing γ}

@[simp] theorem play_nil (u : Underway γ) : u.play hear ([] : List (Move e)) = u := rfl

@[simp] theorem play_cons (m : Move e) (moves : List (Move e)) (u : Underway γ) :
    u.play hear (m :: moves) = (u.advance hear m).play hear moves :=
  rfl

@[simp] theorem play_append (moves more : List (Move e)) (u : Underway γ) :
    u.play hear (moves ++ more) = (u.play hear moves).play hear more :=
  List.foldl_append

theorem advance_lands {u : Underway γ} {k : Nat} {n : NodeId} {request : Request}
    (h : u.posts[k]? = some ⟨n, request, none⟩) :
    u.advance hear (.lands k : Move e) =
      { u with
        posts := u.posts.set k ⟨n, request, some (send n request u.cluster).1.answer⟩
        cluster := (send n request u.cluster).2 } := by
  simp only [advance, h]

theorem advance_heard {u : Underway γ} {k : Nat} {n : NodeId} {request : Request}
    {answer : Except CallError Response} (h : u.posts[k]? = some ⟨n, request, some answer⟩) :
    u.advance hear (.heard k : Move e) =
      { u with
        round := (hear k answer (u.round, u.posts)).1
        posts := (hear k answer (u.round, u.posts)).2 } := by
  simp only [advance, h]

theorem advance_cases {M : Underway γ → Prop} {u : Underway γ} (h : M u)
    (meanwhile : ∀ i : e.Event, M { u with cluster := i.val.befall u.cluster })
    (lands : ∀ k n request, u.posts[k]? = some ⟨n, request, none⟩ →
      M { u with
        posts := u.posts.set k ⟨n, request, some (send n request u.cluster).1.answer⟩
        cluster := (send n request u.cluster).2 })
    (heard : ∀ k n request answer, u.posts[k]? = some ⟨n, request, some answer⟩ →
      M { u with
        round := (hear k answer (u.round, u.posts)).1
        posts := (hear k answer (u.round, u.posts)).2 })
    (m : Move e) : M (u.advance hear m) := by
  cases m with
  | meanwhile i => exact meanwhile i
  | lands k =>
    cases hpost : u.posts[k]? with
    | none => simpa only [advance, hpost] using h
    | some post =>
      obtain ⟨n, request, _ | answer⟩ := post
      · rw [advance_lands hpost]
        exact lands k n request hpost
      · simpa only [advance, hpost] using h
  | heard k =>
    cases hpost : u.posts[k]? with
    | none => simpa only [advance, hpost] using h
    | some post =>
      obtain ⟨n, request, _ | answer⟩ := post
      · simpa only [advance, hpost] using h
      · rw [advance_heard hpost]
        exact heard k n request answer hpost

theorem play_induction {M : Underway γ → Prop} (step : ∀ u (m : Move e), M u → M (u.advance hear m))
    (moves : List (Move e)) {u : Underway γ} (h : M u) : M (u.play hear moves) := by
  induction moves generalizing u with
  | nil => exact h
  | cons m moves ih => exact ih (step u m h)

theorem run_play (hear : Hearing γ) (moves : List (Move e)) (u : Underway γ) :
    e.Run u.cluster (u.play hear moves).cluster := by
  refine play_induction (M := fun v => e.Run u.cluster v.cluster) ?_ moves .refl
  intro v m h
  refine advance_cases (M := fun v => e.Run u.cluster v.cluster) h ?_ ?_ ?_ m
  · exact fun i => h.tail ⟨i.val, i.property, rfl⟩
  · exact fun k n request _ => h.tail ⟨.call n request, e.calls n request, rfl⟩
  · exact fun _ _ _ _ _ => h

variable {δ : Type}

-- two rounds over one cluster, each with calls of its own
def playBoth (hear : Hearing γ) (hear' : Hearing δ) :
    List (Move e ⊕ Move e) → Underway γ → Underway δ → Underway γ × Underway δ
  | [], u, v => (u, v)
  | .inl m :: moves, u, v =>
      let u := u.advance hear m
      playBoth hear hear' moves u { v with cluster := u.cluster }
  | .inr m :: moves, u, v =>
      let v := v.advance hear' m
      playBoth hear hear' moves { u with cluster := v.cluster } v

theorem exists_play_of_advance (hear : Hearing γ) (hear' : Hearing δ) (u : Underway γ)
    (v : Underway δ) (huv : u.cluster = v.cluster)
    (m : Move e) :
    ∃ moves : List (Move e), v.play hear' moves = { v with cluster := (u.advance hear m).cluster } := by
  refine advance_cases (M := fun w => ∃ moves : List (Move e),
    v.play hear' moves = { v with cluster := w.cluster }) ?_ ?_ ?_ ?_ m
  · exact ⟨[], by rw [huv, play_nil]⟩
  · exact fun i => ⟨[.meanwhile i], by rw [huv]; rfl⟩
  · exact fun k n request _ => ⟨[.meanwhile ⟨.call n request, e.calls n request⟩], by rw [huv]; rfl⟩
  · exact fun _ _ _ _ _ => ⟨[], by rw [huv, play_nil]⟩

-- what the one round does is among the things that can happen while the other goes on
theorem playBoth_snd (hear : Hearing γ) (hear' : Hearing δ) (moves : List (Move e ⊕ Move e))
    (u : Underway γ) (v : Underway δ) (huv : u.cluster = v.cluster) :
    ∃ moves' : List (Move e), (playBoth hear hear' moves u v).2 = v.play hear' moves' := by
  induction moves generalizing u v with
  | nil => exact ⟨[], rfl⟩
  | cons m moves ih =>
    cases m with
    | inl m =>
      obtain ⟨before, hbefore⟩ := exists_play_of_advance hear hear' u v huv m
      obtain ⟨after, hafter⟩ := ih (u.advance hear m) { v with cluster := (u.advance hear m).cluster } rfl
      exact ⟨before ++ after, by rw [play_append, hbefore, playBoth, hafter]⟩
    | inr m =>
      obtain ⟨after, hafter⟩ :=
        ih { u with cluster := (v.advance hear' m).cluster } (v.advance hear' m) rfl
      exact ⟨m :: after, by rw [play_cons, playBoth, hafter]⟩

end Underway

namespace ReadRound

def listening (sloppy : Bool) (key : Key) (quorum : Nat) : Hearing ReadRound := fun k answer (g, posts) =>
  match g.pending[k]? with
  | none => (g, posts)
  | some call =>
      if quorum ≤ g.successes then (g, posts)
      else
        let versions := answer.bind (Response.expectVersions call.answer.node)
        receive posting sloppy key quorum { call.answer with versions }
          { g with pending := g.pending.eraseIdx k } (posts.eraseIdx k)

def begun (key : Key) (replicas standIns : List NodeId) (c : Cluster) : Underway ReadRound :=
  let sent := askAll posting key replicas []
  ⟨⟨0, [], [], sent.1, standIns, 0⟩, sent.2, c⟩

@[simp] theorem ask_posting (key : Key) (isStandIn : Bool) (time : Nat) (n : NodeId)
    (posts : List Post) :
    ask posting key isStandIn time n posts =
      (⟨time, n, isStandIn, .error (.timeout n)⟩, posts ++ [⟨n, .get key, none⟩]) :=
  rfl

theorem askAll_posting (key : Key) (ns : List NodeId) (posts : List Post) :
    askAll posting key ns posts =
      (ns.map fun n => ⟨0, n, false, .error (.timeout n)⟩,
        posts ++ ns.map fun n => ⟨n, .get key, none⟩) := by
  induction ns generalizing posts with
  | nil => simp [askAll]
  | cons n ns ih => simp [askAll, ih]

end ReadRound

namespace WriteRound

-- without a quorum all answers are heard
def listening (sloppy : Bool) (key : Key) (v : Version) (quorum : Option Nat) : Hearing WriteRound :=
  fun k answer (g, posts) =>
    match g.pending[k]? with
    | none => (g, posts)
    | some call =>
        if quorum.any (fun w => decide (w ≤ g.acks)) then (g, posts)
        else
          let outcome := answer.map (fun _ => ())
          receive posting sloppy key v { call.answer with outcome }
            { g with pending := g.pending.eraseIdx k } (posts.eraseIdx k)

def begun (key : Key) (v : Version) (replicas standIns : List NodeId) (c : Cluster) :
    Underway WriteRound :=
  let sent := writeAll posting key v 0 replicas []
  ⟨⟨0, 0, sent.1, standIns, 0⟩, sent.2, c⟩

@[simp] theorem write_posting_put (key : Key) (v : Version) (time : Nat) (target : NodeId)
    (posts : List Post) :
    write posting key v time target none posts =
      (⟨time, target, none, .error (.timeout target)⟩, posts ++ [⟨target, .put key v, none⟩]) :=
  rfl

@[simp] theorem write_posting_hint (key : Key) (v : Version) (time : Nat) (target n : NodeId)
    (posts : List Post) :
    write posting key v time target (some n) posts =
      (⟨time, target, some n, .error (.timeout n)⟩, posts ++ [⟨n, .putHinted target key v, none⟩]) :=
  rfl

theorem writeAll_posting (key : Key) (v : Version) (time : Nat) (ns : List NodeId)
    (posts : List Post) :
    writeAll posting key v time ns posts =
      (ns.map fun n => ⟨time, n, none, .error (.timeout n)⟩,
        posts ++ ns.map fun n => ⟨n, .put key v, none⟩) := by
  induction ns generalizing posts with
  | nil => simp [writeAll]
  | cons n ns ih => simp [writeAll, ih]

end WriteRound

namespace Coordinator

variable {e : Environment}

def acceptUnderway (c : Coordinator) (key : Key) (payload : Payload) (context : VersionVector)
    (survey store : List (Move e)) (s : Cluster) :
    Except StoreFailure (WriteAck × Underway WriteRound) :=
  let q := c.quorum
  match c.ring.replicas key q.n with
  | .error shortage => .error (.placementUnavailable shortage)
  | .ok replicas =>
      let standIns := c.ring.standIns key replicas
      let seen := (ReadRound.begun key replicas standIns s).play
        (ReadRound.listening q.sloppy key q.w) survey
      match stamp? c.id seen.round.versions context with
      | none => .error (.counterExhausted c.id)
      | some vector =>
          let timestamp := seen.cluster.clock
          let v := payload.version vector timestamp
          let left := (WriteRound.begun key v replicas standIns seen.cluster).play
            (WriteRound.listening q.sloppy key v (some q.w)) store
          if left.round.acks < q.w then .error (.quorumUnavailable q.w left.round.acks)
          else .ok (⟨vector, timestamp, left.round.acks, left.round.hinted⟩, left)

-- what is heard of a write once its client has been told of it
def draining (c : Coordinator) (key : Key) (payload : Payload) (ack : WriteAck) :
    Hearing WriteRound :=
  WriteRound.listening c.quorum.sloppy key (payload.version ack.vector ack.timestamp) none

def gatherUnderway (c : Coordinator) (key : Key) (hear : Hearing WriteRound)
    (moves : List (Move e ⊕ Move e)) (left : Underway WriteRound) : Except StoreFailure ReadRound :=
  let q := c.quorum
  match c.ring.replicas key q.n with
  | .error shortage => .error (.placementUnavailable shortage)
  | .ok replicas =>
      let get := ReadRound.begun key replicas (c.ring.standIns key replicas) left.cluster
      let got := (Underway.playBoth hear (ReadRound.listening q.sloppy key q.r) moves left get).2.round
      if got.successes < q.r then .error (.quorumUnavailable q.r got.successes) else .ok got

variable {c : Coordinator} {key : Key} {payload : Payload} {context : VersionVector} {ack : WriteAck}

theorem acceptUnderway_eq {survey store : List (Move e)} {s : Cluster} {replicas : List NodeId}
    {vector : VersionVector} {seen : Underway ReadRound}
    (hreplicas : c.ring.replicas key c.quorum.n = .ok replicas)
    (hseen : seen = (ReadRound.begun key replicas (c.ring.standIns key replicas) s).play
      (ReadRound.listening c.quorum.sloppy key c.quorum.w) survey)
    (hvector : stamp? c.id seen.round.versions context = some vector) :
    c.acceptUnderway key payload context survey store s =
      let v := payload.version vector seen.cluster.clock
      let left := (WriteRound.begun key v replicas (c.ring.standIns key replicas) seen.cluster).play
        (WriteRound.listening c.quorum.sloppy key v (some c.quorum.w)) store
      if left.round.acks < c.quorum.w then .error (.quorumUnavailable c.quorum.w left.round.acks)
      else .ok (⟨vector, seen.cluster.clock, left.round.acks, left.round.hinted⟩, left) := by
  subst hseen
  simp only [acceptUnderway, hreplicas, hvector]

theorem acceptUnderway_eq_ok {survey store : List (Move e)} {s : Cluster} {left : Underway WriteRound}
    (h : c.acceptUnderway key payload context survey store s = .ok (ack, left)) :
    ∃ replicas seen, c.ring.replicas key c.quorum.n = .ok replicas ∧ e.Run s seen ∧
      c.quorum.w ≤ left.round.acks ∧
      left = (WriteRound.begun key (payload.version ack.vector ack.timestamp) replicas
        (c.ring.standIns key replicas) seen).play (WriteRound.listening c.quorum.sloppy key
          (payload.version ack.vector ack.timestamp) (some c.quorum.w)) store := by
  unfold acceptUnderway at h
  dsimp only at h
  split at h
  · cases h
  · rename_i replicas hreplicas
    split at h
    · cases h
    · split at h
      · cases h
      · rename_i hmet
        cases h
        exact ⟨replicas, _, hreplicas, Underway.run_play _ survey
          (ReadRound.begun key replicas (c.ring.standIns key replicas) s), Nat.le_of_not_lt hmet, rfl⟩

theorem gatherUnderway_eq_ok {hear : Hearing WriteRound} {moves : List (Move e ⊕ Move e)}
    {left : Underway WriteRound} {got : ReadRound}
    (h : c.gatherUnderway key hear moves left = .ok got) :
    ∃ replicas, c.ring.replicas key c.quorum.n = .ok replicas ∧ c.quorum.r ≤ got.successes ∧
      ∃ moves' : List (Move e),
        got = ((ReadRound.begun key replicas (c.ring.standIns key replicas) left.cluster).play
          (ReadRound.listening c.quorum.sloppy key c.quorum.r) moves').round := by
  unfold gatherUnderway at h
  dsimp only at h
  split at h
  · cases h
  · rename_i replicas hreplicas
    split at h
    · cases h
    · rename_i hmet
      cases h
      obtain ⟨moves', hmoves⟩ := Underway.playBoth_snd hear
        (ReadRound.listening c.quorum.sloppy key c.quorum.r) moves left
        (ReadRound.begun key replicas (c.ring.standIns key replicas) left.cluster) rfl
      exact ⟨replicas, hreplicas, Nat.le_of_not_lt hmet, moves', congrArg Underway.round hmoves⟩

end Coordinator

end QuorumStore
