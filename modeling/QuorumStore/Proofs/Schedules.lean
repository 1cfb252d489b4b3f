import QuorumStore.Proofs.Operations
import QuorumStore.Proofs.UnderwayLedger

namespace QuorumStore

open Cluster

theorem InFlight.exists_eraseIdx {α : Type} {cs rest : List (InFlight α)} {c : InFlight α}
    (h : earliest cs = some (c, rest)) : ∃ k, cs[k]? = some c ∧ rest = cs.eraseIdx k := by
  induction cs generalizing c rest with
  | nil => cases h
  | cons d ds ih =>
    simp only [earliest] at h
    split at h
    · rename_i hnone
      cases h
      exact ⟨0, rfl, (earliest_eq_none.mp hnone).symm⟩
    · rename_i first others hfirst
      split at h
      · cases h
        exact ⟨0, rfl, rfl⟩
      · cases h
        obtain ⟨k, hk, hothers⟩ := ih hfirst
        exact ⟨k + 1, hk, congrArg (d :: ·) hothers⟩

namespace Underway

variable {γ : Type} {e : Environment} (hear : Hearing γ) (events : Nat → List e.Event)

theorem play_meanwhile (happening : List e.Event) (u : Underway γ) :
    u.play hear (happening.map .meanwhile) = { u with cluster := happen happening u.cluster } := by
  induction happening generalizing u with
  | nil => rfl
  | cons i happening ih => exact ih _

-- a call that takes effect when it is made, after whatever has happened before
theorem exists_play_send (round : γ) (before after : List Post) (n : NodeId) (request : Request)
    (s : Interrupted) :
    ∃ moves : List (Move e),
      (Underway.mk round (before ++ ⟨n, request, none⟩ :: after) s.cluster).play hear moves =
        ⟨round, before ++ ⟨n, request, some ((interrupted events).send n request s).1.answer⟩ :: after,
          ((interrupted events).send n request s).2.cluster⟩ := by
  refine ⟨(events s.calls).map .meanwhile ++ [.lands before.length], ?_⟩
  have hpost : (before ++ ⟨n, request, none⟩ :: after)[before.length]? = some ⟨n, request, none⟩ := by
    simp
  rw [play_append, play_meanwhile, play_cons, play_nil, advance_lands hpost,
    List.set_append_right _ _ (Nat.le_refl _), Nat.sub_self, List.set_cons_zero]
  rfl

theorem exists_play_each {α : Type} {R : α → Post → Prop} (round : γ) (request : Request)
    (calls : List NodeId → Interrupted → List α × Interrupted) (hnil : ∀ s, calls [] s = ([], s))
    (hcons : ∀ n ns s, let sent := (interrupted events).send n request s
      ∃ call, R call ⟨n, request, some sent.1.answer⟩ ∧
        calls (n :: ns) s = (call :: (calls ns sent.2).1, (calls ns sent.2).2))
    (ns : List NodeId) (before : List Post) (s : Interrupted) :
    ∃ (moves : List (Move e)) (posts : List Post),
      (Underway.mk round (before ++ ns.map fun n => ⟨n, request, none⟩) s.cluster).play hear moves =
        ⟨round, before ++ posts, (calls ns s).2.cluster⟩ ∧
      List.Forall₂ R (calls ns s).1 posts := by
  induction ns generalizing before s with
  | nil =>
    rw [hnil]
    exact ⟨[], [], rfl, .nil⟩
  | cons n ns ih =>
    obtain ⟨call, hcall, heq⟩ := hcons n ns s
    obtain ⟨first, hfirst⟩ := exists_play_send hear events round before
      (ns.map fun n => ⟨n, request, none⟩) n request s
    obtain ⟨moves, posts, hmoves, hposts⟩ := ih
      (before ++ [⟨n, request, some ((interrupted events).send n request s).1.answer⟩])
      ((interrupted events).send n request s).2
    rw [heq]
    refine ⟨first ++ moves, _ :: posts, ?_, .cons hcall hposts⟩
    rw [play_append, List.map_cons, hfirst]
    rw [List.append_assoc, List.append_assoc] at hmoves
    exact hmoves

end Underway

namespace ReadRound

variable {e : Environment} (events : Nat → List e.Event) (sloppy : Bool) {key : Key} {quorum : Nat}
  {s : Interrupted}

def unheard (call : InFlight ReadAnswer) : InFlight ReadAnswer :=
  ⟨0, { call.answer with versions := .error (.timeout call.answer.node) }⟩

-- the round without what only the network knows
def blank (g : ReadRound) : ReadRound := { g with pending := g.pending.map unheard, time := 0 }

@[simp] theorem map_unheard_askAll {σ : Type} (net : Network σ) (ns : List NodeId) (s : σ) :
    (askAll net key ns s).1.map unheard = ns.map fun n => ⟨0, n, false, .error (.timeout n)⟩ := by
  induction ns generalizing s with
  | nil => rfl
  | cons n ns ih => exact congrArg (_ :: ·) (ih _)

theorem blank_hear (g : ReadRound) (n : NodeId) (isStandIn : Bool) (vs : List Version) :
    (g.hear n isStandIn vs).blank = g.blank.hear n isStandIn vs := by
  cases isStandIn <;> rfl

theorem versions_blank (g : ReadRound) : g.blank.versions = g.versions := rfl

def Answered (key : Key) (call : InFlight ReadAnswer) (post : Post) : Prop :=
  ∃ answer, post = ⟨call.answer.node, .get key, some answer⟩ ∧
    answer.bind (Response.expectVersions call.answer.node) = call.answer.versions

structure Mirrors (key : Key) (g : ReadRound) (s : Interrupted) (u : Underway ReadRound) : Prop where
  round : u.round = g.blank
  cluster : u.cluster = s.cluster
  posts : List.Forall₂ (Answered key) g.pending u.posts

theorem exists_play_receive (hear : Hearing ReadRound) (quorum : Nat) (a : ReadAnswer) (g : ReadRound)
    {posts : List Post} (hposts : List.Forall₂ (Answered key) g.pending posts) :
    ∃ moves : List (Move e), Mirrors key (receive (interrupted events) sloppy key quorum a g s).1
      (receive (interrupted events) sloppy key quorum a g s).2
      ((Underway.mk (receive posting sloppy key quorum a g.blank posts).1
        (receive posting sloppy key quorum a g.blank posts).2 s.cluster).play hear moves) := by
  unfold receive
  cases a.versions with
  | ok vs => exact ⟨[], (blank_hear ..).symm, rfl, by rwa [pending_hear]⟩
  | error error =>
    have hstandIns : g.blank.standIns = g.standIns := rfl
    have hcount : g.blank.successes + g.blank.pending.length = g.successes + g.pending.length :=
      congrArg (g.successes + ·) (List.length_map _)
    simp only [replace, hstandIns, hcount]
    split
    · exact ⟨[], rfl, rfl, hposts⟩
    · rename_i n ns _
      split
      · obtain ⟨moves, hmoves⟩ := Underway.exists_play_send hear events
          { g.blank with
            pending := g.blank.pending ++ [⟨0, n, true, .error (.timeout n)⟩], standIns := ns }
          posts [] n (.get key) s
        refine ⟨moves, (congrArg Underway.round hmoves).trans ?_, congrArg Underway.cluster hmoves, ?_⟩
        · simp only [blank, List.map_append]
          rfl
        · exact (congrArg Underway.posts hmoves).symm ▸
            List.rel_append hposts (.cons ⟨_, rfl, rfl⟩ .nil)
      · exact ⟨[], rfl, rfl, hposts⟩

theorem Mirrors.receive {g : ReadRound} {u : Underway ReadRound} {call : InFlight ReadAnswer}
    {rest : List (InFlight ReadAnswer)} (h : Mirrors key g s u)
    (hcall : InFlight.earliest g.pending = some (call, rest)) (hmet : g.successes < quorum) :
    ∃ moves : List (Move e), Mirrors key
      (receive (interrupted events) sloppy key quorum call.answer
        { g with pending := rest, time := call.due } s).1
      (receive (interrupted events) sloppy key quorum call.answer
        { g with pending := rest, time := call.due } s).2
      (u.play (listening sloppy key quorum) moves) := by
  obtain ⟨round, posts, cluster⟩ := u
  obtain ⟨hround, hcluster, hposts⟩ := h
  dsimp only at hround hcluster hposts
  subst hround hcluster
  obtain ⟨k, hk, rfl⟩ := InFlight.exists_eraseIdx hcall
  obtain ⟨post, hpost, answer, rfl, hanswer⟩ := exists_paired hposts.flip hk
  obtain ⟨moves, hmoves⟩ := exists_play_receive events sloppy (s := s) (listening sloppy key quorum)
    quorum call.answer { g with pending := g.pending.eraseIdx k, time := call.due }
    (paired_eraseIdx hposts k)
  refine ⟨.heard k :: moves, ?_⟩
  have hpending : g.blank.pending[k]? = some (unheard call) := by
    rw [blank, List.getElem?_map, hk]
    rfl
  have hrest : ({ g.blank with pending := g.blank.pending.eraseIdx k } : ReadRound) =
      ({ g with pending := g.pending.eraseIdx k, time := call.due } : ReadRound).blank := by
    simp only [blank, List.eraseIdx_map]
  have hversions : ({ (unheard call).answer with
      versions := answer.bind (Response.expectVersions (unheard call).answer.node) } : ReadAnswer) =
      call.answer := by
    simp only [unheard, hanswer]
  have hunmet : ¬ quorum ≤ g.blank.successes := Nat.not_le.mpr hmet
  rw [Underway.play_cons, Underway.advance_heard hpost]
  simp only [listening, hpending, if_neg hunmet]
  rw [hrest, hversions]
  exact hmoves

theorem exists_play_run (key : Key) (quorum deadline : Nat) (replicas standIns : List NodeId)
    (s : Interrupted) :
    ∃ moves : List (Move e), Mirrors key
      (run (interrupted events) sloppy key replicas standIns quorum deadline s).1
      (run (interrupted events) sloppy key replicas standIns quorum deadline s).2
      ((begun key replicas standIns s.cluster).play (listening sloppy key quorum) moves) := by
  obtain ⟨first, posts, hfirst, hposts⟩ := Underway.exists_play_each (listening sloppy key quorum)
    events (begun key replicas standIns s.cluster).round (.get key)
    (askAll (interrupted events) key) (R := Answered key) (fun _ => rfl)
    (fun _ _ _ => ⟨_, ⟨_, rfl, rfl⟩, rfl⟩) replicas [] s
  refine listen_induction (M := fun g t => ∃ moves : List (Move e), Mirrors key g t
    ((begun key replicas standIns s.cluster).play (listening sloppy key quorum) moves))
    ?_ ?_ _ ⟨first, ?_⟩
  · rintro g t _ _ _ _ ⟨moves, hround, hcluster, hposts⟩
    exact ⟨moves, hround, hcluster, hposts⟩
  · rintro g t call rest hmet hcall - ⟨moves, h⟩
    obtain ⟨more, hmore⟩ := h.receive events sloppy hcall hmet
    exact ⟨moves ++ more, by rwa [Underway.play_append]⟩
  · have hbegun : begun key replicas standIns s.cluster = ⟨(begun key replicas standIns s.cluster).round,
        [] ++ replicas.map fun n => ⟨n, .get key, none⟩, s.cluster⟩ := by
      simp only [begun, askAll_posting]
    rw [hbegun, hfirst]
    refine ⟨?_, rfl, hposts⟩
    simp only [begun, askAll_posting, blank, map_unheard_askAll]

end ReadRound

namespace WriteRound

variable {e : Environment} (events : Nat → List e.Event) (sloppy : Bool) {key : Key} {v : Version}
  {w : Option Nat} {g : WriteRound} {s : Interrupted} {u : Underway WriteRound}

def unheard (call : InFlight WriteAnswer) : InFlight WriteAnswer :=
  ⟨0, { call.answer with outcome := .error (.timeout call.answer.route.receiver) }⟩

def blank (g : WriteRound) : WriteRound := { g with pending := g.pending.map unheard, time := 0 }

@[simp] theorem map_unheard_writeAll {σ : Type} (net : Network σ) (time : Nat) (ns : List NodeId) (s : σ) :
    (writeAll net key v time ns s).1.map unheard =
      ns.map fun n => ⟨0, n, none, .error (.timeout n)⟩ := by
  induction ns generalizing s with
  | nil => rfl
  | cons n ns ih => exact congrArg (_ :: ·) (ih _)

def Answered (key : Key) (v : Version) (call : InFlight WriteAnswer) (post : Post) : Prop :=
  ∃ answer, post = ⟨call.answer.route.receiver, WriteAnswer.request key v call.answer, some answer⟩ ∧
    answer.map (fun _ => ()) = call.answer.outcome

structure Mirrors (key : Key) (v : Version) (g : WriteRound) (s : Interrupted)
    (u : Underway WriteRound) : Prop where
  round : u.round = g.blank
  cluster : u.cluster = s.cluster
  posts : List.Forall₂ (Answered key v) g.pending u.posts

theorem exists_play_receive (hear : Hearing WriteRound) (a : WriteAnswer) (g : WriteRound)
    {posts : List Post} (hposts : List.Forall₂ (Answered key v) g.pending posts) :
    ∃ moves : List (Move e), Mirrors key v (receive (interrupted events) sloppy key v a g s).1
      (receive (interrupted events) sloppy key v a g s).2
      ((Underway.mk (receive posting sloppy key v a g.blank posts).1
        (receive posting sloppy key v a g.blank posts).2 s.cluster).play hear moves) := by
  unfold receive
  cases a.outcome with
  | ok _ => exact ⟨[], rfl, rfl, hposts⟩
  | error error =>
    have hstandIns : g.blank.standIns = g.standIns := rfl
    simp only [replace, hstandIns]
    split
    · exact ⟨[], rfl, rfl, hposts⟩
    · rename_i n ns _
      split
      · obtain ⟨moves, hmoves⟩ := Underway.exists_play_send hear events
          { g.blank with
            pending := g.blank.pending ++ [⟨0, a.target, some n, .error (.timeout n)⟩], standIns := ns }
          posts [] n (.putHinted a.target key v) s
        refine ⟨moves, (congrArg Underway.round hmoves).trans ?_, congrArg Underway.cluster hmoves, ?_⟩
        · simp only [blank, List.map_append]
          rfl
        · exact (congrArg Underway.posts hmoves).symm ▸
            List.rel_append hposts (.cons ⟨_, rfl, rfl⟩ .nil)
      · exact ⟨[], rfl, rfl, hposts⟩

theorem Mirrors.receive {call : InFlight WriteAnswer} {rest : List (InFlight WriteAnswer)}
    (h : Mirrors key v g s u) (hcall : InFlight.earliest g.pending = some (call, rest))
    (hmet : w.any (fun w => decide (w ≤ g.acks)) = false) :
    ∃ moves : List (Move e), Mirrors key v
      (receive (interrupted events) sloppy key v call.answer
        { g with pending := rest, time := call.due } s).1
      (receive (interrupted events) sloppy key v call.answer
        { g with pending := rest, time := call.due } s).2
      (u.play (listening sloppy key v w) moves) := by
  obtain ⟨round, posts, cluster⟩ := u
  obtain ⟨hround, hcluster, hposts⟩ := h
  dsimp only at hround hcluster hposts
  subst hround hcluster
  obtain ⟨k, hk, rfl⟩ := InFlight.exists_eraseIdx hcall
  obtain ⟨post, hpost, answer, rfl, hanswer⟩ := exists_paired hposts.flip hk
  obtain ⟨moves, hmoves⟩ := exists_play_receive events sloppy (s := s) (listening sloppy key v w)
    call.answer { g with pending := g.pending.eraseIdx k, time := call.due } (paired_eraseIdx hposts k)
  refine ⟨.heard k :: moves, ?_⟩
  have hpending : g.blank.pending[k]? = some (unheard call) := by
    rw [blank, List.getElem?_map, hk]
    rfl
  have hrest : ({ g.blank with pending := g.blank.pending.eraseIdx k } : WriteRound) =
      ({ g with pending := g.pending.eraseIdx k, time := call.due } : WriteRound).blank := by
    simp only [blank, List.eraseIdx_map]
  have houtcome : ({ (unheard call).answer with outcome := answer.map (fun _ => ()) } : WriteAnswer) =
      call.answer := by
    simp only [unheard, hanswer]
  have hunmet : ¬ w.any (fun w => decide (w ≤ g.blank.acks)) = true := Bool.eq_false_iff.mp hmet
  rw [Underway.play_cons, Underway.advance_heard hpost]
  simp only [listening, hpending, if_neg hunmet]
  rw [hrest, houtcome]
  exact hmoves

theorem exists_play_run (key : Key) (v : Version) (quorum time deadline : Nat)
    (replicas standIns : List NodeId) (s : Interrupted) :
    ∃ moves : List (Move e), Mirrors key v
      (run (interrupted events) sloppy key v replicas standIns quorum time deadline s).1
      (run (interrupted events) sloppy key v replicas standIns quorum time deadline s).2
      ((begun key v replicas standIns s.cluster).play (listening sloppy key v (some quorum)) moves) := by
  obtain ⟨first, posts, hfirst, hposts⟩ := Underway.exists_play_each
    (listening sloppy key v (some quorum)) events (begun key v replicas standIns s.cluster).round
    (.put key v) (writeAll (interrupted events) key v time) (R := Answered key v) (fun _ => rfl)
    (fun _ _ _ => ⟨_, ⟨_, rfl, rfl⟩, rfl⟩) replicas [] s
  refine listen_induction (M := fun g t => ∃ moves : List (Move e), Mirrors key v g t
    ((begun key v replicas standIns s.cluster).play (listening sloppy key v (some quorum)) moves))
    ?_ ?_ _ ⟨first, ?_⟩
  · rintro g t ⟨moves, hround, hcluster, hposts⟩
    exact ⟨moves, hround, hcluster, hposts⟩
  · rintro g t call rest hmet hcall ⟨moves, h⟩
    obtain ⟨more, hmore⟩ := h.receive events sloppy (w := some quorum) hcall
      (decide_eq_false (Nat.not_le.mpr hmet))
    exact ⟨moves ++ more, by rwa [Underway.play_append]⟩
  · have hbegun : begun key v replicas standIns s.cluster =
        ⟨(begun key v replicas standIns s.cluster).round,
          [] ++ replicas.map fun n => ⟨n, .put key v, none⟩, s.cluster⟩ := by
      simp only [begun, writeAll_posting]
    rw [hbegun, hfirst]
    refine ⟨?_, rfl, hposts⟩
    simp only [begun, writeAll_posting, blank, map_unheard_writeAll]

theorem Mirrors.drain (fuel : Nat) (h : Mirrors key v g s u) :
    ∃ moves : List (Move e), Mirrors key v (drain (interrupted events) sloppy key v fuel g s).1
      (drain (interrupted events) sloppy key v fuel g s).2
      (u.play (listening sloppy key v none) moves) := by
  refine drain_induction (M := fun g t => ∃ moves : List (Move e), Mirrors key v g t
    (u.play (listening sloppy key v none) moves)) ?_ fuel ⟨[], h⟩
  rintro g t call rest hcall ⟨moves, h⟩
  obtain ⟨more, hmore⟩ := h.receive events sloppy (w := none) hcall rfl
  exact ⟨moves ++ more, by rwa [Underway.play_append]⟩

end WriteRound

namespace Coordinator

variable {e : Environment} {events : Nat → List e.Event} {c : Coordinator} {key : Key}
  {payload : Payload} {context : VersionVector} {ack : WriteAck} {s s' : Interrupted}

theorem exists_acceptUnderway {round : WriteRound}
    (h : c.accept (interrupted events) key payload context s = (.ok (ack, round), s')) :
    ∃ survey store left, c.acceptUnderway (e := e) key payload context survey store s.cluster =
        .ok (ack, left) ∧
      WriteRound.Mirrors key (payload.version ack.vector ack.timestamp) round s' left := by
  obtain ⟨replicas, hreplicas, hvector, hnow, hmet, hacks, hhinted, hstored⟩ := accept_eq_ok h
  obtain ⟨survey, hseen⟩ := ReadRound.exists_play_run events c.quorum.sloppy key c.quorum.w
    c.quorum.writeTimeout replicas (c.ring.standIns key replicas)
    ((interrupted events).count payload.meter 1 s)
  obtain ⟨store, hleft⟩ := WriteRound.exists_play_run events c.quorum.sloppy key
    (payload.version ack.vector ack.timestamp) c.quorum.w
    (c.surveying (interrupted events) key payload replicas s).1.time c.quorum.writeTimeout replicas
    (c.ring.standIns key replicas) (c.surveying (interrupted events) key payload replicas s).2
  rw [show WriteRound.run _ _ _ _ _ _ _ _ _ _ = (round, s') from hstored] at hleft
  let counting : Move e := .meanwhile ⟨.counted payload.meter 1, e.counts payload.meter 1⟩
  let seen := (ReadRound.begun key replicas (c.ring.standIns key replicas) s.cluster).play
    (ReadRound.listening c.quorum.sloppy key c.quorum.w) (counting :: survey)
  have hround : seen.round = (c.surveying (interrupted events) key payload replicas s).1.blank :=
    hseen.round
  have hcluster : seen.cluster = (c.surveying (interrupted events) key payload replicas s).2.cluster :=
    hseen.cluster
  have hstamp : stamp? c.id seen.round.versions context = some ack.vector := by
    rw [hround, ReadRound.versions_blank]
    exact hvector
  have hclock : seen.cluster.clock = ack.timestamp := by
    rw [hcluster]
    exact hnow.symm
  refine ⟨counting :: survey, store, _, ?_, hleft⟩
  rw [acceptUnderway_eq hreplicas (show seen = _ from rfl) hstamp, hclock, hcluster]
  dsimp only
  rw [hleft.round, show round.blank.acks = round.acks from rfl, if_neg (Nat.not_lt.mpr hmet), ← hacks,
    show round.blank.hinted = round.hinted from rfl, ← hhinted]

theorem exists_write_underway (h : c.write (interrupted events) key payload context s = (.ok ack, s')) :
    ∃ (survey store rest : List (Move e)) (left : Underway WriteRound),
      c.acceptUnderway key payload context survey store s.cluster = .ok (ack, left) ∧
      (left.play (c.draining key payload ack) rest).cluster = s'.cluster := by
  obtain ⟨round, t, haccept, rfl⟩ := write_of_accept h
  obtain ⟨survey, store, left, hleft, hmirrors⟩ := exists_acceptUnderway haccept
  obtain ⟨rest, hrest⟩ := hmirrors.drain events c.quorum.sloppy round.patience
  exact ⟨survey, store, rest, left, hleft, hrest.cluster⟩

end Coordinator

end QuorumStore
