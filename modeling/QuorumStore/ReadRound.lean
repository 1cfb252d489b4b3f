import QuorumStore.Network

namespace QuorumStore

structure ReadAnswer where
  node : NodeId
  isStandIn : Bool
  versions : Except CallError (List Version)

structure ReadRound where
  successes : Nat
  primaries : List (NodeId × List Version)
  hinted : List Version
  pending : List (InFlight ReadAnswer)
  standIns : List NodeId
  time : Nat

namespace ReadRound

variable {σ : Type}

def versions (g : ReadRound) : List Version := g.primaries.flatMap (·.2) ++ g.hinted

def ask (net : Network σ) (key : Key) (isStandIn : Bool) (time : Nat) (node : NodeId) (s : σ) :
    InFlight ReadAnswer × σ :=
  let (reply, s) := net.send node (.get key) s
  (⟨time + reply.delay,
    ⟨node, isStandIn, reply.answer.bind (Response.expectVersions node)⟩⟩, s)

def askAll (net : Network σ) (key : Key) : List NodeId → σ → List (InFlight ReadAnswer) × σ
  | [], s => ([], s)
  | n :: ns, s =>
      let (call, s) := ask net key false 0 n s
      let (calls, s) := askAll net key ns s
      (call :: calls, s)

def hear (g : ReadRound) (node : NodeId) (isStandIn : Bool) (vs : List Version) : ReadRound :=
  if isStandIn then { g with successes := g.successes + 1, hinted := g.hinted ++ vs }
  else { g with successes := g.successes + 1, primaries := g.primaries ++ [(node, vs)] }

def replace (net : Network σ) (sloppy : Bool) (key : Key) (quorum : Nat) (g : ReadRound) (s : σ) :
    ReadRound × σ :=
  match g.standIns with
  | [] => (g, s)
  | n :: ns =>
      if sloppy && decide (g.successes + g.pending.length < quorum) then
        let (call, s) := ask net key true g.time n s
        ({ g with pending := g.pending ++ [call], standIns := ns }, s)
      else (g, s)

def receive (net : Network σ) (sloppy : Bool) (key : Key) (quorum : Nat) (a : ReadAnswer)
    (g : ReadRound) (s : σ) : ReadRound × σ :=
  match a.versions with
  | .ok vs => (g.hear a.node a.isStandIn vs, s)
  | .error _ => g.replace net sloppy key quorum s

def listen (net : Network σ) (sloppy : Bool) (key : Key) (quorum deadline : Nat) :
    Nat → ReadRound → σ → ReadRound × σ
  | 0, g, s => (g, s)
  | fuel + 1, g, s =>
      if quorum ≤ g.successes then (g, s)
      else
        match InFlight.earliest g.pending with
        | none => (g, s)
        | some (call, rest) =>
            if deadline ≤ call.due then ({ g with time := deadline }, s)
            else
              let (g, s) := receive net sloppy key quorum call.answer
                { g with pending := rest, time := call.due } s
              listen net sloppy key quorum deadline fuel g s

def run (net : Network σ) (sloppy : Bool) (key : Key) (replicas standIns : List NodeId)
    (quorum deadline : Nat) (s : σ) : ReadRound × σ :=
  let (pending, s) := askAll net key replicas s
  -- every answer heard ends a call under way or uses up a stand-in
  listen net sloppy key quorum deadline (replicas.length + standIns.length)
    ⟨0, [], [], pending, standIns, 0⟩ s

end ReadRound

end QuorumStore
