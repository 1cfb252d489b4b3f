import QuorumStore.Network

namespace QuorumStore

structure WriteAnswer where
  target : NodeId
  standIn : Option NodeId
  outcome : Except CallError Unit

structure WriteRound where
  acks : Nat
  hinted : Nat
  pending : List (InFlight WriteAnswer)
  standIns : List NodeId
  time : Nat

namespace WriteRound

variable {σ : Type}

def write (net : Network σ) (key : Key) (v : Version) (time : Nat) (target : NodeId)
    (standIn : Option NodeId) (s : σ) : InFlight WriteAnswer × σ :=
  let (reply, s) := match standIn with
    | none => net.send target (.put key v) s
    | some n => net.send n (.putHinted target key v) s
  (⟨time + reply.delay, ⟨target, standIn, reply.answer.map (fun _ => ())⟩⟩, s)

def writeAll (net : Network σ) (key : Key) (v : Version) (time : Nat) :
    List NodeId → σ → List (InFlight WriteAnswer) × σ
  | [], s => ([], s)
  | n :: ns, s =>
      let (call, s) := write net key v time n none s
      let (calls, s) := writeAll net key v time ns s
      (call :: calls, s)

def replace (net : Network σ) (sloppy : Bool) (key : Key) (v : Version) (target : NodeId)
    (g : WriteRound) (s : σ) : WriteRound × σ :=
  match g.standIns with
  | [] => (g, s)
  | n :: ns =>
      if sloppy then
        let (call, s) := write net key v g.time target (some n) s
        ({ g with pending := g.pending ++ [call], standIns := ns }, s)
      else (g, s)

def receive (net : Network σ) (sloppy : Bool) (key : Key) (v : Version) (a : WriteAnswer)
    (g : WriteRound) (s : σ) : WriteRound × σ :=
  match a.outcome with
  | .ok _ =>
      ({ g with acks := g.acks + 1, hinted := g.hinted + (if a.standIn.isSome then 1 else 0) }, s)
  | .error _ => g.replace net sloppy key v a.target s

def listen (net : Network σ) (sloppy : Bool) (key : Key) (v : Version) (quorum deadline : Nat) :
    Nat → WriteRound → σ → WriteRound × σ
  | 0, g, s => (g, s)
  | fuel + 1, g, s =>
      if quorum ≤ g.acks then (g, s)
      else
        match InFlight.earliest g.pending with
        | none => (g, s)
        | some (call, rest) =>
            if deadline ≤ call.due then ({ g with time := deadline }, s)
            else
              let (g, s) := receive net sloppy key v call.answer
                { g with pending := rest, time := call.due } s
              listen net sloppy key v quorum deadline fuel g s

def drain (net : Network σ) (sloppy : Bool) (key : Key) (v : Version) :
    Nat → WriteRound → σ → WriteRound × σ
  | 0, g, s => (g, s)
  | fuel + 1, g, s =>
      match InFlight.earliest g.pending with
      | none => (g, s)
      | some (call, rest) =>
          let (g, s) := receive net sloppy key v call.answer
            { g with pending := rest, time := call.due } s
          drain net sloppy key v fuel g s

-- every answer heard ends a call under way or uses up a stand-in
def patience (g : WriteRound) : Nat := g.pending.length + g.standIns.length

def run (net : Network σ) (sloppy : Bool) (key : Key) (v : Version)
    (replicas standIns : List NodeId) (quorum time deadline : Nat) (s : σ) : WriteRound × σ :=
  let (pending, s) := writeAll net key v time replicas s
  -- as many answers can be heard as there are calls and stand-ins
  listen net sloppy key v quorum deadline (replicas.length + standIns.length)
    ⟨0, 0, pending, standIns, time⟩ s

end WriteRound

end QuorumStore
