import Mathlib.Logic.Relation
import QuorumStore.Proofs.Calls
import QuorumStore.Proofs.Preservation

namespace QuorumStore.Cluster

inductive Incident where
  | call (node : NodeId) (request : Request)
  | counted (meter : Meter) (amount : Nat)
  | fares (node : NodeId) (condition : Condition)
  | slowed (latency : Nat)
  | losing (lossy : Bool)
  | tick (clock : UInt64)
  | damage (node : NodeId) (key : Key)
  | mend (node : NodeId) (key : Key)
  | settled (holder target : NodeId) (key : Key) (versions : List Version)
  | undelivered (holder target : NodeId) (key : Key) (hint : Hint)

def Incident.befall (c : Cluster) : Incident → Cluster
  | .call n request => (send n request c).2
  | .counted m k => c.count m k
  | .fares n condition => c.alter n (fun _ => { condition with lies := [] })
  | .slowed latency => { c with latency }
  | .losing lossy => { c with lossy }
  | .tick clock => { c with clock }
  | .damage n key => c.place n { c.replica n with store := (c.replica n).store.damage key }
  | .mend n key => c.place n { c.replica n with store := (c.replica n).store.mend key }
  | .settled n target key vs => HintDelivery.settle (hintsOf n) target key vs c
  | .undelivered n target key h => (HintDelivery.countFailure (hintsOf n) target key h c).2

structure Environment where
  allows : Incident → Prop
  calls : ∀ n request, allows (.call n request)
  counts : ∀ m k, allows (.counted m k)

namespace Environment

def any : Environment := ⟨fun _ => True, fun _ _ => trivial, fun _ _ => trivial⟩

def Event (e : Environment) : Type := { i : Incident // e.allows i }

def Keeps (e : Environment) (I : Cluster → Prop) : Prop :=
  ∀ i, e.allows i → ∀ c, I c → I (i.befall c)

def Step (e : Environment) (c d : Cluster) : Prop := ∃ i, e.allows i ∧ d = i.befall c

def Run (e : Environment) : Cluster → Cluster → Prop := Relation.ReflTransGen e.Step

theorem Keeps.run {e : Environment} {I : Cluster → Prop} (hI : e.Keeps I) {c d : Cluster}
    (h : e.Run c d) (hc : I c) : I d := by
  induction h with
  | refl => exact hc
  | tail _ hstep ih =>
    obtain ⟨i, hi, rfl⟩ := hstep
    exact hI i hi _ ih

theorem keeps_run (e : Environment) (c : Cluster) : e.Keeps (e.Run c) :=
  fun i hi _ h => h.tail ⟨i, hi, rfl⟩

end Environment

structure Interrupted where
  cluster : Cluster
  calls : Nat

variable {e : Environment}

def happen (events : List e.Event) (c : Cluster) : Cluster :=
  events.foldl (fun c i => i.val.befall c) c

def interrupted (events : Nat → List e.Event) : Network Interrupted where
  send n request s :=
    let (reply, c) := send n request (happen (events s.calls) s.cluster)
    (reply, ⟨c, s.calls + 1⟩)
  now s := s.cluster.clock
  count m k s := { s with cluster := s.cluster.count m k }

theorem Environment.Keeps.happen {I : Cluster → Prop} (hI : e.Keeps I) (events : List e.Event)
    {c : Cluster} (hc : I c) : I (happen events c) := by
  induction events generalizing c with
  | nil => exact hc
  | cons i events ih => exact ih (hI i.val i.property c hc)

theorem Environment.Keeps.preserves {I : Cluster → Prop} (hI : e.Keeps I)
    (events : Nat → List e.Event) : (interrupted events).Preserves (fun s => I s.cluster) where
  send n request s hs := hI (.call n request) (e.calls n request) _ (hI.happen (events s.calls) hs)
  count m k s hs := hI (.counted m k) (e.counts m k) s.cluster hs

theorem run_write (events : Nat → List e.Event) (coordinator : Coordinator) (key : Key)
    (s : Interrupted) (payload : Payload) (context : VersionVector) :
    e.Run s.cluster (coordinator.write (interrupted events) key payload context s).2.cluster :=
  Coordinator.write_preserves ((e.keeps_run s.cluster).preserves events) coordinator payload context
    .refl

@[simp] theorem placement_place (c : Cluster) (n : NodeId) (r : Replica) :
    (c.place n r).placement = c.placement := by
  unfold place
  split <;> rfl

@[simp] theorem placement_handle (c : Cluster) (n : NodeId) (request : Request) :
    (c.handle n request).2.placement = c.placement := by
  unfold handle
  dsimp only
  split <;> exact placement_place ..

@[simp] theorem placement_send (n : NodeId) (request : Request) (c : Cluster) :
    (send n request c).2.placement = c.placement := by
  have hreach : ∀ d : Cluster, (d.reach n request).2.placement = d.placement := by
    intro d
    unfold reach
    split
    · rfl
    · split
      · rfl
      · exact placement_handle d n request
  have hcounted : ∀ d : Cluster, (d.reachCounted n request).2.placement = d.placement := by
    intro d
    unfold reachCounted
    dsimp only
    split <;> exact hreach _
  have hovertake : (c.overtake n request).placement = c.placement := by
    unfold overtake
    split
    · exact placement_handle ..
    · rfl
  unfold send
  dsimp only
  split
  · exact hovertake
  · split
    · exact hovertake
    · split
      · exact hovertake
      · exact (hcounted _).trans hovertake

theorem keeps_placement (e : Environment) (p : Placement) : e.Keeps (fun c => c.placement = p) := by
  rintro i _ c rfl
  cases i with
  | call n request => exact placement_send n request c
  | damage n key => exact placement_place ..
  | mend n key => exact placement_place ..
  | settled n target key vs => exact placement_place ..
  | undelivered n target key h => exact placement_place ..
  | _ => rfl

theorem honest_place {c : Cluster} (hc : c.Honest) (n : NodeId) (r : Replica) :
    (c.place n r).Honest := by
  unfold place
  split
  · exact ⟨hc.lies, hc.race⟩
  · exact hc

theorem honest_befall (e : Environment) : e.Keeps Honest := by
  intro i _ c hc
  cases i with
  | call n request => exact hc.sameNetwork (sameNetwork_send n request hc)
  | counted m k => exact ⟨hc.lies, hc.race⟩
  | slowed latency => exact ⟨hc.lies, hc.race⟩
  | losing lossy => exact ⟨hc.lies, hc.race⟩
  | tick clock => exact ⟨hc.lies, hc.race⟩
  | damage n key => exact honest_place hc n _
  | mend n key => exact honest_place hc n _
  | settled n target key vs => exact honest_place hc n _
  | undelivered n target key h => exact honest_place hc n _
  | fares n condition =>
    refine ⟨fun m => ?_, hc.race⟩
    by_cases hm : m = n <;> simp [Incident.befall, hm, hc.lies]

theorem covers_place {n m : NodeId} {key : Key} {w : VersionVector} {c : Cluster} {r : Replica}
    (hr : r.store.engine = (c.replica m).store.engine) (h : Covers n key w c) :
    Covers n key w (c.place m r) := by
  refine of_place (P := fun r => Version.Covered (r.store.held key) w) h fun hn => ?_
  subst hn
  rw [Store.held, hr]
  exact h

theorem covers_befall (e : Environment) (n : NodeId) (key : Key) (w : VersionVector) :
    e.Keeps (fun c => c.Honest ∧ Covers n key w c) := by
  rintro i hi c ⟨hc, h⟩
  refine ⟨honest_befall e i hi c hc, ?_⟩
  cases i with
  | call m request => exact covers_send hc m request h
  | counted m k => exact h
  | fares m condition => exact h
  | slowed latency => exact h
  | losing lossy => exact h
  | tick clock => exact h
  | damage m k =>
    refine covers_place ?_ h
    rw [Store.damage]
    split <;> rfl
  | mend m k => exact covers_place rfl h
  | settled m target k vs => exact covers_place rfl h
  | undelivered m target k hint => exact covers_place rfl h

end QuorumStore.Cluster
