import QuorumStore.Config
import QuorumStore.Proofs.DeliverySteps
import QuorumStore.Proofs.Preservation

namespace QuorumStore

variable {σ : Type}

def Network.sounding (net : Network σ) : Network (σ × List Nat) where
  send n request s :=
    let (reply, t) := net.send n request s.1
    (reply, t, s.2 ++ request.depth?.toList)
  now s := net.now s.1
  count m k s := (net.count m k s.1, s.2)

theorem Network.preservesAt_sounding (net : Network σ) (deep : Nat → Prop) :
    net.sounding.PreservesAt deep (fun s => ∀ d ∈ s.2, deep d) where
  send n request s hrequest hs d hd := by
    rcases List.mem_append.mp hd with hd | hd
    · exact hs d hd
    · exact hrequest d (Option.mem_toList.mp hd)
  count _ _ _ hs := hs

def HintAccess.beside {α : Type} (access : HintAccess σ) : HintAccess (σ × α) :=
  ⟨fun s => access.table s.1, fun hints s => (access.store hints s.1, s.2)⟩

namespace HintDelivery

variable {net : Network σ} {access : HintAccess σ} {settings : DeliverySettings} {deep : Nat → Prop}
  {I : σ → Prop}

theorem passes_preserves_at (hnet : net.PreservesAt deep I)
    (hstore : ∀ hints s, I s → I (access.store hints s)) {stage stage' : Stage} {s s' : σ}
    (h : Passes net access settings stage s stage' s') (hs : I s) : I s' := by
  cases h with
  | finish => exact hs
  | lookUp => exact hs
  | turn => exact hs
  | spent => exact hs
  | taken => exact hnet.send _ _ nofun hs
  | refused => exact hnet.send _ _ nofun hs
  | settled => exact hnet.count _ _ (hstore _ _ hs)
  | kept => exact hstore _ _ hs
  | expired => exact hstore _ _ hs
  | dropped => exact hnet.count _ _ (hstore _ _ hs)
  | rest => exact hs

theorem cycle_preserves_at (hnet : net.PreservesAt deep I)
    (hstore : ∀ hints s, I s → I (access.store hints s)) {s : σ} (hs : I s) :
    I (cycle net access settings s).2 := by
  have hsteps : ∀ x y, Steps net access settings x y → I x.2.2 → I y.2.2 := by
    intro x y h hx
    induction h with
    | refl => exact hx
    | @tail y z _ hstep ih =>
      subst hstep
      exact passes_preserves_at hnet hstore (passes_step y.1 y.2.1 y.2.2) ih
  exact hsteps _ _ (steps_cycle s) hs

end HintDelivery

namespace Config

variable {c : Config}

structure Shallow (c : Config) : Prop where
  limit : c.repair.digestDepth ≤ Digest.maxDepth
  pass : ∀ {σ : Type} (net : Network σ) (a b : NodeId) (s : σ),
    ∀ d ∈ (Repair.syncPair net.sounding c.repair.digestDepth a b (s, [])).2.2, d = c.repair.digestDepth
  write : ∀ {σ : Type} (net : Network σ) (k : Coordinator) (key : Key) (payload : Payload)
    (context : VersionVector) (s : σ), (k.write net.sounding key payload context (s, [])).2.2 = []
  read : ∀ {σ : Type} (net : Network σ) (k : Coordinator) (key : Key) (s : σ),
    (k.read net.sounding key (s, [])).2.2 = []
  delivery : ∀ {σ : Type} (net : Network σ) (access : HintAccess σ) (settings : DeliverySettings) (s : σ),
    (HintDelivery.cycle net.sounding access.beside settings (s, [])).2.2 = []

theorem shallow (h : c.repair.digestDepth ≤ Digest.maxDepth) : c.Shallow where
  limit := h
  pass net a b _ :=
    Repair.syncPair_preserves_at (net.preservesAt_sounding (· = c.repair.digestDepth)) rfl a b nofun
  write net k _ payload context _ := List.eq_nil_iff_forall_not_mem.mpr
    (Coordinator.write_preserves_at (net.preservesAt_sounding fun _ => False) k payload context nofun)
  read net k _ _ := List.eq_nil_iff_forall_not_mem.mpr
    (Coordinator.read_preserves_at (net.preservesAt_sounding fun _ => False) k nofun)
  delivery net _ _ _ := List.eq_nil_iff_forall_not_mem.mpr
    (HintDelivery.cycle_preserves_at (net.preservesAt_sounding fun _ => False) (fun _ _ hs => hs) nofun)

end Config

end QuorumStore
