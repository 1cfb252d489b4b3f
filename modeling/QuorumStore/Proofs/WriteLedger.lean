import Mathlib.Data.List.Nodup
import Mathlib.Data.List.Perm.Subperm
import QuorumStore.WriteRound

namespace QuorumStore

structure Route where
  receiver : NodeId
  target : NodeId

structure Route.Sound (up : NodeId → Bool) (replicas asked : List NodeId) (r : Route) : Prop where
  target : r.target ∈ replicas
  receiver : r.receiver = r.target ∨ r.receiver ∈ asked ∧ up r.target = false

theorem Route.Sound.receiver_mem {up : NodeId → Bool} {replicas asked : List NodeId} {r : Route}
    (h : r.Sound up replicas asked) : r.receiver ∈ replicas ++ asked := by
  rcases h.receiver with hr | ⟨hr, -⟩
  · exact hr ▸ List.mem_append_left _ h.target
  · exact List.mem_append_right _ hr

def WriteAnswer.route (a : WriteAnswer) : Route := ⟨a.standIn.getD a.target, a.target⟩

namespace WriteRound

variable {sloppy : Bool} {up : NodeId → Bool} {replicas asked standIns : List NodeId}
  {acked : List Route} {g : WriteRound} {call : InFlight WriteAnswer}
  {rest : List (InFlight WriteAnswer)}

def awaited (g : WriteRound) : List Route := g.pending.map (·.answer.route)

theorem awaited_perm (acked : List Route) (hperm : (call :: rest).Perm g.pending) :
    (call.answer.route :: (acked ++ rest.map (·.answer.route))).Perm (acked ++ g.awaited) := by
  have hroutes : (call.answer.route :: rest.map (·.answer.route)).Perm g.awaited :=
    hperm.map (fun c : InFlight WriteAnswer => c.answer.route)
  exact List.perm_middle.symm.trans (hroutes.append_left acked)

structure Ledger (sloppy : Bool) (up : NodeId → Bool) (replicas standIns asked : List NodeId)
    (acked : List Route) (g : WriteRound) : Prop where
  receivers : ((acked ++ g.awaited).map (·.receiver)).Nodup
  targets : ((acked ++ g.awaited).map (·.target)).Nodup
  sound : ∀ r ∈ acked ++ g.awaited, Route.Sound up replicas asked r
  order : asked ++ g.standIns = standIns
  strict : sloppy = false → asked = []
  count : acked.length = g.acks
  reached : ∀ n ∈ replicas ++ asked, up n = true → n ∈ (acked ++ g.awaited).map (·.receiver)

namespace Ledger

theorem nodup_acked (hl : Ledger sloppy up replicas standIns asked acked g) :
    (acked.map (·.receiver)).Nodup := by
  have h := hl.receivers
  rw [List.map_append] at h
  exact (List.nodup_append.mp h).1

theorem acked_subset (hl : Ledger sloppy up replicas standIns asked acked g) :
    acked.map (·.receiver) ⊆ replicas ++ asked := by
  intro n hn
  obtain ⟨r, hr, rfl⟩ := List.mem_map.mp hn
  exact (hl.sound r (List.mem_append_left _ hr)).receiver_mem

theorem begun {pending : List (InFlight WriteAnswer)}
    (hroutes : pending.map (·.answer.route) = replicas.map (fun n => Route.mk n n))
    (hnodup : replicas.Nodup) :
    Ledger sloppy up replicas standIns [] [] ⟨0, 0, pending, standIns, 0⟩ := by
  refine ⟨?_, ?_, ?_, rfl, fun _ => rfl, rfl, ?_⟩
  all_goals rw [List.nil_append, awaited, hroutes]
  · rwa [List.map_map, show Route.receiver ∘ (fun n : NodeId => Route.mk n n) = id from rfl,
      List.map_id]
  · rwa [List.map_map, show Route.target ∘ (fun n : NodeId => Route.mk n n) = id from rfl,
      List.map_id]
  · intro r hr
    obtain ⟨n, hn, rfl⟩ := List.mem_map.mp hr
    exact ⟨hn, .inl rfl⟩
  · intro n hn _
    simpa using hn

theorem acknowledge {hinted : Nat} (hl : Ledger sloppy up replicas standIns asked acked g)
    (hperm : (call :: rest).Perm g.pending) :
    Ledger sloppy up replicas standIns asked (call.answer.route :: acked)
      { g with acks := g.acks + 1, hinted, pending := rest } := by
  have hperm' := awaited_perm acked hperm
  refine ⟨?_, ?_, ?_, hl.order, hl.strict, congrArg (· + 1) hl.count, ?_⟩
  · exact (hperm'.map (·.receiver)).nodup_iff.mpr hl.receivers
  · exact (hperm'.map (·.target)).nodup_iff.mpr hl.targets
  · exact fun r hr => hl.sound r (hperm'.mem_iff.mp hr)
  · exact fun n hn hup => (hperm'.map (·.receiver)).mem_iff.mpr (hl.reached n hn hup)

theorem drop (hl : Ledger sloppy up replicas standIns asked acked g)
    (hperm : (call :: rest).Perm g.pending) (hdown : up call.answer.route.receiver = false) :
    Ledger sloppy up replicas standIns asked acked { g with pending := rest } ∧
      up call.answer.target = false ∧ call.answer.target ∈ replicas ∧
      call.answer.target ∉ (acked ++ rest.map (·.answer.route)).map (·.target) := by
  have hperm' := awaited_perm acked hperm
  have hmem := hperm'.mem_iff.mp (List.mem_cons_self ..)
  have htargets := List.nodup_cons.mp ((hperm'.map (·.target)).nodup_iff.mpr hl.targets)
  refine ⟨⟨?_, htargets.2, ?_, hl.order, hl.strict, hl.count, ?_⟩, ?_, (hl.sound _ hmem).target,
    htargets.1⟩
  · exact (List.nodup_cons.mp ((hperm'.map (·.receiver)).nodup_iff.mpr hl.receivers)).2
  · exact fun r hr => hl.sound r (hperm'.mem_iff.mp (List.mem_cons_of_mem _ hr))
  · intro n hn hup
    have h := (hperm'.map (·.receiver)).mem_iff.mpr (hl.reached n hn hup)
    rcases List.mem_cons.mp h with rfl | h
    · rw [hdown] at hup
      cases hup
    · exact h
  · rcases (hl.sound _ hmem).receiver with h | h
    · rw [h] at hdown
      exact hdown
    · exact h.2

theorem substitute {n target : NodeId} {ns : List NodeId}
    (hl : Ledger sloppy up replicas standIns asked acked g) (hall : (replicas ++ standIns).Nodup)
    (hroute : call.answer.route = ⟨n, target⟩) (hns : g.standIns = n :: ns) (hsloppy : sloppy = true)
    (hdown : up target = false) (htarget : target ∈ replicas)
    (hfree : target ∉ (acked ++ g.awaited).map (·.target)) :
    Ledger sloppy up replicas standIns (asked ++ [n]) acked
      { g with pending := g.pending ++ [call], standIns := ns } := by
  have horder : asked ++ [n] ++ ns = standIns := by
    rw [List.append_assoc, ← hl.order, hns]
    rfl
  have hnew : n ∉ replicas ++ asked := by
    rw [← horder, ← List.append_assoc, ← List.append_assoc] at hall
    intro h
    exact (List.nodup_append.mp (List.nodup_append.mp hall).1).2.2 n h n (List.mem_singleton_self n) rfl
  have hawaited : acked ++ ({ g with pending := g.pending ++ [call], standIns := ns } :
      WriteRound).awaited = acked ++ g.awaited ++ [⟨n, target⟩] := by
    rw [awaited, List.map_append, List.append_assoc, List.map_singleton, hroute]
    rfl
  refine ⟨?_, ?_, ?_, horder, ?_, hl.count, ?_⟩
  · rw [hawaited, List.map_append]
    refine List.nodup_append.mpr ⟨hl.receivers, List.nodup_singleton n, ?_⟩
    intro m hm k hk hmk
    obtain rfl := List.mem_singleton.mp hk
    obtain ⟨r, hr, rfl⟩ := List.mem_map.mp hm
    exact hnew (hmk ▸ (hl.sound r hr).receiver_mem)
  · rw [hawaited, List.map_append]
    refine List.nodup_append.mpr ⟨hl.targets, List.nodup_singleton target, ?_⟩
    intro m hm k hk hmk
    obtain rfl := List.mem_singleton.mp hk
    exact hfree (hmk ▸ hm)
  · rw [hawaited]
    intro r hr
    rcases List.mem_append.mp hr with hr | hr
    · refine ⟨(hl.sound r hr).target, (hl.sound r hr).receiver.imp_right ?_⟩
      exact fun h => ⟨List.mem_append_left _ h.1, h.2⟩
    · obtain rfl := List.mem_singleton.mp hr
      exact ⟨htarget, .inr ⟨List.mem_append_right _ (List.mem_singleton_self n), hdown⟩⟩
  · intro hstrict
    rw [hsloppy] at hstrict
    cases hstrict
  · rw [hawaited, List.map_append, ← List.append_assoc]
    intro m hm hup
    rcases List.mem_append.mp hm with hm | hm
    · exact List.mem_append_left _ (hl.reached m hm hup)
    · exact List.mem_append_right _ hm

theorem bound (hl : Ledger sloppy up replicas standIns asked acked g)
    (hall : (replicas ++ standIns).Nodup) :
    (replicas.filter up).length + (asked.filter up).length ≤ replicas.length := by
  have hnew : (replicas ++ asked).Nodup := by
    rw [← hl.order, ← List.append_assoc] at hall
    exact (List.nodup_append.mp hall).1
  obtain ⟨hreplicas, hasked, hdisjoint⟩ := List.nodup_append.mp hnew
  let around := (acked ++ g.awaited).filter (fun r => decide (r.receiver ∈ asked))
  have hreceivers : asked.filter up ⊆ around.map (·.receiver) := by
    intro n hn
    obtain ⟨hn, hup⟩ := List.mem_filter.mp hn
    obtain ⟨r, hr, rfl⟩ := List.mem_map.mp (hl.reached n (List.mem_append_right _ hn) hup)
    exact List.mem_map.mpr ⟨r, List.mem_filter.mpr ⟨hr, decide_eq_true hn⟩, rfl⟩
  have htargets : around.map (·.target) ⊆ replicas.filter (fun n => !up n) := by
    intro n hn
    obtain ⟨r, hr, rfl⟩ := List.mem_map.mp hn
    obtain ⟨hr, hmem⟩ := List.mem_filter.mp hr
    have hsound := hl.sound r hr
    refine List.mem_filter.mpr ⟨hsound.target, ?_⟩
    rcases hsound.receiver with heq | ⟨-, hdown⟩
    · exact absurd heq.symm (hdisjoint _ hsound.target _ (of_decide_eq_true hmem))
    · rw [hdown]
      rfl
  have hnodup : (around.map (·.target)).Nodup :=
    (List.filter_sublist.map Route.target).nodup hl.targets
  have hle := (List.subperm_of_subset (hasked.filter up) hreceivers).length_le
  have hle' := (List.subperm_of_subset hnodup htargets).length_le
  have hsplit := List.length_eq_length_filter_add up (l := replicas)
  rw [List.length_map] at hle hle'
  omega

end Ledger

end WriteRound

end QuorumStore
