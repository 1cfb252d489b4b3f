import Mathlib.Data.List.Nodup
import Mathlib.Data.List.Perm.Subperm
import QuorumStore.Proofs.ReadRounds

namespace QuorumStore

theorem exists_common {as bs pool : List NodeId} (ha : as.Nodup) (hb : bs.Nodup)
    (has : as ⊆ pool) (hbs : bs ⊆ pool) (h : pool.length < as.length + bs.length) :
    ∃ n, n ∈ as ∧ n ∈ bs := by
  by_contra hnone
  have hnodup : (as ++ bs).Nodup := by
    refine List.nodup_append.mpr ⟨ha, hb, ?_⟩
    rintro n hn _ hm rfl
    exact hnone ⟨n, hn, hm⟩
  have hle := (List.subperm_of_subset hnodup (List.append_subset.mpr ⟨has, hbs⟩)).length_le
  rw [List.length_append] at hle
  omega

namespace ReadRound

variable {sloppy : Bool} {quorum : Nat} {up : NodeId → Bool} {good : NodeId → List Version → Prop}
  {replicas asked standIns heard : List NodeId} {g : ReadRound} {call : InFlight ReadAnswer}
  {rest : List (InFlight ReadAnswer)}

structure Ledger (sloppy : Bool) (quorum : Nat) (up : NodeId → Bool)
    (good : NodeId → List Version → Prop) (replicas standIns asked heard : List NodeId)
    (g : ReadRound) : Prop where
  nodup : (heard ++ g.awaited).Nodup
  among : ∀ n ∈ heard ++ g.awaited, n ∈ replicas ++ asked
  order : asked ++ g.standIns = standIns
  strict : sloppy = false → asked = []
  count : heard.length = g.successes
  gathered : ∀ n ∈ heard, ∃ vs, good n vs ∧ ∀ v ∈ vs, v ∈ g.versions
  reached : ∀ n ∈ replicas ++ asked, up n = true → n ∈ heard ++ g.awaited
  bound : asked.filter up = [] ∨ (replicas.filter up).length + (asked.filter up).length ≤ quorum

namespace Ledger

theorem nodup_heard (hl : Ledger sloppy quorum up good replicas standIns asked heard g) :
    heard.Nodup :=
  (List.nodup_append.mp hl.nodup).1

theorem heard_subset (hl : Ledger sloppy quorum up good replicas standIns asked heard g) :
    heard ⊆ replicas ++ asked :=
  fun n hn => hl.among n (List.mem_append_left _ hn)

theorem begun {pending : List (InFlight ReadAnswer)} (hnodes : pending.map (·.answer.node) = replicas)
    (hnodup : replicas.Nodup) :
    Ledger sloppy quorum up good replicas standIns [] [] ⟨0, [], [], pending, standIns, 0⟩ := by
  refine ⟨?_, ?_, rfl, fun _ => rfl, rfl, (fun _ h => nomatch h), ?_, .inl rfl⟩
  all_goals rw [awaited, hnodes]
  · exact hnodup
  · rw [List.append_nil]
    exact fun _ h => h
  · rw [List.append_nil]
    exact fun _ h _ => h

theorem hear {vs : List Version}
    (hl : Ledger sloppy quorum up good replicas standIns asked heard g)
    (hperm : (call :: rest).Perm g.pending) (hvs : good call.answer.node vs) :
    Ledger sloppy quorum up good replicas standIns asked (call.answer.node :: heard)
      (({ g with pending := rest } : ReadRound).hear call.answer.node call.answer.isStandIn vs) := by
  have hperm' := awaited_perm heard hperm
  have hawaited : (({ g with pending := rest } : ReadRound).hear call.answer.node
      call.answer.isStandIn vs).awaited = rest.map (·.answer.node) := by
    simp [awaited]
  refine ⟨?_, ?_, ?_, hl.strict, ?_, ?_, ?_, hl.bound⟩
  · rw [hawaited]
    exact hperm'.nodup_iff.mpr hl.nodup
  · rw [hawaited]
    exact fun n hn => hl.among n (hperm'.mem_iff.mp hn)
  · simpa using hl.order
  · simp [hl.count]
  · intro n hn
    rcases List.mem_cons.mp hn with rfl | hn
    · exact ⟨vs, hvs, fun v hv => mem_versions_hear.mpr (.inr hv)⟩
    · obtain ⟨us, hus, hsub⟩ := hl.gathered n hn
      exact ⟨us, hus, fun v hv => mem_versions_hear.mpr (.inl (hsub v hv))⟩
  · rw [hawaited]
    exact fun n hn hup => hperm'.mem_iff.mpr (hl.reached n hn hup)

theorem drop (hl : Ledger sloppy quorum up good replicas standIns asked heard g)
    (hperm : (call :: rest).Perm g.pending) (hdown : up call.answer.node = false) :
    Ledger sloppy quorum up good replicas standIns asked heard { g with pending := rest } := by
  have hperm' := awaited_perm heard hperm
  refine ⟨?_, ?_, hl.order, hl.strict, hl.count, hl.gathered, ?_, hl.bound⟩
  · exact (List.nodup_cons.mp (hperm'.nodup_iff.mpr hl.nodup)).2
  · exact fun n hn => hl.among n (hperm'.mem_iff.mp (List.mem_cons_of_mem _ hn))
  · intro n hn hup
    rcases List.mem_cons.mp (hperm'.mem_iff.mpr (hl.reached n hn hup)) with rfl | h
    · rw [hdown] at hup
      cases hup
    · exact h

theorem ask {n : NodeId} {ns : List NodeId}
    (hl : Ledger sloppy quorum up good replicas standIns asked heard g)
    (hall : (replicas ++ standIns).Nodup) (hnode : call.answer.node = n) (hns : g.standIns = n :: ns)
    (hsloppy : sloppy = true) (hshort : g.successes + g.pending.length < quorum) :
    Ledger sloppy quorum up good replicas standIns (asked ++ [n]) heard
      { g with pending := g.pending ++ [call], standIns := ns } := by
  have horder : asked ++ [n] ++ ns = standIns := by
    rw [List.append_assoc, ← hl.order, hns]
    rfl
  have hnew : (replicas ++ asked ++ [n]).Nodup := by
    rw [← horder, ← List.append_assoc, ← List.append_assoc] at hall
    exact (List.nodup_append.mp hall).1
  have hawaited : ({ g with pending := g.pending ++ [call], standIns := ns } : ReadRound).awaited =
      g.awaited ++ [n] := by
    rw [awaited, List.map_append, List.map_singleton, hnode]
    rfl
  refine ⟨?_, ?_, horder, ?_, hl.count, hl.gathered, ?_, ?_⟩
  · rw [hawaited, ← List.append_assoc]
    refine List.nodup_append.mpr ⟨hl.nodup, List.nodup_singleton _, ?_⟩
    exact fun m hm k hk => (List.nodup_append.mp hnew).2.2 m (hl.among m hm) k hk
  · rw [hawaited, ← List.append_assoc, ← List.append_assoc]
    intro m hm
    rcases List.mem_append.mp hm with hm | hm
    · exact List.mem_append_left _ (hl.among m hm)
    · exact List.mem_append_right _ hm
  · intro hstrict
    rw [hsloppy] at hstrict
    cases hstrict
  · rw [hawaited, ← List.append_assoc, ← List.append_assoc]
    intro m hm hup
    rcases List.mem_append.mp hm with hm | hm
    · exact List.mem_append_left _ (hl.reached m hm hup)
    · exact List.mem_append_right _ hm
  · -- the nodes that are up so far are among those heard or awaited
    have hsub : (replicas ++ asked).filter up ⊆ heard ++ g.awaited := by
      intro m hm
      obtain ⟨hm, hup⟩ := List.mem_filter.mp hm
      exact hl.reached m hm hup
    have hle := (List.subperm_of_subset ((List.nodup_append.mp hnew).1.filter up) hsub).length_le
    simp only [List.filter_append, List.length_append, awaited, List.length_map, hl.count] at hle
    refine .inr ?_
    have hone : ([n].filter up).length ≤ 1 := List.length_filter_le up _
    rw [List.filter_append, List.length_append]
    omega

end Ledger

end ReadRound

end QuorumStore
