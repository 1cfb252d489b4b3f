import QuorumStore.Cluster.Assembly

namespace QuorumStore

theorem SyncPolicy.isSome_parse?_iff {s : String} : (parse? s).isSome = true ↔ s.toLower ∈ words := by
  simp only [parse?, words, List.mem_cons, List.not_mem_nil, or_false]
  split
  · simp [*]
  · split
    · simp [*]
    · split <;> simp [*]

theorem SyncPolicy.parse?_eq_batch_iff {s : String} : parse? s = some .batch ↔ s.toLower = "batch" := by
  simp only [parse?]
  split
  · simp [*]
  · split
    · simp [*]
    · split <;> simp [*]

section Checks

variable {ε α β : Type} {p : Prop} [Decidable p] {e : ε} {rest : Except ε α} {a : α}

@[simp] theorem bind_eq_ok {x : Except ε β} {f : β → Except ε α} :
    (x >>= f) = .ok a ↔ ∃ b, x = .ok b ∧ f b = .ok a := by
  cases x <;> simp [bind, Except.bind]

@[simp] theorem error_bind (e : ε) (f : β → Except ε α) : (Except.error e >>= f) = .error e := rfl

@[simp] theorem ite_error_eq_ok : (if p then .error e else rest) = .ok a ↔ ¬ p ∧ rest = .ok a := by
  split <;> simp [*]

end Checks

namespace Config

variable {c : Config}

structure Consistent (c : Config) : Prop where
  named : ∀ n ∈ c.nodes, n ≠ ""
  distinct : c.nodes.Nodup
  listed : c.nodeId ∈ c.nodes
  positions : 0 < c.ring.virtualNodes
  enough : c.quorum.n ≤ c.nodes.length
  reads : 1 ≤ c.quorum.r ∧ c.quorum.r ≤ c.quorum.n
  writes : 1 ≤ c.quorum.w ∧ c.quorum.w ≤ c.quorum.n
  depth : c.repair.digestDepth ≤ Digest.maxDepth
  attempts : c.hints.maxAttempts ≠ some 0
  sync : ∃ policy, SyncPolicy.parse? c.storage.sync = some policy ∧
    (policy = .batch → 0 < c.storage.batchInterval)

theorem checkNodes_eq_ok_iff {seen ns : List NodeId} :
    checkNodes seen ns = .ok () ↔ (∀ n ∈ ns, n ≠ "") ∧ ns.Nodup ∧ ∀ n ∈ ns, n ∉ seen := by
  induction ns generalizing seen with
  | nil => simp [checkNodes]
  | cons n ns ih =>
    rw [checkNodes, ite_error_eq_ok, ite_error_eq_ok, ih, String.isEmpty_iff]
    constructor
    · rintro ⟨hn, hseen, hnamed, hnodup, hfresh⟩
      refine ⟨List.forall_mem_cons.mpr ⟨hn, hnamed⟩, List.nodup_cons.mpr ⟨fun h => ?_, hnodup⟩,
        List.forall_mem_cons.mpr ⟨hseen, fun m hm h => hfresh m hm (List.mem_cons_of_mem _ h)⟩⟩
      exact hfresh n h List.mem_cons_self
    · rintro ⟨hnamed, hnodup, hfresh⟩
      obtain ⟨hn, hnamed⟩ := List.forall_mem_cons.mp hnamed
      obtain ⟨hseen, hfresh⟩ := List.forall_mem_cons.mp hfresh
      obtain ⟨hnew, hnodup⟩ := List.nodup_cons.mp hnodup
      refine ⟨hn, hseen, hnamed, hnodup, fun m hm h => ?_⟩
      rcases List.mem_cons.mp h with rfl | h
      · exact hnew hm
      · exact hfresh m hm h

theorem validate_eq_ok_iff : c.validate = .ok () ↔ c.Consistent := by
  simp only [validate, error_bind, ite_error_eq_ok, bind_eq_ok]
  constructor
  · rintro ⟨-, ⟨⟩, hnodes, hlisted, hpositions, hcopies, henough, hreads, hwrites, hdepth, hattempts, hword,
      hinterval, -⟩
    obtain ⟨hnamed, hdistinct, -⟩ := checkNodes_eq_ok_iff.mp hnodes
    obtain ⟨policy, hpolicy⟩ :=
      Option.isSome_iff_exists.mp (SyncPolicy.isSome_parse?_iff.mpr (Decidable.not_not.mp hword))
    refine ⟨hnamed, hdistinct, Decidable.not_not.mp hlisted, by omega, by omega, by omega, by omega, by omega,
      hattempts, policy, hpolicy, fun hbatch => ?_⟩
    have hlower := SyncPolicy.parse?_eq_batch_iff.mp (hbatch ▸ hpolicy)
    exact Nat.pos_of_ne_zero fun hzero => hinterval ⟨hlower, hzero⟩
  · rintro ⟨hnamed, hdistinct, hlisted, hpositions, henough, hreads, hwrites, hdepth, hattempts, policy, hpolicy,
      hinterval⟩
    have hword := SyncPolicy.isSome_parse?_iff.mp (Option.isSome_iff_exists.mpr ⟨policy, hpolicy⟩)
    refine ⟨fun hempty => ?_, (), checkNodes_eq_ok_iff.mpr ⟨hnamed, hdistinct, by simp⟩, not_not_intro hlisted,
      by omega, by omega, by omega, by omega, by omega, by omega, hattempts, not_not_intro hword, ?_, rfl⟩
    · rw [List.isEmpty_iff.mp hempty] at hlisted
      exact nomatch hlisted
    · rintro ⟨hlower, hzero⟩
      have hbatch := SyncPolicy.parse?_eq_batch_iff.mpr hlower
      exact Nat.ne_of_gt (hinterval (Option.some.inj (hpolicy.symm.trans hbatch))) hzero

theorem Consistent.validate_quorum (h : c.Consistent) : (toQuorum c.quorum).validate = .ok () :=
  Quorum.validate_eq_ok_iff.mpr ⟨h.writes.1, h.writes.2, h.reads.1, h.reads.2⟩

theorem Consistent.create?_coordinator (h : c.Consistent) (n : NodeId) (ring : Ring) :
    Coordinator.create? n (toQuorum c.quorum) ring = .ok ⟨n, toQuorum c.quorum, ring⟩ := by
  rw [Coordinator.create?, h.validate_quorum]
  rfl

end Config

end QuorumStore
