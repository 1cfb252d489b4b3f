import Mathlib.Order.Bounds.Basic
import QuorumStore.Proofs.VectorOrder

namespace QuorumStore

instance commutative_max : Std.Commutative (max : UInt64 → UInt64 → UInt64) where
  comm x y := by
    apply UInt64.toNat_inj.mp
    simp [Nat.max_comm]

instance associative_max : Std.Associative (max : UInt64 → UInt64 → UInt64) where
  assoc x y z := by
    apply UInt64.toNat_inj.mp
    simp [Nat.max_assoc]

instance idempotent_max : Std.IdempotentOp (max : UInt64 → UInt64 → UInt64) where
  idempotent x := by
    apply UInt64.toNat_inj.mp
    simp

namespace VersionVector

variable {u v w : VersionVector} {n : NodeId}

theorem merge_comm (v w : VersionVector) : v.merge w = w.merge v := by
  refine ext_counters fun n => ?_
  rw [get?_merge, get?_merge]
  exact Std.Commutative.comm ..

theorem merge_assoc (u v w : VersionVector) : (u.merge v).merge w = u.merge (v.merge w) := by
  refine ext_counters fun n => ?_
  simp only [get?_merge]
  exact Std.Associative.assoc ..

theorem merge_self (v : VersionVector) : v.merge v = v := by
  refine ext_counters fun n => ?_
  rw [get?_merge]
  exact Std.IdempotentOp.idempotent _

theorem merge_right_comm (u v w : VersionVector) : (u.merge v).merge w = (u.merge w).merge v := by
  rw [merge_assoc, merge_comm v w, merge_assoc]

theorem isLUB_merge (v w : VersionVector) : IsLUB {v, w} (v.merge w) := by
  constructor
  · rintro u (rfl | rfl)
    · exact le_merge_left u w
    · exact le_merge_right v u
  · intro u hu
    exact merge_le (hu (.inl rfl)) (hu (.inr rfl))

theorem merge_mono {u' v' : VersionVector} (hu : u ≤ u') (hv : v ≤ v') : u.merge v ≤ u'.merge v' :=
  merge_le (VersionVector.le_trans hu (le_merge_left u' v'))
    (VersionVector.le_trans hv (le_merge_right u' v'))

theorem not_le_iff : ¬ v ≤ w ↔ ∃ n, w.get n < v.get n := by
  simp only [LE.le, not_forall]
  exact exists_congr fun n => UInt64.not_le

theorem get_eq_iff : (∀ n, v.get n = w.get n) ↔ w ≤ v ∧ v ≤ w := by
  constructor
  · intro h
    exact ⟨fun n => UInt64.le_of_eq (h n).symm, fun n => UInt64.le_of_eq (h n)⟩
  · rintro ⟨hwv, hvw⟩ n
    exact UInt64.le_antisymm (hvw n) (hwv n)

theorem exists_increment? (h : (v.get n).toNat < UInt64.size - 1) : ∃ w, v.increment? n = some w := by
  rw [increment?, if_neg]
  · exact ⟨_, rfl⟩
  · intro hmax
    rw [hmax] at h
    exact absurd h (by decide)

theorem get_increment?_of_ne (h : v.increment? n = some w) {m : NodeId} (hm : m ≠ n) :
    w.get m = v.get m := by
  apply UInt64.toNat_inj.mp
  rw [get_increment? h, if_neg hm, Nat.add_zero]

theorem join_semilattice (u v w : VersionVector) :
    ((v.compare w = .equal ↔ ∀ n, v.get n = w.get n) ∧
      (v.compare w = .dominates ↔ (∀ n, w.get n ≤ v.get n) ∧ ∃ n, w.get n < v.get n) ∧
      (v.compare w = .dominatedBy ↔ (∀ n, v.get n ≤ w.get n) ∧ ∃ n, v.get n < w.get n) ∧
      (v.compare w = .concurrent ↔ (∃ n, w.get n < v.get n) ∧ ∃ n, v.get n < w.get n)) ∧
    (IsLUB {v, w} (v.merge w) ∧
      v.merge w = w.merge v ∧ (u.merge v).merge w = u.merge (v.merge w) ∧ v.merge v = v ∧
      ∀ u' v', u ≤ u' → v ≤ v' → u.merge v ≤ u'.merge v') ∧
    ∀ n, (v.get n).toNat < UInt64.size - 1 → ∃ raised, v.increment? n = some raised ∧
      raised.compare v = .dominates ∧ (raised.get n).toNat = (v.get n).toNat + 1 ∧
      ∀ m, m ≠ n → raised.get m = v.get m := by
  refine ⟨⟨?_, ?_, ?_, ?_⟩, ⟨isLUB_merge v w, merge_comm v w, merge_assoc u v w, merge_self v,
    fun u' v' => merge_mono⟩, fun n hn => ?_⟩
  · rw [compare_eq_equal_iff, get_eq_iff]
  · rw [compare_eq_dominates_iff, not_le_iff]
    rfl
  · rw [compare_eq_dominatedBy_iff, not_le_iff]
    rfl
  · rw [compare_eq_concurrent_iff, not_le_iff, not_le_iff]
  · obtain ⟨raised, hraised⟩ := exists_increment? hn
    refine ⟨raised, hraised, increment?_dominates hraised, ?_, fun m => get_increment?_of_ne hraised⟩
    rw [get_increment? hraised, if_pos rfl]

end VersionVector

namespace Zeroed

def bare : VersionVector := .ofEntries [("B", 2)]

def padded : VersionVector := ⟨⟨[("A", 0), ("B", 2)], by decide⟩⟩

theorem zero_counter_raised :
    bare ≠ padded ∧ padded ≤ bare ∧ (padded.get "A").toNat < UInt64.size - 1 ∧
      padded.merge padded ≤ bare.merge padded ∧
      ∃ raised, padded.increment? "A" = some raised ∧ raised.compare padded = .dominates ∧
        (raised.get "A").toNat = (padded.get "A").toNat + 1 ∧
        ∀ m, m ≠ "A" → raised.get m = padded.get m := by
  obtain ⟨-, ⟨-, -, -, -, hmono⟩, hraised⟩ := VersionVector.join_semilattice padded padded bare
  exact ⟨by decide, by decide, by decide, hmono bare padded (by decide) padded.le_refl,
    hraised "A" (by decide)⟩

end Zeroed

end QuorumStore
