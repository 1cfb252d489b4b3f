import QuorumStore.Coordinator

namespace QuorumStore

namespace VersionVector

theorem get_le_iff {v w : VersionVector} {n : NodeId} :
    v.get n ≤ w.get n ↔ (v.get n).toNat ≤ (w.get n).toNat :=
  UInt64.le_iff_toNat_le

@[simp] theorem toNat_max (x y : UInt64) : (max x y).toNat = max x.toNat y.toNat := by
  rw [show max x y = if x ≤ y then y else x from rfl]
  split <;> rename_i h <;> rw [UInt64.le_iff_toNat_le] at h <;> omega

theorem toNat_get_merge (v w : VersionVector) (n : NodeId) :
    ((v.merge w).get n).toNat = max (v.get n).toNat (w.get n).toNat := by
  simp

theorem le_merge_left (v w : VersionVector) : v ≤ v.merge w := by
  intro n
  rw [get_le_iff, toNat_get_merge]
  exact Nat.le_max_left ..

theorem le_merge_right (v w : VersionVector) : w ≤ v.merge w := by
  intro n
  rw [get_le_iff, toNat_get_merge]
  exact Nat.le_max_right ..

theorem merge_le {u v w : VersionVector} (hu : u ≤ w) (hv : v ≤ w) : u.merge v ≤ w := by
  intro n
  have h := get_le_iff.mp (hu n)
  have h' := get_le_iff.mp (hv n)
  rw [get_le_iff, toNat_get_merge]
  exact Nat.max_le.mpr ⟨h, h'⟩

theorem ext_counters {v w : VersionVector} (h : ∀ n, v.counters.get? n = w.counters.get? n) : v = w := by
  cases v
  cases w
  exact congrArg mk (SortedMap.ext_get? h)

@[simp] theorem get?_merge (v w : VersionVector) (n : NodeId) :
    (v.merge w).counters.get? n = (v.counters.get? n).merge max (w.counters.get? n) := by
  rw [merge, SortedMap.get?_unionWith]
  cases v.counters.get? n <;> cases w.counters.get? n <;> rfl

theorem empty_merge (v : VersionVector) : (∅ : VersionVector).merge v = v := by
  refine ext_counters fun n => ?_
  rw [get?_merge]
  cases h : v.counters.get? n <;> rfl

theorem compare_eq_dominates_iff {v w : VersionVector} :
    v.compare w = .dominates ↔ w ≤ v ∧ ¬ v ≤ w := by
  rw [compare_eq]
  by_cases h : w ≤ v <;> by_cases h' : v ≤ w <;> simp [h, h']

theorem compare_eq_equal_iff {v w : VersionVector} :
    v.compare w = .equal ↔ w ≤ v ∧ v ≤ w := by
  rw [compare_eq]
  by_cases h : w ≤ v <;> by_cases h' : v ≤ w <;> simp [h, h']

theorem compare_eq_dominatedBy_iff {v w : VersionVector} :
    v.compare w = .dominatedBy ↔ v ≤ w ∧ ¬ w ≤ v := by
  rw [compare_eq]
  by_cases h : w ≤ v <;> by_cases h' : v ≤ w <;> simp [h, h']

theorem compare_eq_concurrent_iff {v w : VersionVector} :
    v.compare w = .concurrent ↔ ¬ v ≤ w ∧ ¬ w ≤ v := by
  rw [compare_eq]
  by_cases h : w ≤ v <;> by_cases h' : v ≤ w <;> simp [h, h']

@[simp] theorem compare_self (v : VersionVector) : v.compare v = .equal :=
  compare_eq_equal_iff.mpr ⟨v.le_refl, v.le_refl⟩

theorem compare_ne_equal_of_dominates {v w : VersionVector} (h : v.compare w = .dominates) :
    w.compare v ≠ .equal := by
  intro h'
  exact (compare_eq_dominates_iff.mp h).2 (compare_eq_equal_iff.mp h').1

theorem dominates_of_le {u v w : VersionVector} (h : u ≤ v) (h' : w.compare v = .dominates) :
    w.compare u = .dominates := by
  obtain ⟨hvw, hwv⟩ := compare_eq_dominates_iff.mp h'
  refine compare_eq_dominates_iff.mpr ⟨VersionVector.le_trans h hvw, ?_⟩
  intro hwu
  exact hwv (VersionVector.le_trans hwu h)

theorem get_increment? {v w : VersionVector} {n : NodeId} (h : v.increment? n = some w)
    (m : NodeId) :
    (w.get m).toNat = (v.get m).toNat + if m = n then 1 else 0 := by
  unfold increment? at h
  split at h
  · cases h
  · rename_i hmax
    cases h
    have hlt : (v.get n).toNat < UInt64.size - 1 := by
      have hne : (v.get n).toNat ≠ UInt64.size - 1 := by
        intro he
        exact hmax (UInt64.toNat_inj.mp (by rw [he]; rfl))
      have := (v.get n).toNat_lt_size
      omega
    simp only [get, SortedMap.get?_insert]
    split
    · rename_i hm
      subst hm
      have hone : (1 : UInt64).toNat = 1 := rfl
      rw [Option.getD_some, UInt64.toNat_add, hone]
      exact Nat.mod_eq_of_lt (by simp only [UInt64.size, get] at *; omega)
    · rfl

theorem increment?_dominates {v w : VersionVector} {n : NodeId} (h : v.increment? n = some w) :
    w.compare v = .dominates := by
  refine compare_eq_dominates_iff.mpr ⟨?_, ?_⟩
  · intro m
    rw [get_le_iff, get_increment? h m]
    exact Nat.le_add_right ..
  · intro hle
    have hn := get_le_iff.mp (hle n)
    rw [get_increment? h n, if_pos rfl] at hn
    omega

end VersionVector

namespace Version

theorem foldl_merge_upper {vs : List Version} {acc : VersionVector} :
    acc ≤ vs.foldl (fun acc v => acc.merge v.vector) acc ∧
      ∀ v ∈ vs, v.vector ≤ vs.foldl (fun acc v => acc.merge v.vector) acc := by
  induction vs generalizing acc with
  | nil => exact ⟨acc.le_refl, fun _ h => nomatch h⟩
  | cons u vs ih =>
    obtain ⟨hacc, hall⟩ := @ih (acc.merge u.vector)
    refine ⟨VersionVector.le_trans (acc.le_merge_left u.vector) hacc, ?_⟩
    intro v hv
    rcases List.mem_cons.mp hv with rfl | hv
    · exact VersionVector.le_trans (acc.le_merge_right v.vector) hacc
    · exact hall v hv

theorem le_mergedVector {vs : List Version} {v : Version} (h : v ∈ vs) :
    v.vector ≤ mergedVector vs :=
  foldl_merge_upper.2 v h

theorem le_mergedVector_of_covered {vs : List Version} {w : VersionVector} (h : Covered vs w) :
    w ≤ mergedVector vs := by
  obtain ⟨k, hk, hw⟩ := h
  exact VersionVector.le_trans hw (le_mergedVector hk)

end Version

theorem Coordinator.stamp?_dominates {id : NodeId} {seen : List Version}
    {context vector : VersionVector} (h : stamp? id seen context = some vector) :
    (∀ v, Version.Covered seen v → vector.compare v = .dominates) ∧
      vector.compare context = .dominates := by
  have hup := VersionVector.increment?_dominates h
  constructor
  · intro v hv
    refine VersionVector.dominates_of_le ?_ hup
    exact VersionVector.le_trans (Version.le_mergedVector_of_covered hv)
      (VersionVector.le_merge_left _ _)
  · exact VersionVector.dominates_of_le (VersionVector.le_merge_right _ _) hup

end QuorumStore
