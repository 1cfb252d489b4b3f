import QuorumStore.Bytes
import QuorumStore.VersionVector

namespace QuorumStore

abbrev Key := String

structure Version where
  value : Bytes
  vector : VersionVector
  timestamp : UInt64
  tombstone : Bool
  deriving DecidableEq

namespace Version

def live (value : Bytes) (vector : VersionVector) (timestamp : UInt64) : Version :=
  ⟨value, vector, timestamp, false⟩

def deletion (vector : VersionVector) (timestamp : UInt64) : Version :=
  ⟨[], vector, timestamp, true⟩

def Covered (vs : List Version) (v : VersionVector) : Prop := ∃ k ∈ vs, v ≤ k.vector

instance (vs : List Version) (v : VersionVector) : Decidable (Covered vs v) :=
  inferInstanceAs (Decidable (∃ k ∈ vs, v ≤ k.vector))

@[simp] theorem covered_nil (v : VersionVector) : ¬ Covered [] v := by
  simp [Covered]

@[simp] theorem covered_cons {k : Version} {vs : List Version} {v : VersionVector} :
    Covered (k :: vs) v ↔ v ≤ k.vector ∨ Covered vs v := by
  simp [Covered]

def displace (v : Version) : List Version → Option (List Version)
  | [] => some []
  | k :: kept =>
      match v.vector.compare k.vector with
      | .dominatedBy => none
      | .equal => none
      | .dominates => displace v kept
      | .concurrent => (displace v kept).map (k :: ·)

def accept (kept : List Version) (v : Version) : List Version :=
  match displace v kept with
  | none => kept
  | some others => others ++ [v]

def reconcile (vs : List Version) : List Version := vs.foldl accept []

@[simp] theorem reconcile_nil : reconcile [] = [] := rfl

@[simp] theorem reconcile_singleton (v : Version) : reconcile [v] = [v] := rfl

theorem displace_eq (v : Version) (kept : List Version) : displace v kept =
    if Covered kept v.vector then none
    else some (kept.filter (fun k => !decide (k.vector ≤ v.vector))) := by
  induction kept with
  | nil => simp [displace]
  | cons k kept ih =>
      rw [displace, VersionVector.compare_eq, ih]
      by_cases hle : v.vector ≤ k.vector <;> by_cases hge : k.vector ≤ v.vector <;>
        by_cases hkept : Covered kept v.vector <;> simp [hle, hge, hkept]

theorem accept_eq (kept : List Version) (v : Version) : accept kept v =
    if Covered kept v.vector then kept
    else kept.filter (fun k => !decide (k.vector ≤ v.vector)) ++ [v] := by
  rw [accept, displace_eq]
  by_cases h : Covered kept v.vector <;> simp [h]

@[simp, grind =] theorem covered_accept {kept : List Version} {v : Version} {w : VersionVector} :
    Covered (accept kept v) w ↔ Covered kept w ∨ w ≤ v.vector := by
  rw [accept_eq]
  split
  · rename_i h
    constructor
    · exact Or.inl
    · rintro (h' | h')
      · exact h'
      · obtain ⟨k, hk, hv⟩ := h
        exact ⟨k, hk, VersionVector.le_trans h' hv⟩
  · constructor
    · rintro ⟨k, hk, hw⟩
      rcases List.mem_append.mp hk with hk | hk
      · exact Or.inl ⟨k, (List.mem_filter.mp hk).1, hw⟩
      · exact Or.inr (List.mem_singleton.mp hk ▸ hw)
    · rintro (⟨k, hk, hw⟩ | hw)
      · by_cases hkv : k.vector ≤ v.vector
        · exact ⟨v, by simp, VersionVector.le_trans hw hkv⟩
        · exact ⟨k, List.mem_append_left _ (List.mem_filter.mpr ⟨hk, by simp [hkv]⟩), hw⟩
      · exact ⟨v, by simp, hw⟩

theorem covered_foldl_accept {vs kept : List Version} {w : VersionVector} :
    Covered (vs.foldl accept kept) w ↔ Covered kept w ∨ Covered vs w := by
  induction vs generalizing kept with
  | nil => simp
  | cons v vs ih => rw [List.foldl_cons, ih, covered_accept, covered_cons, or_assoc]

@[simp, grind =] theorem covered_reconcile {vs : List Version} {w : VersionVector} :
    Covered (reconcile vs) w ↔ Covered vs w := by
  simp [reconcile, covered_foldl_accept]

def mergedVector (vs : List Version) : VersionVector :=
  vs.foldl (fun acc v => acc.merge v.vector) ∅

end Version

end QuorumStore
