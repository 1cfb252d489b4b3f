import Mathlib.Data.List.Induction
import QuorumStore.Proofs.Survival

namespace QuorumStore

namespace Version

variable {vs ws : List Version} {v w : Version} {u : VersionVector}

theorem covered_iff_compare : Covered vs u ↔
    ∃ k ∈ vs, u.compare k.vector = .equal ∨ u.compare k.vector = .dominatedBy := by
  refine exists_congr fun k => and_congr_right fun _ => ?_
  rw [VersionVector.compare_eq_equal_iff, VersionVector.compare_eq_dominatedBy_iff]
  tauto

def Known (vs ws : List Version) : Prop :=
  ∀ w ∈ ws, ∃ v ∈ vs, w.vector.compare v.vector = .equal ∨ w.vector.compare v.vector = .dominatedBy

instance (vs ws : List Version) : Decidable (Known vs ws) :=
  inferInstanceAs (Decidable (∀ w ∈ ws, ∃ v ∈ vs, _))

theorem known_iff_covered : Known vs ws ↔ ∀ w ∈ ws, Covered vs w.vector :=
  forall_congr' fun _ => imp_congr_right fun _ => covered_iff_compare.symm

def Leads (vs : List Version) (v : Version) (i : Nat) : Prop :=
  (∀ w ∈ vs, w.vector.compare v.vector ≠ .dominates) ∧
    ∀ w ∈ vs.take i, w.vector.compare v.vector ≠ .equal

instance (vs : List Version) (v : Version) (i : Nat) : Decidable (Leads vs v i) :=
  inferInstanceAs (Decidable (_ ∧ _))

def leaders (vs : List Version) : List Version :=
  (vs.zipIdx.filter fun e => decide (Leads vs e.1 e.2)).map Prod.fst

def undominatedBy (ws vs : List Version) : List Version :=
  vs.filter fun v => decide (∀ w ∈ ws, w.vector.compare v.vector ≠ .dominates)

theorem undominatedBy_append (ws xs vs : List Version) :
    undominatedBy (ws ++ xs) vs = undominatedBy xs (undominatedBy ws vs) := by
  rw [undominatedBy, undominatedBy, undominatedBy, List.filter_filter]
  refine List.filter_congr fun v _ => ?_
  rw [← Bool.decide_and]
  exact decide_eq_decide.mpr (List.forall_mem_append.trans and_comm)

theorem undominatedBy_eq_self (h : ∀ v ∈ vs, ∀ w ∈ ws, w.vector.compare v.vector ≠ .dominates) :
    undominatedBy ws vs = vs :=
  List.filter_eq_self.mpr fun v hv => decide_eq_true (h v hv)

theorem reconcile_concat (vs : List Version) (v : Version) : reconcile (vs ++ [v]) =
    undominatedBy [v] (reconcile vs) ++ if Covered vs v.vector then [] else [v] := by
  have hfold : reconcile (vs ++ [v]) = accept (reconcile vs) v := by
    rw [reconcile, List.foldl_append]
    rfl
  have hcovered : Covered (reconcile vs) v.vector ↔ Covered vs v.vector := covered_reconcile
  rw [hfold, accept_eq]
  by_cases h : Covered vs v.vector
  · rw [if_pos (hcovered.mpr h), if_pos h, List.append_nil]
    refine (undominatedBy_eq_self fun k hk => ?_).symm
    rw [List.forall_mem_singleton]
    exact not_dominates_of_covered (pairwise_reconcile vs) (hcovered.mpr h) hk
  · rw [if_neg (mt hcovered.mp h), if_neg h]
    refine congrArg (· ++ [v]) (List.filter_congr fun k hk => ?_)
    have hvk : ¬ v.vector ≤ k.vector := fun hvk => h ⟨k, mem_of_mem_reconcile hk, hvk⟩
    simp [VersionVector.compare_eq_dominates_iff, hvk]

theorem leads_concat {i : Nat} (hi : i < vs.length) :
    Leads (vs ++ [v]) w i ↔ v.vector.compare w.vector ≠ .dominates ∧ Leads vs w i := by
  simp only [Leads, List.take_append_of_le_length (Nat.le_of_lt hi), List.forall_mem_append,
    List.forall_mem_singleton]
  tauto

theorem leads_last : Leads (vs ++ [v]) v vs.length ↔ ¬ Covered vs v.vector := by
  simp only [Leads, List.take_left, List.forall_mem_append, List.forall_mem_singleton, Covered,
    ne_eq, VersionVector.compare_eq_dominates_iff, VersionVector.compare_eq_equal_iff]
  grind

theorem leaders_concat (vs : List Version) (v : Version) : leaders (vs ++ [v]) =
    undominatedBy [v] (leaders vs) ++ if Covered vs v.vector then [] else [v] := by
  rw [leaders, List.zipIdx_append, List.filter_append, List.map_append]
  congr 1
  · rw [leaders, undominatedBy, List.filter_map, List.filter_filter]
    refine congrArg (List.map Prod.fst) (List.filter_congr fun e he => ?_)
    have hi : e.2 < vs.length := by
      simpa using (List.mem_zipIdx he).2.1
    simp [leads_concat hi]
  · by_cases h : Covered vs v.vector <;> simp [leads_last, h]

theorem reconcile_eq_leaders (vs : List Version) : reconcile vs = leaders vs := by
  induction vs using List.reverseRecOn with
  | nil => rfl
  | append_singleton vs v ih => rw [reconcile_concat, leaders_concat, ih]

theorem reconcile_append (vs ws : List Version) : reconcile (vs ++ ws) =
    undominatedBy ws (reconcile vs) ++ (reconcile ws).filter fun w => decide (¬ Covered vs w.vector) := by
  induction ws using List.reverseRecOn with
  | nil =>
    rw [undominatedBy_eq_self fun _ _ _ hw => absurd hw List.not_mem_nil]
    simp [reconcile_nil]
  | append_singleton ws w ih =>
    have hswap : undominatedBy [w] ((reconcile ws).filter fun k => decide (¬ Covered vs k.vector)) =
        (undominatedBy [w] (reconcile ws)).filter fun k => decide (¬ Covered vs k.vector) := by
      rw [undominatedBy, undominatedBy, List.filter_filter, List.filter_filter]
      exact List.filter_congr fun k _ => Bool.and_comm ..
    have hnews : (if Covered (vs ++ ws) w.vector then [] else [w]) =
        (if Covered ws w.vector then [] else [w]).filter fun k => decide (¬ Covered vs k.vector) := by
      by_cases hvs : Covered vs w.vector <;> by_cases hws : Covered ws w.vector <;>
        simp [covered_append, hvs, hws]
    rw [← List.append_assoc, reconcile_concat, reconcile_concat, ih, undominatedBy_append,
      List.filter_append, ← hswap, ← hnews, ← List.append_assoc]
    exact congrArg (· ++ _) (List.filter_append ..)

theorem reconcile_of_pairwise (h : vs.Pairwise Concurrent) : reconcile vs = vs := by
  induction vs using List.reverseRecOn with
  | nil => rfl
  | append_singleton vs v ih =>
    obtain ⟨hvs, -, hv⟩ := List.pairwise_append.mp h
    have hapart : ∀ k ∈ vs, Concurrent k v := fun k hk => hv k hk v (List.mem_singleton_self v)
    have hnew : ¬ Covered vs v.vector := by
      rintro ⟨k, hk, hle⟩
      exact (hapart k hk).2 hle
    rw [reconcile_concat, ih hvs, if_neg hnew]
    refine congrArg (· ++ [v]) (undominatedBy_eq_self fun k hk => ?_)
    rw [List.forall_mem_singleton]
    exact fun hdom => (hapart k hk).1 (VersionVector.compare_eq_dominates_iff.mp hdom).1

@[simp] theorem reconcile_reconcile (vs : List Version) : reconcile (reconcile vs) = reconcile vs :=
  reconcile_of_pairwise (pairwise_reconcile vs)

theorem reconcile_reconcile_append (vs ws : List Version) :
    reconcile (reconcile vs ++ ws) = reconcile (vs ++ ws) := by
  rw [reconcile_append, reconcile_append, reconcile_reconcile]
  simp only [covered_reconcile]

theorem undominatedBy_reconcile (vs ws : List Version) :
    undominatedBy (reconcile ws) vs = undominatedBy ws vs := by
  refine List.filter_congr fun v _ => decide_eq_decide.mpr ⟨fun h w hw hdom => ?_, fun h w hw => ?_⟩
  · obtain ⟨hvw, hwv⟩ := VersionVector.compare_eq_dominates_iff.mp hdom
    obtain ⟨k, hk, hwk⟩ := covered_reconcile.mpr ⟨w, hw, w.vector.le_refl⟩
    refine h k hk (VersionVector.compare_eq_dominates_iff.mpr ⟨VersionVector.le_trans hvw hwk, ?_⟩)
    exact fun hkv => hwv (VersionVector.le_trans hwk hkv)
  · exact h w (mem_of_mem_reconcile hw)

theorem reconcile_append_reconcile (vs ws : List Version) :
    reconcile (vs ++ reconcile ws) = reconcile (vs ++ ws) := by
  rw [reconcile_append, reconcile_append, reconcile_reconcile, undominatedBy_reconcile]

theorem reconcile_exact (vs ws : List Version) :
    reconcile vs = leaders vs ∧
      reconcile (reconcile vs ++ ws) = reconcile (vs ++ ws) ∧
      reconcile (vs ++ reconcile ws) = reconcile (vs ++ ws) ∧
      reconcile (reconcile vs) = reconcile vs ∧
      Known (reconcile vs) vs := by
  refine ⟨reconcile_eq_leaders vs, reconcile_reconcile_append vs ws, reconcile_append_reconcile vs ws,
    reconcile_reconcile vs, known_iff_covered.mpr fun v hv => ?_⟩
  exact covered_reconcile.mpr ⟨v, hv, v.vector.le_refl⟩

end Version

namespace Branches

def base : Version := .live [1] (.ofEntries [("A", 1)]) 0

def left : Version := .live [2] (.ofEntries [("A", 2), ("B", 1)]) 0

def right : Version := .live [3] (.ofEntries [("A", 1), ("B", 2)]) 0

def twin : Version := .live [4] ⟨⟨[("A", 2), ("B", 1), ("C", 0)], by decide⟩⟩ 0

theorem first_of_equals_left :
    Version.reconcile [base, left, right, twin] = [left, right] ∧ base ∈ [base, left, right, twin] ∧
      ∃ k ∈ Version.reconcile [base, left, right, twin],
        base.vector.compare k.vector = .equal ∨ base.vector.compare k.vector = .dominatedBy := by
  obtain ⟨hleaders, -, -, -, hcovers⟩ := Version.reconcile_exact [base, left, right, twin] []
  exact ⟨hleaders.trans (by decide +kernel), by decide, hcovers base (by decide)⟩

end Branches

end QuorumStore
