import Mathlib.Data.List.Nodup
import Mathlib.Data.List.Perm.Subperm
import QuorumStore.Proofs.Survival

namespace QuorumStore

namespace Version

variable {held canonical : List Version}

theorem differs_eq_false_iff :
    differs held canonical = false ↔
      held.length = canonical.length ∧ ∀ v ∈ canonical, ∃ w ∈ held, w.vector = v.vector := by
  simp [differs]

theorem nodup_vectors (h : held.Pairwise Concurrent) : (held.map vector).Nodup := by
  apply List.pairwise_map.mpr
  apply h.imp
  intro v w hvw heq
  exact hvw.1 (heq ▸ v.vector.le_refl)

theorem not_differs_of_perm_vectors (h : (held.map vector).Perm (canonical.map vector)) :
    differs held canonical = false := by
  refine differs_eq_false_iff.mpr ⟨by simpa using h.length_eq, fun v hv => ?_⟩
  exact List.mem_map.mp (h.mem_iff.mpr (List.mem_map_of_mem hv))

theorem not_differs_of_perm (h : held.Perm canonical) : differs held canonical = false :=
  not_differs_of_perm_vectors (h.map vector)

theorem differs_eq_false_iff_perm (hcanonical : (canonical.map vector).Nodup) :
    differs held canonical = false ↔ (held.map vector).Perm (canonical.map vector) := by
  refine ⟨fun h => ?_, not_differs_of_perm_vectors⟩
  obtain ⟨hlength, hfound⟩ := differs_eq_false_iff.mp h
  have hsubset : canonical.map vector ⊆ held.map vector := by
    intro w hw
    obtain ⟨v, hv, rfl⟩ := List.mem_map.mp hw
    obtain ⟨u, hu, huv⟩ := hfound v hv
    exact List.mem_map.mpr ⟨u, hu, huv⟩
  have hsubperm := List.subperm_of_subset hcanonical hsubset
  exact (hsubperm.perm_of_length_le (by simp [hlength])).symm

theorem differs_exact (hheld : (held.map vector).Nodup) (hcanonical : (canonical.map vector).Nodup) :
    (differs held canonical = false ↔ ∀ w, w ∈ held.map vector ↔ w ∈ canonical.map vector) ∧
      differs canonical held = differs held canonical ∧
      ∀ held' canonical' : List Version, held'.Perm held → canonical'.Perm canonical →
        differs held' canonical' = differs held canonical := by
  have hperm : differs held canonical = false ↔ (held.map vector).Perm (canonical.map vector) :=
    differs_eq_false_iff_perm hcanonical
  refine ⟨hperm.trans (List.perm_ext_iff_of_nodup hheld hcanonical), ?_, fun held' canonical' hh hc => ?_⟩
  · have hswap : differs canonical held = false ↔ differs held canonical = false := by
      rw [hperm, differs_eq_false_iff_perm hheld]
      exact List.perm_comm
    exact Bool.eq_iff_iff.mpr (by simpa using not_congr hswap)
  · have hnodup : (canonical'.map vector).Nodup := (hc.map vector).nodup_iff.mpr hcanonical
    have hmoved : differs held' canonical' = false ↔ differs held canonical = false := by
      rw [hperm, differs_eq_false_iff_perm hnodup]
      exact ((hh.map vector).congr_left _).trans ((hc.map vector).congr_right _)
    exact Bool.eq_iff_iff.mpr (by simpa using not_congr hmoved)

end Version

namespace Padded

open Version

def left : Version := .live [1] (.ofEntries [("A", 1)]) 10

def right : Version := .live [2] (.ofEntries [("B", 1)]) 20

def padded : Version := .live [2] ⟨SortedMap.ofList [("B", 1), ("C", 0)]⟩ 20

theorem zero_entry_makes_stale :
    ([left, right].map vector).Nodup ∧ ([padded, left].map vector).Nodup ∧
      padded.vector.compare right.vector = .equal ∧ differs [left, right] [padded, left] = true ∧
      differs [padded, left] [left, right] = true ∧ differs [right, left] [left, right] = false := by
  have hsiblings : ([left, right].map vector).Nodup := by decide +kernel
  have hpadded : ([padded, left].map vector).Nodup := by decide +kernel
  obtain ⟨hiff, hswap, -⟩ := differs_exact hsiblings hpadded
  have hstale : differs [left, right] [padded, left] = true := by
    refine eq_true_of_ne_false fun h => ?_
    have hnone : padded.vector ∉ [left, right].map vector := by decide +kernel
    exact hnone ((hiff.mp h padded.vector).mpr (by simp))
  obtain ⟨hsame, -, hreorder⟩ := differs_exact hsiblings hsiblings
  refine ⟨hsiblings, hpadded, by decide +kernel, hstale, hswap.trans hstale, ?_⟩
  rw [hreorder [right, left] [left, right] (.swap ..) (.refl _)]
  exact hsame.mpr fun _ => .rfl

example : differs [left, right] [left, left] = false ∧ differs [left, left] [left, right] = true := by
  decide +kernel

end Padded

end QuorumStore
