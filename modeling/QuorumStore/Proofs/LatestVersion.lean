import QuorumStore.Proofs.Survival

namespace QuorumStore

namespace VersionVector

def compareEntry : NodeId × UInt64 → NodeId × UInt64 → Ordering :=
  compareLex (compareOn Prod.fst) (compareOn Prod.snd)

instance : Std.TransCmp compareEntry :=
  inferInstanceAs (Std.TransCmp (compareLex (compareOn Prod.fst) (compareOn Prod.snd)))

instance : Std.LawfulEqCmp compareEntry where
  compare_self := Std.ReflCmp.compare_self
  eq_of_compare {e f} h := by
    obtain ⟨hnode, hcounter⟩ := Ordering.then_eq_eq.mp h
    exact Prod.ext (Std.LawfulEqCmp.eq_of_compare hnode) (Std.LawfulEqCmp.eq_of_compare hcounter)

theorem compareEntries_eq (l m : List (NodeId × UInt64)) :
    compareEntries l m = List.compareLex compareEntry l m := by
  induction l generalizing m with
  | nil => cases m <;> rfl
  | cons e l ih =>
    cases m with
    | nil => rfl
    | cons f m =>
      rw [compareEntries, ih, List.compareLex_cons_cons]
      rfl

instance : Std.TransCmp compareCanonical where
  eq_swap := by
    simp only [compareCanonical, compareEntries_eq]
    exact Std.OrientedCmp.eq_swap
  isLE_trans := by
    simp only [compareCanonical, compareEntries_eq]
    exact Std.TransCmp.isLE_trans

theorem eq_of_compareCanonical {v w : VersionVector} (h : v.compareCanonical w = .eq) : v = w := by
  rw [compareCanonical, compareEntries_eq] at h
  have hentries : v.counters.entries = w.counters.entries := Std.LawfulEqCmp.eq_of_compare h
  cases v
  cases w
  exact congrArg mk (SortedMap.ext_entries hentries)

end VersionVector

namespace Version

instance : Std.TransCmp (fun v w : Version => v.vector.compareCanonical w.vector) where
  eq_swap := Std.OrientedCmp.eq_swap
  isLE_trans := Std.TransCmp.isLE_trans

instance : Std.TransCmp compareAge :=
  inferInstanceAs (Std.TransCmp (compareLex (compareOn timestamp)
    (fun v w : Version => v.vector.compareCanonical w.vector)))

variable {vs ws : List Version} {v w g : Version}

theorem vector_eq_of_compareAge (h : v.compareAge w = .eq) : v.vector = w.vector :=
  VersionVector.eq_of_compareCanonical (Ordering.then_eq_eq.mp h).2

theorem latest?_spec (h : latest? vs = some g) : g ∈ vs ∧ ∀ v ∈ vs, (v.compareAge g).isLE := by
  have hfold : ∀ (vs : List Version) (best : Version),
      vs.foldl (fun best w => if best.compareAge w = .gt then best else w) best ∈ best :: vs ∧
        ∀ v ∈ best :: vs, (v.compareAge
          (vs.foldl (fun best w => if best.compareAge w = .gt then best else w) best)).isLE := by
    intro vs
    induction vs with
    | nil => simp [Std.ReflCmp.compare_self]
    | cons w vs ih =>
      intro best
      rw [List.foldl_cons]
      split
      · rename_i hgt
        obtain ⟨hmem, hmax⟩ := ih best
        simp only [List.forall_mem_cons] at hmax ⊢
        have hw : (w.compareAge best).isLE := by
          rw [Std.OrientedCmp.gt_iff_lt.mp hgt]
          rfl
        exact ⟨by grind, hmax.1, Std.TransCmp.isLE_trans hw hmax.1, hmax.2⟩
      · rename_i hgt
        obtain ⟨hmem, hmax⟩ := ih w
        simp only [List.forall_mem_cons] at hmax ⊢
        have hbest : (best.compareAge w).isLE := Ordering.ne_gt_iff_isLE.mp hgt
        exact ⟨by grind, Std.TransCmp.isLE_trans hbest hmax.1, hmax.1, hmax.2⟩
  cases vs with
  | nil => cases h
  | cons v vs =>
    cases h
    exact hfold vs v

theorem exists_latest? (h : vs ≠ []) : ∃ g, latest? vs = some g := by
  cases vs with
  | nil => exact absurd rfl h
  | cons v vs => exact ⟨_, rfl⟩

theorem eq_of_not_concurrent (h : vs.Pairwise Concurrent) (hv : v ∈ vs) (hw : w ∈ vs)
    (hvw : v.vector ≤ w.vector) : v = w := by
  by_contra hne
  exact (h.forall hv hw hne).1 hvw

theorem latest?_eq_some_iff (h : vs.Pairwise Concurrent) :
    latest? vs = some g ↔ g ∈ vs ∧ ∀ v ∈ vs, v = g ∨ v.compareAge g = .lt := by
  have heq : ∀ v ∈ vs, ∀ w ∈ vs, v.compareAge w = .eq → v = w := fun v hv w hw hvw =>
    eq_of_not_concurrent h hv hw (vector_eq_of_compareAge hvw ▸ v.vector.le_refl)
  constructor
  · intro hg
    obtain ⟨hmem, hmax⟩ := latest?_spec hg
    refine ⟨hmem, fun v hv => ?_⟩
    rcases Ordering.isLE_iff_eq_lt_or_eq_eq.mp (hmax v hv) with hlt | hvg
    · exact .inr hlt
    · exact .inl (heq v hv g hmem hvg)
  · rintro ⟨hmem, hmax⟩
    obtain ⟨k, hk⟩ := exists_latest? (List.ne_nil_of_mem hmem)
    obtain ⟨hkmem, hkmax⟩ := latest?_spec hk
    rcases hmax k hkmem with rfl | hlt
    · exact hk
    · have hgk := hkmax g hmem
      rw [Std.OrientedCmp.gt_iff_lt.mpr hlt] at hgk
      cases hgk

theorem latest?_perm (h : vs.Pairwise Concurrent) (hperm : vs.Perm ws) : latest? vs = latest? ws := by
  have h' : ws.Pairwise Concurrent := (hperm.pairwise_iff fun h => ⟨h.2, h.1⟩).mp h
  cases hg : latest? ws with
  | none =>
    cases ws with
    | nil => rw [hperm.eq_nil]; rfl
    | cons w ws => cases hg
  | some g =>
    rw [latest?_eq_some_iff h'] at hg
    rw [latest?_eq_some_iff h]
    simpa only [hperm.mem_iff] using hg

end Version

end QuorumStore
