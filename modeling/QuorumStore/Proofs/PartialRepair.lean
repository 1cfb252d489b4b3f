import QuorumStore.Proofs.MergeNews
import QuorumStore.Proofs.ReadResolution
import QuorumStore.Proofs.SiblingGroups

namespace QuorumStore

namespace Version

variable {vs siblings seen : List Version} {v w : Version}

theorem not_covered_mergedVector (h : vs.Pairwise Concurrent) (hmany : 2 ≤ vs.length) :
    ¬ Covered vs (mergedVector vs) := by
  rintro ⟨k, hk, hle⟩
  have hbelow : ∀ v ∈ vs, v = k := by
    intro v hv
    by_contra hne
    exact (h.forall hv hk hne).1 (VersionVector.le_trans (le_mergedVector hv) hle)
  rcases vs with _ | ⟨v, _ | ⟨w, vs⟩⟩
  · cases hk
  · simp at hmany
  · have hvw : v = w := (hbelow v (by simp)).trans (hbelow w (by simp)).symm
    exact (List.pairwise_cons.mp h).1 w (by simp) |>.1 (hvw ▸ v.vector.le_refl)

theorem mergedVector_dominates (h : vs.Pairwise Concurrent) (hmany : 2 ≤ vs.length) (hv : v ∈ vs) :
    (mergedVector vs).compare v.vector = .dominates :=
  VersionVector.compare_eq_dominates_iff.mpr
    ⟨le_mergedVector hv, fun hle => not_covered_mergedVector h hmany ⟨v, hv, hle⟩⟩

theorem reconcile_eq_singleton (hw : w ∈ seen)
    (habove : ∀ v ∈ seen, v = w ∨ w.vector.compare v.vector = .dominates) : reconcile seen = [w] := by
  have hleft : w ∈ reconcile seen := by
    obtain ⟨k, hk, hwk⟩ := covered_reconcile.mpr ⟨w, hw, w.vector.le_refl⟩
    rcases habove k (mem_of_mem_reconcile hk) with rfl | hdom
    · exact hk
    · exact absurd hwk (VersionVector.compare_eq_dominates_iff.mp hdom).2
  have halone : ∀ v ∈ reconcile seen, v = w := by
    intro v hv
    refine (habove v (mem_of_mem_reconcile hv)).resolve_right ?_
    exact not_below_of_mem_reconcile ⟨w, hw, w.vector.le_refl⟩ hv
  refine List.perm_singleton.mp ((List.perm_ext_iff_of_nodup
    (nodup_of_pairwise_concurrent (pairwise_reconcile seen)) (List.nodup_singleton w)).mpr fun v => ?_)
  rw [List.mem_singleton]
  exact ⟨halone v, fun h => h ▸ hleft⟩

@[simp] theorem resolve_canonical (policy : ConflictPolicy) (vs : List Version) :
    resolve policy (resolve policy vs).canonical = resolve policy vs := by
  rcases resolve_cases policy vs with ⟨hall, -⟩ | ⟨rfl, w, -, hlast⟩
  · rw [hall]
    exact hall
  · rw [hlast]
    exact resolve_singleton .lastWriterWins w

theorem lastWriter_absorbs
    (happart : siblings.Pairwise fun v w => v.vector.compare w.vector = .concurrent)
    (hmany : 2 ≤ siblings.length) :
    ∃ w, lastWriter? siblings = some w ∧ (resolve .lastWriterWins siblings).canonical = [w] ∧
      (∃ v ∈ siblings, w = { v with vector := mergedVector siblings }) ∧
      (∀ v ∈ siblings, w.vector.compare v.vector = .dominates) ∧
      (∀ seen, w ∈ seen → (∀ v ∈ seen, v = w ∨ v ∈ siblings) → reconcile seen = [w] ∧
        ∀ policy, resolve policy (reconcile seen) = resolve .lastWriterWins siblings) ∧
      ∀ (s : Store) (key : Key), key ∉ s.damaged → (∀ v ∈ s.held key, v ∈ siblings) →
        ∃ s', s.merge key [w] = .ok (⟨[w], true⟩, s') ∧ s'.engine.get? key = some [w] := by
  have hconcurrent := pairwise_concurrent_iff.mpr happart
  have hne : siblings ≠ [] := by
    rintro rfl
    cases hmany
  obtain ⟨v, hv⟩ := exists_latest? hne
  have hwinner : lastWriter? siblings = some { v with vector := mergedVector siblings } := by
    rw [lastWriter?, hv]
    rfl
  generalize hw : ({ v with vector := mergedVector siblings } : Version) = w at hwinner
  have hcanonical : (resolve .lastWriterWins siblings).canonical = [w] :=
    hw ▸ canonical_resolve hv hmany
  have habove : ∀ u ∈ siblings, w.vector.compare u.vector = .dominates := fun u hu =>
    lastWriter?_vector hwinner ▸ mergedVector_dominates hconcurrent hmany hu
  have hleft : ∀ seen, w ∈ seen → (∀ u ∈ seen, u = w ∨ u ∈ siblings) → reconcile seen = [w] :=
    fun seen hmem hseen => reconcile_eq_singleton hmem fun u hu => (hseen u hu).imp_right (habove u)
  refine ⟨w, hwinner, hcanonical, ⟨v, (latest?_spec hv).1, hw.symm⟩, habove,
    fun seen hmem hseen => ⟨hleft seen hmem hseen, fun policy => ?_⟩, fun s key hkey hheld => ?_⟩
  · rw [hleft seen hmem hseen, ← resolve_canonical .lastWriterWins siblings, hcanonical,
      resolve_singleton, resolve_singleton]
  · have hmerged : reconcile (s.held key ++ [w]) = [w] := by
      refine hleft _ (by simp) fun u hu => ?_
      rcases List.mem_append.mp hu with hu | hu
      · exact .inr (hheld u hu)
      · exact .inl (List.mem_singleton.mp hu)
    rcases Store.merge_cases hkey [w] with ⟨hsame, -⟩ | ⟨hnews, hmerge⟩
    · -- a store that held the last writer already would hold what is no sibling
      have hmem : w ∈ siblings := by
        refine hheld w ?_
        rw [← hsame, hmerged]
        exact List.mem_singleton_self w
      have hself := habove w hmem
      rw [VersionVector.compare_self] at hself
      cases hself
    · refine ⟨_, by rw [hmerge, hmerged], ?_⟩
      have hget := Store.get?_replace_news hnews key
      rwa [if_pos rfl, hmerged] at hget

end Version

namespace Tied

theorem repaired_replica_prevails :
    ([left, right, removal].Pairwise fun v w => v.vector.compare w.vector = .concurrent) ∧
    2 ≤ [left, right, removal].length ∧
    ∃ w, Version.lastWriter? [left, right, removal] = some w ∧ w = .live [2] context 5 ∧
      Version.reconcile [removal, w, left, w] = [w] ∧
      (∀ policy, (Version.resolve policy (Version.reconcile [removal, w, left, w])).read =
        some (.value w)) ∧
      ∃ s', (Store.ofEngine (Engine.volatile.replace "k" [right, left])).merge "k" [w] =
        .ok (⟨[w], true⟩, s') := by
  have happart : [left, right, removal].Pairwise fun v w => v.vector.compare w.vector = .concurrent := by
    decide +kernel
  obtain ⟨w, hw, -, -, -, hseen, hstore⟩ := Version.lastWriter_absorbs happart (by decide)
  obtain rfl : .live [2] context 5 = w := by
    have hlast : Version.lastWriter? [left, right, removal] = some (.live [2] context 5) := by
      decide +kernel
    exact Option.some.inj (hlast.symm.trans hw)
  obtain ⟨hleft, hread⟩ := hseen [removal, .live [2] context 5, left, .live [2] context 5] (by simp)
    (by simp)
  obtain ⟨s', hmerge, -⟩ := hstore (Store.ofEngine (Engine.volatile.replace "k" [right, left])) "k"
    (by decide) (by decide +kernel)
  refine ⟨happart, by decide, _, hw, rfl, hleft, fun policy => ?_, s', hmerge⟩
  rw [hread policy]
  decide +kernel

end Tied

end QuorumStore
