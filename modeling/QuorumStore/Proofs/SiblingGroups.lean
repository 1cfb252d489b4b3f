import Mathlib.Data.List.Nodup
import QuorumStore.Proofs.Convergence
import QuorumStore.Proofs.LatestVersion

namespace QuorumStore

namespace Version

def content (v : Version) : Bytes × UInt64 × Bool := (v.value, v.timestamp, v.tombstone)

end Version

def Resolution.contents (r : Resolution) :
    Option (List (Bytes × UInt64 × Bool)) × List (Bytes × UInt64 × Bool) :=
  (r.read.map (·.versions.map Version.content), r.canonical.map Version.content)

namespace Version

variable {vs ws whole part rest l : List Version} {v w g : Version}

theorem canonical_resolve (h : latest? vs = some g) (hmany : 2 ≤ vs.length) :
    (resolve .lastWriterWins vs).canonical = [{ g with vector := mergedVector vs }] := by
  rw [resolve, if_neg (by omega), lastWriter?, h]
  rfl

theorem contents_resolve (h : latest? vs = some g) : (resolve .lastWriterWins vs).contents =
    (if g.tombstone then none else some [g.content], [g.content]) := by
  rcases vs with _ | ⟨v, _ | ⟨w, vs⟩⟩
  · cases h
  · cases h
    cases htombstone : v.tombstone <;>
      simp [resolve, readSiblings, Resolution.contents, Read.versions, htombstone, content]
  · simp only [resolve, lastWriter?, h]
    cases htombstone : g.tombstone <;>
      simp [Resolution.contents, Read.versions, htombstone, content]

theorem contents_resolve_eq_iff (hv : latest? vs = some v) (hw : latest? ws = some w) :
    (resolve .lastWriterWins vs).contents = (resolve .lastWriterWins ws).contents ↔
      v.content = w.content := by
  rw [contents_resolve hv, contents_resolve hw]
  constructor
  · intro h
    simpa using congrArg Prod.snd h
  · intro h
    have htombstone : v.tombstone = w.tombstone := congrArg (·.2.2) h
    rw [h, htombstone]

theorem mem_reconcile_group (happart : (part ++ rest).Pairwise Concurrent) (hpart : part ≠ [])
    (hw : w.vector = mergedVector part) (hl : l.Perm (w :: rest)) :
    v ∈ reconcile l ↔ v = w ∨ v ∈ rest ∧ ¬ v.vector ≤ w.vector := by
  obtain ⟨t, ht⟩ := List.exists_mem_of_ne_nil part hpart
  obtain ⟨-, hrest, hacross⟩ := List.pairwise_append.mp happart
  have hbelow : ∀ r ∈ rest, ¬ w.vector ≤ r.vector := fun r hr hle =>
    (hacross t ht r hr).1 (VersionVector.le_trans (hw ▸ le_mergedVector ht) hle)
  have hmem : ∀ u, u ∈ l ↔ u = w ∨ u ∈ rest := by
    intro u
    rw [hl.mem_iff, List.mem_cons]
  have hident : ∀ u ∈ l, ∀ u' ∈ l, u.vector.compare u'.vector = .equal → u = u' := by
    intro u hu u' hu' hequal
    obtain ⟨hle, hle'⟩ := VersionVector.compare_eq_equal_iff.mp hequal
    rcases (hmem u).mp hu with rfl | hu <;> rcases (hmem u').mp hu' with rfl | hu'
    · rfl
    · exact absurd hle' (hbelow u' hu')
    · exact absurd hle (hbelow u hu)
    · exact eq_of_not_concurrent hrest hu hu' hle'
  have hsummary : Summary l (reconcile l) := Summary.nil.reconcile l
  rw [hsummary.mem_iff hident, mem_maximal_iff, hmem]
  simp only [hmem, forall_eq_or_imp, ne_eq, VersionVector.compare_eq_dominates_iff]
  constructor
  · rintro ⟨rfl | hv, hnot, -⟩
    · exact .inl rfl
    · exact .inr ⟨hv, fun hle => hnot ⟨hle, hbelow v hv⟩⟩
  · rintro (rfl | ⟨hv, hle⟩)
    · exact ⟨.inl rfl, fun h => h.2 h.1, fun u hu h => hbelow u hu h.1⟩
    · refine ⟨.inr hv, fun h => hle h.1, fun u hu h => ?_⟩
      obtain rfl := eq_of_not_concurrent hrest hv hu h.1
      exact h.2 h.1

def Upheld (part rest : List Version) : Prop :=
  ∀ w ∈ lastWriter? part, ∀ g ∈ latest? (part ++ rest),
    (g ∈ part → ∀ r ∈ rest, r.vector ≤ w.vector ∨ r.compareAge w = .lt) ∧
      (g ∈ rest → ¬ g.vector ≤ w.vector ∧ w.compareAge g = .lt)

theorem exists_latest?_of_upheld (happart : (part ++ rest).Pairwise Concurrent)
    (hupheld : Upheld part rest) (hw : latest? part = some w) (hg : latest? (part ++ rest) = some g)
    (hl : l.Perm ({ w with vector := mergedVector part } :: rest)) :
    ∃ p, latest? (reconcile l) = some p ∧ p.content = g.content := by
  have hlast : lastWriter? part = some { w with vector := mergedVector part } := by
    rw [lastWriter?, hw]
    rfl
  obtain ⟨hpart, hrest⟩ := hupheld _ hlast g hg
  obtain ⟨hgmem, hgmax⟩ := (latest?_eq_some_iff happart).mp hg
  have hsurvives : ∀ v, v ∈ reconcile l ↔ _ := fun v =>
    mem_reconcile_group (v := v) happart (List.ne_nil_of_mem (latest?_spec hw).1) rfl hl
  simp only [latest?_eq_some_iff (pairwise_reconcile l)]
  rcases List.mem_append.mp hgmem with hmem | hmem
  · -- the latest of all is the latest of the part
    obtain rfl : w = g := by
      have hlatest : latest? part = some g := (latest?_eq_some_iff (List.pairwise_append.mp happart).1).mpr
        ⟨hmem, fun v hv => hgmax v (List.mem_append_left _ hv)⟩
      rw [hw] at hlatest
      exact Option.some.inj hlatest
    refine ⟨_, ⟨(hsurvives _).mpr (.inl rfl), fun v hv => ?_⟩, rfl⟩
    exact ((hsurvives v).mp hv).imp_right fun ⟨hv, hle⟩ => (hpart hmem v hv).resolve_left hle
  · obtain ⟨huncovered, hlater⟩ := hrest hmem
    refine ⟨g, ⟨(hsurvives g).mpr (.inr ⟨hmem, huncovered⟩), fun v hv => ?_⟩, rfl⟩
    rcases (hsurvives v).mp hv with rfl | ⟨hv, -⟩
    · exact .inr hlater
    · exact hgmax v (List.mem_append_right _ hv)

theorem upheld_of_content_eq (happart : (part ++ rest).Pairwise Concurrent)
    (hdistinct : ((part ++ rest).map content).Nodup) (hw : latest? part = some w)
    (hg : latest? (part ++ rest) = some g)
    (hl : l.Perm ({ w with vector := mergedVector part } :: rest)) {p : Version}
    (hp : latest? (reconcile l) = some p) (hcontent : p.content = g.content) : Upheld part rest := by
  have hwmem := List.mem_append_left rest (latest?_spec hw).1
  have hgmem := (latest?_spec hg).1
  obtain ⟨hpmem, hpmax⟩ := (latest?_eq_some_iff (pairwise_reconcile l)).mp hp
  have hinjective := List.inj_on_of_nodup_map hdistinct
  have hdisjoint := (List.nodup_append.mp (nodup_of_pairwise_concurrent happart)).2.2
  have hsurvives : ∀ v, v ∈ reconcile l ↔ _ := fun v =>
    mem_reconcile_group (v := v) happart (List.ne_nil_of_mem (latest?_spec hw).1) rfl hl
  intro w' hw' g' hg'
  obtain rfl : g = g' := Option.some.inj (hg.symm.trans hg')
  obtain rfl : { w with vector := mergedVector part } = w' := by
    rw [lastWriter?, hw] at hw'
    exact Option.some.inj hw'
  rcases (hsurvives p).mp hpmem with rfl | ⟨hmem, huncovered⟩
  · obtain rfl : w = g := hinjective hwmem hgmem hcontent
    refine ⟨fun _ r hr => ?_, fun hmem => absurd rfl (hdisjoint w (latest?_spec hw).1 w hmem)⟩
    by_cases hle : r.vector ≤ mergedVector part
    · exact .inl hle
    · refine .inr ((hpmax r ((hsurvives r).mpr (.inr ⟨hr, hle⟩))).resolve_left ?_)
      rintro rfl
      exact hle (VersionVector.le_refl _)
  · obtain rfl : p = g := hinjective (List.mem_append_right _ hmem) hgmem hcontent
    refine ⟨fun hpart => absurd rfl (hdisjoint p hpart p hmem), fun _ => ⟨huncovered, ?_⟩⟩
    refine (hpmax _ ((hsurvives _).mpr (.inl rfl))).resolve_left ?_
    rintro rfl
    exact huncovered (VersionVector.le_refl _)

theorem resolve_by_groups (hperm : whole.Perm (part ++ rest))
    (happart : whole.Pairwise fun v w => v.vector.compare w.vector = .concurrent) (hmany : 2 ≤ part.length)
    (hl : l.Perm ((resolve .lastWriterWins part).canonical ++ rest)) :
    let grouped := resolve .lastWriterWins (reconcile l)
    let atOnce := resolve .lastWriterWins whole
    (Upheld part rest → grouped.contents = atOnce.contents) ∧
      ((whole.map content).Nodup → grouped.contents = atOnce.contents → Upheld part rest) := by
  intro grouped atOnce
  have hwhole : whole.Pairwise Concurrent := happart.imp VersionVector.compare_eq_concurrent_iff.mp
  have hboth : (part ++ rest).Pairwise Concurrent :=
    (hperm.pairwise_iff fun h => ⟨h.2, h.1⟩).mp hwhole
  have hpart : part ≠ [] := by
    rintro rfl
    cases hmany
  obtain ⟨w, hw⟩ := exists_latest? hpart
  obtain ⟨g, hg⟩ := exists_latest? (List.append_ne_nil_of_left_ne_nil hpart rest)
  have hatOnce : latest? whole = some g := (latest?_perm hwhole hperm).trans hg
  rw [canonical_resolve hw hmany] at hl
  constructor
  · intro hupheld
    obtain ⟨p, hp, hcontent⟩ := exists_latest?_of_upheld hboth hupheld hw hg hl
    exact (contents_resolve_eq_iff hp hatOnce).mpr hcontent
  · intro hdistinct hsame
    have hne : reconcile l ≠ [] := by
      refine List.ne_nil_of_mem ((mem_reconcile_group hboth hpart rfl hl).mpr (.inl rfl))
    obtain ⟨p, hp⟩ := exists_latest? hne
    exact upheld_of_content_eq hboth ((hperm.map content).nodup_iff.mp hdistinct) hw hg hl hp
      ((contents_resolve_eq_iff hp hatOnce).mp hsame)

end Version

namespace Siblings

def left : Version := .live [1] (.ofEntries [("A", 2)]) 1

def right : Version := .live [2] (.ofEntries [("B", 2)]) 2

def between : Version := .live [3] (.ofEntries [("A", 1), ("B", 1)]) 3

def apart : Version := .deletion (.ofEntries [("C", 1)]) 3

def twin (value : Bytes) (n : NodeId) : Version := .live value (.ofEntries [(n, 1)]) 1

theorem later_removal_upheld :
    (Version.resolve .lastWriterWins (Version.reconcile
        [apart, .live [2] (.ofEntries [("A", 2), ("B", 2)]) 2])).contents =
      (Version.resolve .lastWriterWins [left, apart, right]).contents := by
  have hupheld : Version.Upheld [left, right] [apart] := by
    intro w hw g hg
    obtain rfl : .live [2] (.ofEntries [("A", 2), ("B", 2)]) 2 = w := Option.some.inj hw
    obtain rfl : apart = g := Option.some.inj hg
    decide +kernel
  exact (Version.resolve_by_groups (by decide +kernel) (by decide +kernel) (by decide)
    (by decide +kernel)).1 hupheld

theorem grouping_changes_winner :
    ([left, right, between].Pairwise fun v w => v.vector.compare w.vector = .concurrent) ∧
      (Version.resolve .lastWriterWins (Version.reconcile
        ((Version.resolve .lastWriterWins [left, right]).canonical ++ [between]))).contents ≠
          (Version.resolve .lastWriterWins [left, right, between]).contents ∧
    ([twin [1] "A", twin [2] "B", twin [3] "AA"].Pairwise fun v w =>
      v.vector.compare w.vector = .concurrent) ∧
      (Version.resolve .lastWriterWins (Version.reconcile
        ((Version.resolve .lastWriterWins [twin [1] "A", twin [2] "B"]).canonical ++
          [twin [3] "AA"]))).contents ≠
        (Version.resolve .lastWriterWins [twin [1] "A", twin [2] "B", twin [3] "AA"]).contents := by
  refine ⟨by decide +kernel, ?_, by decide +kernel, ?_⟩
  · decide +kernel
  · decide +kernel

end Siblings

end QuorumStore
