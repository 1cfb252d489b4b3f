import QuorumStore.Proofs.Reconciliation

namespace QuorumStore

namespace Version

variable {vs ws : List Version}

theorem known_nil_iff : Known [] ws ↔ ws = [] := by
  simp [Known, List.eq_nil_iff_forall_not_mem]

theorem known_reconcile (vs ws : List Version) : Known (reconcile (vs ++ ws)) ws := by
  refine known_iff_covered.mpr fun w hw => covered_reconcile.mpr ?_
  exact ⟨w, List.mem_append_right vs hw, w.vector.le_refl⟩

theorem undominatedBy_of_known (h : vs.Pairwise Concurrent) (hknown : Known vs ws) :
    undominatedBy ws vs = vs :=
  undominatedBy_eq_self fun _ hv w hw =>
    not_dominates_of_covered h (known_iff_covered.mp hknown w hw) hv

theorem reconcile_append_eq_self_iff :
    reconcile (vs ++ ws) = vs ↔ vs.Pairwise Concurrent ∧ Known vs ws := by
  constructor
  · intro h
    exact ⟨h ▸ pairwise_reconcile (vs ++ ws), h ▸ known_reconcile vs ws⟩
  · rintro ⟨hvs, hknown⟩
    have hnews : (reconcile ws).filter (fun w => decide (¬ Covered vs w.vector)) = [] := by
      refine List.filter_eq_nil_iff.mpr fun w hw => ?_
      simpa using known_iff_covered.mp hknown w (mem_of_mem_reconcile hw)
    rw [reconcile_append, reconcile_of_pairwise hvs, undominatedBy_of_known hvs hknown, hnews,
      List.append_nil]

theorem pairwise_concurrent_iff : vs.Pairwise Concurrent ↔
    vs.Pairwise fun v w => v.vector.compare w.vector = .concurrent :=
  List.Pairwise.iff fun _ _ => VersionVector.compare_eq_concurrent_iff.symm

end Version

open Version (reconcile Known)

namespace Store

variable {s s' : Store} {key : Key} {incoming more : List Version} {outcome : MergeOutcome}

theorem merge_cases (hkey : key ∉ s.damaged) (incoming : List Version) :
    let versions := reconcile (s.held key ++ incoming)
    (versions = s.held key ∧ s.merge key incoming = .ok (⟨versions, false⟩, s)) ∨
      (versions ≠ s.held key ∧ s.merge key incoming =
        .ok (⟨versions, true⟩, { s with engine := s.engine.replace key versions })) := by
  intro versions
  rw [merge, if_neg hkey]
  dsimp only
  split
  · exact .inl ⟨by assumption, rfl⟩
  · exact .inr ⟨by assumption, rfl⟩

theorem versions_merge (h : s.merge key incoming = .ok (outcome, s')) :
    key ∉ s.damaged ∧ outcome.versions = reconcile (s.held key ++ incoming) := by
  by_cases hkey : key ∈ s.damaged
  · rw [merge, if_pos hkey] at h
    cases h
  · rcases merge_cases hkey incoming with ⟨-, hmerge⟩ | ⟨-, hmerge⟩ <;> rw [hmerge] at h <;> cases h
    · exact ⟨hkey, rfl⟩
    · exact ⟨hkey, rfl⟩

theorem known_merged (h : s.merge key incoming = .ok (outcome, s')) : Known outcome.versions incoming :=
  (versions_merge h).2 ▸ Version.known_reconcile (s.held key) incoming

theorem merge_of_known (hkey : key ∉ s.damaged) (hheld : (s.held key).Pairwise Version.Concurrent)
    (hknown : Known (s.held key) incoming) :
    s.merge key incoming = .ok (⟨s.held key, false⟩, s) := by
  have hsame := Version.reconcile_append_eq_self_iff.mpr ⟨hheld, hknown⟩
  rcases merge_cases hkey incoming with ⟨-, hmerge⟩ | ⟨hnews, -⟩
  · rw [hmerge, hsame]
  · exact absurd hsame hnews

theorem merge_of_merged (h : s.merge key incoming = .ok (outcome, s')) (hmore : Known outcome.versions more) :
    s'.merge key more = .ok (⟨outcome.versions, false⟩, s') := by
  obtain ⟨hkey, hversions⟩ := versions_merge h
  have hheld : s'.held key = outcome.versions := by
    simp [(held_merge h key).1, hversions]
  have hapart : (s'.held key).Pairwise Version.Concurrent := by
    rw [hheld, hversions]
    exact Version.pairwise_reconcile _
  rw [← hheld] at hmore ⊢
  exact merge_of_known ((held_merge h key).2 ▸ hkey) hapart hmore

theorem get?_replace_news (hnews : reconcile (s.held key ++ incoming) ≠ s.held key) (k : Key) :
    (s.engine.replace key (reconcile (s.held key ++ incoming))).get? k =
      if k = key then some (reconcile (s.held key ++ incoming)) else s.engine.get? k := by
  have hne : (reconcile (s.held key ++ incoming)).isEmpty = false := by
    refine Bool.eq_false_iff.mpr fun hempty => hnews ?_
    have hnil := List.isEmpty_iff.mp hempty
    have hall : s.held key ++ incoming = [] :=
      List.eq_nil_iff_forall_not_mem.mpr fun v hv => Version.reconcile_ne_nil hv hnil
    rw [hnil, (List.append_eq_nil_iff.mp hall).1]
  simp [hne]

theorem merge_writes_news (s : Store) (key : Key) (incoming : List Version) :
    (key ∈ s.damaged → s.merge key incoming = .error (.corrupt key)) ∧
    (key ∉ s.damaged → ∃ outcome s', s.merge key incoming = .ok (outcome, s') ∧
      (outcome.changed = false ↔
        ((s.held key).Pairwise fun v w => v.vector.compare w.vector = .concurrent) ∧
          Known (s.held key) incoming) ∧
      (s.engine.get? key = none → (outcome.changed = false ↔ incoming = [])) ∧
      (outcome.changed = false → outcome.versions = s.held key ∧ s' = s) ∧
      (outcome.changed = true → s'.engine.get? key = some outcome.versions ∧
        (∀ k, k ≠ key → s'.engine.get? k = s.engine.get? k) ∧
        s'.engine.log = s.engine.log.map (· ++ Log.frame ⟨key, outcome.versions⟩)) ∧
      s'.merge key incoming = .ok (⟨outcome.versions, false⟩, s') ∧
      ∀ more, Known outcome.versions more → s'.merge key more = .ok (⟨outcome.versions, false⟩, s')) := by
  refine ⟨fun hkey => by rw [merge, if_pos hkey], fun hkey => ?_⟩
  have hiff : reconcile (s.held key ++ incoming) = s.held key ↔
      ((s.held key).Pairwise fun v w => v.vector.compare w.vector = .concurrent) ∧
        Known (s.held key) incoming := by
    rw [← Version.pairwise_concurrent_iff]
    exact Version.reconcile_append_eq_self_iff
  have habsent : s.engine.get? key = none →
      (reconcile (s.held key ++ incoming) = s.held key ↔ incoming = []) := by
    intro hnone
    rw [hiff, held, hnone]
    simp [Version.known_nil_iff]
  rcases merge_cases hkey incoming with ⟨hsame, hmerge⟩ | ⟨hnews, hmerge⟩
  · refine ⟨_, _, hmerge, iff_of_true rfl (hiff.mp hsame),
      fun hnone => iff_of_true rfl ((habsent hnone).mp hsame), fun _ => ⟨hsame, rfl⟩,
      (absurd · Bool.false_ne_true), merge_of_merged hmerge (known_merged hmerge),
      fun more => merge_of_merged hmerge⟩
  · refine ⟨_, _, hmerge, iff_of_false Bool.false_ne_true.symm (mt hiff.mpr hnews),
      fun hnone => iff_of_false Bool.false_ne_true.symm (mt (habsent hnone).mpr hnews),
      (absurd · Bool.false_ne_true.symm), fun _ => ⟨?_, fun k hk => ?_, rfl⟩,
      merge_of_merged hmerge (known_merged hmerge), fun more => merge_of_merged hmerge⟩
    · exact (get?_replace_news hnews key).trans (if_pos rfl)
    · exact (get?_replace_news hnews k).trans (if_neg hk)

end Store

namespace Branches

def tangled : Store := ⟨⟨Memtable.empty.replace "k" [base, left], some []⟩, ["d"]⟩

theorem tangled_key_mended :
    ("d" ∈ tangled.damaged ∧ tangled.merge "d" [right] = .error (.corrupt "d")) ∧
    "k" ∉ tangled.damaged ∧ Known [left] [twin, base] ∧
    (tangled.engine.get? "n" = none ∧ ∃ outcome, tangled.merge "n" [] = .ok (outcome, tangled)) ∧
    ∃ outcome s', tangled.merge "k" [base] = .ok (outcome, s') ∧ outcome = ⟨[left], true⟩ ∧
      s'.engine.get? "k" = some [left] ∧ s'.engine.log = some (Log.frame ⟨"k", [left]⟩) ∧
      s'.merge "k" [twin, base] = .ok (⟨[left], false⟩, s') := by
  have hmended : (tangled.merge "k" [base]).toOption.map Prod.fst = some ⟨[left], true⟩ := by
    decide +kernel
  obtain ⟨outcome, s', hmerge, -, -, -, hwritten, -, hmore⟩ :=
    (Store.merge_writes_news tangled "k" [base]).2 (by decide)
  obtain rfl : outcome = ⟨[left], true⟩ := by
    rw [hmerge] at hmended
    exact Option.some.inj hmended
  obtain ⟨hheld, -, hlog⟩ := hwritten rfl
  rw [tangled, Option.map_some, List.nil_append] at hlog
  obtain ⟨nothing, s₀, habsent, -, hnone, hkept, -⟩ :=
    (Store.merge_writes_news tangled "n" []).2 (by decide)
  have hsame := hkept ((hnone (by decide +kernel)).mpr rfl)
  refine ⟨⟨by decide, (Store.merge_writes_news tangled "d" [right]).1 (by decide)⟩, by decide,
    by decide +kernel, ⟨by decide +kernel, nothing, hsame.2 ▸ habsent⟩, ?_⟩
  exact ⟨_, s', hmerge, rfl, hheld, hlog, hmore [twin, base] (by decide +kernel)⟩

end Branches

end QuorumStore
