import QuorumStore.Proofs.Convergence
import QuorumStore.Proofs.LatestVersion
import QuorumStore.Proofs.Reconciliation
import QuorumStore.Proofs.VectorLattice

namespace QuorumStore

namespace Read

def Exposes (shown : List Version) : Read → Prop
  | .value v => ∃ u, (∀ w, w ∈ shown ↔ w = u) ∧ v = { u with vector := v.vector }
  | .conflict siblings _ => 2 ≤ siblings.length ∧ siblings.Nodup ∧ ∀ w, w ∈ siblings ↔ w ∈ shown

def Reordered : Read → Read → Prop
  | .value v, .value w => v = w
  | .conflict siblings context, .conflict siblings' context' => siblings.Perm siblings' ∧ context = context'
  | _, _ => False

theorem Reordered.refl (r : Read) : r.Reordered r := by
  cases r with
  | value v => rfl
  | conflict siblings context => exact ⟨.refl _, rfl⟩

theorem Exposes.of_same {shown shown' : List Version} {r : Read} (h : r.Exposes shown)
    (hsame : ∀ v, v ∈ shown ↔ v ∈ shown') : r.Exposes shown' := by
  cases r with
  | value v =>
    obtain ⟨u, hu, hv⟩ := h
    exact ⟨u, fun w => (hsame w).symm.trans (hu w), hv⟩
  | conflict siblings context =>
    obtain ⟨hmany, hnodup, hmem⟩ := h
    exact ⟨hmany, hnodup, fun w => (hmem w).trans (hsame w)⟩

end Read

def Resolution.Reordered (r r' : Resolution) : Prop :=
  Option.Rel Read.Reordered r.read r'.read ∧ r.canonical.Perm r'.canonical

namespace Version

variable {policy : ConflictPolicy} {vs ws : List Version} {v w g : Version} {u : VersionVector}

def vectors (vs : List Version) : Set VersionVector := { u | ∃ v ∈ vs, v.vector = u }

theorem mergedVector_le (h : ∀ v ∈ vs, v.vector ≤ u) : mergedVector vs ≤ u := by
  have hfold : ∀ (vs : List Version) (acc : VersionVector), acc ≤ u → (∀ v ∈ vs, v.vector ≤ u) →
      vs.foldl (fun acc v => acc.merge v.vector) acc ≤ u := by
    intro vs
    induction vs with
    | nil => exact fun _ hacc _ => hacc
    | cons v vs ih =>
      intro acc hacc h
      obtain ⟨hv, hvs⟩ := List.forall_mem_cons.mp h
      exact ih _ (VersionVector.merge_le hacc hv) hvs
  exact hfold vs ∅ (fun n => UInt64.le_iff_toNat_le.mpr (Nat.zero_le _)) h

theorem isLUB_mergedVector (vs : List Version) : IsLUB (vectors vs) (mergedVector vs) := by
  constructor
  · rintro u ⟨v, hv, rfl⟩
    exact le_mergedVector hv
  · intro u hu
    exact mergedVector_le fun v hv => hu ⟨v, hv, rfl⟩

theorem upperBounds_reconcile (vs : List Version) :
    upperBounds (vectors (reconcile vs)) = upperBounds (vectors vs) := by
  ext u
  constructor
  · rintro hu - ⟨v, hv, rfl⟩
    obtain ⟨k, hk, hvk⟩ := covered_reconcile.mpr ⟨v, hv, v.vector.le_refl⟩
    exact VersionVector.le_trans hvk (hu ⟨k, hk, rfl⟩)
  · rintro hu - ⟨v, hv, rfl⟩
    exact hu ⟨v, mem_of_mem_reconcile hv, rfl⟩

theorem isLUB_reconcile (vs : List Version) : IsLUB (vectors vs) (mergedVector (reconcile vs)) := by
  rw [IsLUB, ← upperBounds_reconcile]
  exact isLUB_mergedVector (reconcile vs)

theorem mergedVector_perm (h : vs.Perm ws) : mergedVector vs = mergedVector ws :=
  h.foldl_eq' (fun _ _ _ _ _ => VersionVector.merge_right_comm ..) ∅

theorem exposes_readSiblings {r : Read} (hnodup : vs.Nodup) (h : readSiblings vs = some r) :
    r.Exposes (shown vs) := by
  rcases readSiblings_eq_some h with ⟨v, hv, rfl⟩ | ⟨hmany, rfl⟩
  · exact ⟨v, fun w => hv ▸ List.mem_singleton, rfl⟩
  · exact ⟨hmany, hnodup.filter _, fun w => Iff.rfl⟩

theorem readSiblings_perm (h : vs.Perm ws) :
    Option.Rel Read.Reordered (readSiblings vs) (readSiblings ws) := by
  have hlive := h.filter fun v => !v.tombstone
  rw [readSiblings, readSiblings, mergedVector_perm h]
  generalize vs.filter (fun v => !v.tombstone) = live at hlive ⊢
  generalize ws.filter (fun v => !v.tombstone) = live' at hlive ⊢
  rcases live with _ | ⟨v, _ | ⟨w, live⟩⟩
  · obtain rfl := hlive.nil_eq
    exact .none
  · obtain rfl := List.singleton_perm.mp hlive
    exact .some rfl
  · rcases live' with _ | ⟨v', _ | ⟨w', live'⟩⟩
    · exact absurd hlive.length_eq (Nat.succ_ne_zero _)
    · exact absurd hlive.length_eq (by simp)
    · exact .some ⟨hlive, rfl⟩

theorem mergedVector_canonical (policy : ConflictPolicy) (vs : List Version) :
    mergedVector (resolve policy vs).canonical = mergedVector vs := by
  rcases resolve_cases policy vs with ⟨hall, -⟩ | ⟨-, w, hw, hlast⟩
  · rw [hall]
  · rw [hlast, ← lastWriter?_vector hw]
    exact VersionVector.empty_merge w.vector

theorem covered_canonical (policy : ConflictPolicy) (h : Covered vs u) :
    Covered (resolve policy vs).canonical u := by
  rcases resolve_cases policy vs with ⟨hall, -⟩ | ⟨-, w, hw, hlast⟩
  · rwa [hall]
  · rw [hlast]
    exact ⟨w, List.mem_singleton_self w, lastWriter?_vector hw ▸ le_mergedVector_of_covered h⟩

theorem isConflict_of_few {r : Read} (hfew : vs.length ≤ 1) (h : readSiblings vs = some r) :
    r.isConflict = false := by
  rcases readSiblings_eq_some h with ⟨v, -, rfl⟩ | ⟨hmany, -⟩
  · rfl
  · have hshown : (shown vs).length ≤ vs.length := List.length_filter_le ..
    exact absurd (hmany.trans (hshown.trans hfew)) (by decide)

theorem isConflict_lastWriterWins {r : Read} (h : (resolve .lastWriterWins vs).read = some r) :
    r.isConflict = false := by
  rcases resolve_cases .lastWriterWins vs with ⟨hall, hpolicy | hfew⟩ | ⟨-, w, -, hlast⟩
  · cases hpolicy
  · rw [hall] at h
    exact isConflict_of_few hfew h
  · rw [hlast] at h
    dsimp only at h
    split at h <;> cases h
    rfl

theorem resolve_lastWriterWins_perm (hvs : vs.Pairwise Concurrent) (h : vs.Perm ws) :
    resolve .lastWriterWins vs = resolve .lastWriterWins ws := by
  by_cases hfew : vs.length ≤ 1
  · rcases vs with _ | ⟨v, _ | ⟨w, vs⟩⟩
    · obtain rfl := h.nil_eq
      rfl
    · obtain rfl := List.singleton_perm.mp h
      rfl
    · simp at hfew
  · rw [resolve, resolve, if_neg hfew, if_neg (h.length_eq ▸ hfew), lastWriter?, lastWriter?,
      latest?_perm hvs h, mergedVector_perm h]

theorem reconcile_perm_of_same (hsame : ∀ v, v ∈ vs ↔ v ∈ ws)
    (hident : ∀ v ∈ vs, ∀ w ∈ vs, v.vector.compare w.vector = .equal → v = w) :
    (reconcile vs).Perm (reconcile ws) := by
  refine perm_of_covered (pairwise_reconcile vs) (pairwise_reconcile ws) (fun u => ?_) fun v hv w hw => ?_
  · rw [covered_reconcile, covered_reconcile]
    simp only [Covered, hsame]
  · exact hident v (mem_of_mem_reconcile hv) w ((hsame w).mpr (mem_of_mem_reconcile hw))

theorem reconcile_perm (h : vs.Perm ws)
    (hident : ∀ v ∈ vs, ∀ w ∈ vs, v.vector.compare w.vector = .equal → v = w) :
    (reconcile vs).Perm (reconcile ws) :=
  reconcile_perm_of_same (fun _ => h.mem_iff) hident

theorem mem_shown_reconcile
    (hident : ∀ v ∈ vs, ∀ w ∈ vs, v.vector.compare w.vector = .equal → v = w) :
    v ∈ shown (reconcile vs) ↔ v ∈ shown (maximal vs) := by
  have hsummary : Summary vs (reconcile vs) := Summary.nil.reconcile vs
  rw [shown, shown, List.mem_filter, List.mem_filter, hsummary.mem_iff hident]

theorem resolve_reordered (policy : ConflictPolicy) (hvs : vs.Pairwise Concurrent) (h : vs.Perm ws) :
    (resolve policy vs).Reordered (resolve policy ws) := by
  cases policy with
  | siblings => exact ⟨readSiblings_perm h, h⟩
  | lastWriterWins =>
    rw [resolve_lastWriterWins_perm hvs h]
    refine ⟨?_, .refl _⟩
    cases (resolve .lastWriterWins ws).read with
    | none => exact .none
    | some r => exact .some (.refl r)

theorem resolution_sound (policy : ConflictPolicy) {gathered : List Version}
    (hident : ∀ v ∈ gathered, ∀ w ∈ gathered, v.vector.compare w.vector = .equal → v = w) :
    let outcome := resolve policy (reconcile gathered)
    (IsLUB (vectors gathered) (mergedVector outcome.canonical) ∧
      ∀ r, outcome.read = some r → IsLUB (vectors gathered) r.context) ∧
    Known outcome.canonical gathered ∧
    (policy = .siblings → (outcome.read = none ↔ shown (maximal gathered) = []) ∧
      ∀ r, outcome.read = some r → r.Exposes (shown (maximal gathered))) ∧
    (policy = .lastWriterWins → ∀ r, outcome.read = some r → r.isConflict = false) ∧
    ∀ arrived, gathered.Perm arrived →
      outcome.Reordered (resolve policy (reconcile arrived)) ∧
        (policy = .lastWriterWins → outcome = resolve policy (reconcile arrived)) := by
  intro outcome
  have hreconciled := pairwise_reconcile gathered
  have hshown : ∀ v, v ∈ shown (reconcile gathered) ↔ v ∈ shown (maximal gathered) :=
    fun _ => mem_shown_reconcile hident
  refine ⟨⟨?_, fun r hr => ?_⟩, ?_, ?_, ?_, fun arrived harrived => ⟨?_, ?_⟩⟩
  · rw [mergedVector_canonical]
    exact isLUB_reconcile gathered
  · rw [resolve_context hr]
    exact isLUB_reconcile gathered
  · refine known_iff_covered.mpr fun v hv => covered_canonical policy ?_
    exact covered_reconcile.mpr ⟨v, hv, v.vector.le_refl⟩
  · rintro rfl
    refine ⟨?_, fun r hr => ?_⟩
    · have hempty : shown (reconcile gathered) = [] ↔ shown (maximal gathered) = [] := by
        simp only [List.eq_nil_iff_forall_not_mem, hshown]
      exact readSiblings_eq_none_iff.trans hempty
    · exact (exposes_readSiblings (nodup_of_pairwise_concurrent hreconciled) hr).of_same hshown
  · rintro rfl r hr
    exact isConflict_lastWriterWins hr
  · exact resolve_reordered policy hreconciled (reconcile_perm harrived hident)
  · rintro rfl
    exact resolve_lastWriterWins_perm hreconciled (reconcile_perm harrived hident)

end Version

namespace Tied

def outdated : Version := .live [9] (.ofEntries [("A", 1)]) 9

def left : Version := .live [1] (.ofEntries [("A", 2)]) 5

def right : Version := .live [2] (.ofEntries [("B", 1)]) 5

def removal : Version := .deletion (.ofEntries [("C", 1)]) 3

def gathered : List Version := [outdated, left, removal, right, left]

def arrived : List Version := [right, left, removal, left, outdated]

def context : VersionVector := .ofEntries [("A", 2), ("B", 1), ("C", 1)]

theorem tied_writes_read :
    (∀ v ∈ gathered, ∀ w ∈ gathered, v.vector.compare w.vector = .equal → v = w) ∧
    gathered.Perm arrived ∧
    (Version.resolve .siblings (Version.reconcile gathered)).read = some (.conflict [left, right] context) ∧
    IsLUB (Version.vectors gathered) context ∧
    (Version.resolve .lastWriterWins (Version.reconcile gathered)).read =
      some (.value (.live [2] context 5)) ∧
    Version.resolve .lastWriterWins (Version.reconcile gathered) =
      Version.resolve .lastWriterWins (Version.reconcile arrived) := by
  have hident : ∀ v ∈ gathered, ∀ w ∈ gathered, v.vector.compare w.vector = .equal → v = w := by
    decide +kernel
  have hperm : gathered.Perm arrived := by decide +kernel
  have hconflict : (Version.resolve .siblings (Version.reconcile gathered)).read =
      some (.conflict [left, right] context) := by decide +kernel
  obtain ⟨⟨-, hcontext⟩, -⟩ := Version.resolution_sound .siblings hident
  obtain ⟨-, -, -, -, harrived⟩ := Version.resolution_sound .lastWriterWins hident
  exact ⟨hident, hperm, hconflict, hcontext _ hconflict, by decide +kernel, (harrived arrived hperm).2 rfl⟩

end Tied

end QuorumStore
