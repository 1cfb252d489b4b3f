import Mathlib.Data.List.Pairwise
import QuorumStore.Proofs.VectorOrder
import QuorumStore.Replica

namespace QuorumStore

namespace Version

def Concurrent (v w : Version) : Prop := ¬ v.vector ≤ w.vector ∧ ¬ w.vector ≤ v.vector

instance : Std.Symm Concurrent := ⟨fun _ _ h => ⟨h.2, h.1⟩⟩

theorem pairwise_accept {kept : List Version} {v : Version} (h : kept.Pairwise Concurrent) :
    (accept kept v).Pairwise Concurrent := by
  rw [accept_eq]
  split
  · exact h
  · rename_i hv
    refine List.pairwise_append.mpr ⟨h.filter _, List.pairwise_singleton .., ?_⟩
    intro k hk w hw
    obtain rfl := List.mem_singleton.mp hw
    obtain ⟨hk, hkw⟩ := List.mem_filter.mp hk
    refine ⟨by simpa using hkw, ?_⟩
    intro hwk
    exact hv ⟨k, hk, hwk⟩

theorem pairwise_reconcile (vs : List Version) : (reconcile vs).Pairwise Concurrent := by
  have hfold : ∀ (vs kept : List Version), kept.Pairwise Concurrent →
      (vs.foldl accept kept).Pairwise Concurrent := by
    intro vs
    induction vs with
    | nil => exact fun _ h => h
    | cons v vs ih => exact fun kept h => ih _ (pairwise_accept h)
  exact hfold vs [] .nil

theorem mem_accept {kept : List Version} {v w : Version} (h : w ∈ accept kept v) :
    w ∈ kept ∨ w = v := by
  rw [accept_eq] at h
  split at h
  · exact .inl h
  · rcases List.mem_append.mp h with h | h
    · exact .inl (List.mem_filter.mp h).1
    · exact .inr (List.mem_singleton.mp h)

theorem mem_of_mem_reconcile {vs : List Version} {w : Version} (h : w ∈ reconcile vs) : w ∈ vs := by
  have hfold : ∀ (vs kept : List Version), w ∈ vs.foldl accept kept → w ∈ kept ∨ w ∈ vs := by
    intro vs
    induction vs with
    | nil => exact fun _ h => .inl h
    | cons v vs ih =>
      intro kept h
      rcases ih _ h with h | h
      · rcases mem_accept h with h | rfl
        · exact .inl h
        · exact .inr (List.mem_cons_self ..)
      · exact .inr (List.mem_cons_of_mem _ h)
  exact (hfold vs [] h).resolve_left (fun h => nomatch h)

theorem reconcile_ne_nil {vs : List Version} {v : Version} (h : v ∈ vs) : reconcile vs ≠ [] := by
  intro hnil
  obtain ⟨k, hk, -⟩ := covered_reconcile.mpr ⟨v, h, v.vector.le_refl⟩
  rw [hnil] at hk
  exact List.not_mem_nil hk

theorem not_dominates_of_covered {vs : List Version} {v : Version} {u : VersionVector}
    (h : vs.Pairwise Concurrent) (hu : Covered vs u) (hv : v ∈ vs) :
    u.compare v.vector ≠ .dominates := by
  intro hdom
  obtain ⟨hvu, huv⟩ := VersionVector.compare_eq_dominates_iff.mp hdom
  obtain ⟨k, hk, huk⟩ := hu
  have hne : v ≠ k := by
    rintro rfl
    exact huv huk
  exact (h.forall hv hk hne).1 (VersionVector.le_trans hvu huk)

theorem not_below_of_mem_reconcile {vs : List Version} {v : Version} {w : VersionVector}
    (hw : Covered vs w) (hv : v ∈ reconcile vs) : w.compare v.vector ≠ .dominates :=
  not_dominates_of_covered (pairwise_reconcile vs) (covered_reconcile.mpr hw) hv

theorem exists_lastWriter? {vs : List Version} (h : vs ≠ []) : ∃ w, lastWriter? vs = some w := by
  cases vs with
  | nil => exact absurd rfl h
  | cons v vs => exact ⟨_, rfl⟩

theorem lastWriter?_vector {vs : List Version} {w : Version} (h : lastWriter? vs = some w) :
    w.vector = mergedVector vs := by
  obtain ⟨v, -, rfl⟩ := Option.map_eq_some_iff.mp h
  rfl

theorem resolve_cases (policy : ConflictPolicy) (vs : List Version) :
    resolve policy vs = ⟨readSiblings vs, vs⟩ ∧ (policy = .siblings ∨ vs.length ≤ 1) ∨
      policy = .lastWriterWins ∧ ∃ w, lastWriter? vs = some w ∧
        resolve policy vs = ⟨if w.tombstone then none else some (.value w), [w]⟩ := by
  cases policy with
  | siblings => exact .inl ⟨rfl, .inl rfl⟩
  | lastWriterWins =>
    by_cases hfew : vs.length ≤ 1
    · exact .inl ⟨if_pos hfew, .inr hfew⟩
    · have hne : vs ≠ [] := by
        rintro rfl
        exact hfew (Nat.zero_le 1)
      obtain ⟨w, hw⟩ := exists_lastWriter? hne
      refine .inr ⟨rfl, w, hw, ?_⟩
      rw [resolve, if_neg hfew, hw]

@[simp] theorem resolve_singleton (policy : ConflictPolicy) (v : Version) :
    resolve policy [v] = ⟨if v.tombstone then none else some (.value v), [v]⟩ := by
  have hread : readSiblings [v] = if v.tombstone then none else some (.value v) := by
    have hvector : mergedVector [v] = v.vector := VersionVector.empty_merge v.vector
    obtain ⟨value, vector, timestamp, tombstone⟩ := v
    cases tombstone with
    | true => rfl
    | false => exact congrArg (fun u => some (Read.value ⟨value, u, timestamp, false⟩)) hvector
  cases policy <;> exact congrArg (Resolution.mk · [v]) hread

theorem read_resolve {policy : ConflictPolicy} {vs : List Version} {r : Read}
    (h : (resolve policy vs).read = some r) :
    readSiblings vs = some r ∨ ∃ w, lastWriter? vs = some w ∧ w.tombstone = false ∧ r = .value w := by
  rcases resolve_cases policy vs with ⟨hall, -⟩ | ⟨-, w, hw, hlast⟩
  · rw [hall] at h
    exact .inl h
  · rw [hlast] at h
    dsimp only at h
    split at h
    · cases h
    · rename_i hlive
      cases h
      exact .inr ⟨w, hw, Bool.eq_false_iff.mpr hlive, rfl⟩

def shown (vs : List Version) : List Version := vs.filter fun v => !v.tombstone

theorem mem_shown {vs : List Version} {v : Version} : v ∈ shown vs ↔ v ∈ vs ∧ v.tombstone = false := by
  simp [shown]

theorem readSiblings_eq_none_iff {vs : List Version} : readSiblings vs = none ↔ shown vs = [] := by
  rw [readSiblings, shown]
  split <;> simp_all

theorem readSiblings_eq_some {vs : List Version} {r : Read} (h : readSiblings vs = some r) :
    (∃ v, shown vs = [v] ∧ r = .value { v with vector := mergedVector vs }) ∨
      2 ≤ (shown vs).length ∧ r = .conflict (shown vs) (mergedVector vs) := by
  rw [readSiblings] at h
  rw [shown]
  generalize vs.filter (fun v => !v.tombstone) = live at h ⊢
  rcases live with _ | ⟨v, _ | ⟨w, live⟩⟩
  · cases h
  · cases h
    exact .inl ⟨v, rfl, rfl⟩
  · cases h
    exact .inr ⟨Nat.le_add_left 2 _, rfl⟩

theorem readSiblings_context {vs : List Version} {r : Read} (h : readSiblings vs = some r) :
    r.context = mergedVector vs := by
  rcases readSiblings_eq_some h with ⟨v, -, rfl⟩ | ⟨-, rfl⟩
  · rfl
  · rfl

theorem resolve_context {policy : ConflictPolicy} {vs : List Version} {r : Read}
    (h : (resolve policy vs).read = some r) : r.context = mergedVector vs := by
  rcases read_resolve h with h | ⟨w, hw, -, rfl⟩
  · exact readSiblings_context h
  · exact lastWriter?_vector hw

theorem readSiblings_versions {vs : List Version} {r : Read} (h : readSiblings vs = some r) :
    ∀ v ∈ r.versions, v.vector = mergedVector vs ∨ v ∈ vs := by
  intro v hv
  rcases readSiblings_eq_some h with ⟨w, -, rfl⟩ | ⟨-, rfl⟩
  · obtain rfl := List.mem_singleton.mp hv
    exact .inl rfl
  · exact .inr (mem_shown.mp hv).1

theorem resolve_versions {policy : ConflictPolicy} {vs : List Version} {r : Read}
    (h : (resolve policy vs).read = some r) :
    ∀ v ∈ r.versions, v.vector = mergedVector vs ∨ v ∈ vs := by
  rcases read_resolve h with h | ⟨w, hw, -, rfl⟩
  · exact readSiblings_versions h
  · intro v hv
    obtain rfl := List.mem_singleton.mp hv
    exact .inl (lastWriter?_vector hw)

theorem le_context_of_covered {policy : ConflictPolicy} {vs : List Version} {r : Read}
    {w : VersionVector} (hw : Covered vs w)
    (h : (resolve policy (reconcile vs)).read = some r) : w ≤ r.context := by
  rw [resolve_context h]
  exact le_mergedVector_of_covered (covered_reconcile.mpr hw)

theorem not_below_of_mem_versions {policy : ConflictPolicy} {vs : List Version} {r : Read}
    {w : VersionVector} (hw : Covered vs w) (h : (resolve policy (reconcile vs)).read = some r) :
    ∀ v ∈ r.versions, w.compare v.vector ≠ .dominates := by
  intro v hv
  rcases resolve_versions h v hv with hvector | hmem
  · intro hdom
    refine (VersionVector.compare_eq_dominates_iff.mp hdom).2 ?_
    rw [hvector]
    exact le_mergedVector_of_covered (covered_reconcile.mpr hw)
  · exact not_below_of_mem_reconcile hw hmem

@[simp, grind =] theorem covered_append {vs ws : List Version} {u : VersionVector} :
    Covered (vs ++ ws) u ↔ Covered vs u ∨ Covered ws u := by
  simp only [Covered, List.mem_append]
  constructor
  · rintro ⟨k, hk | hk, hu⟩
    · exact .inl ⟨k, hk, hu⟩
    · exact .inr ⟨k, hk, hu⟩
  · rintro (⟨k, hk, hu⟩ | ⟨k, hk, hu⟩)
    · exact ⟨k, .inl hk, hu⟩
    · exact ⟨k, .inr hk, hu⟩

end Version

@[simp, grind =] theorem Engine.get?_replace (e : Engine) (key k : Key) (vs : List Version) :
    (e.replace key vs).get? k = if k = key then (if vs.isEmpty then none else some vs) else e.get? k :=
  Memtable.get?_replace ..

namespace Store

theorem held_replace (s : Store) (key k : Key) (vs : List Version) :
    ({ s with engine := s.engine.replace key vs } : Store).held k =
      if k = key then vs else s.held k := by
  simp only [held, Engine.get?_replace]
  split
  · cases vs <;> rfl
  · rfl

theorem held_merge {s s' : Store} {key : Key} {incoming : List Version} {outcome : MergeOutcome}
    (h : s.merge key incoming = .ok (outcome, s')) (k : Key) :
    s'.held k = (if k = key then Version.reconcile (s.held key ++ incoming) else s.held k) ∧
      s'.damaged = s.damaged := by
  unfold merge at h
  split at h
  · cases h
  · dsimp only at h
    split at h
    · rename_i heq
      cases h
      refine ⟨?_, rfl⟩
      split
      · rename_i hk
        rw [hk, heq]
      · rfl
    · cases h
      exact ⟨held_replace .., rfl⟩

theorem covered_merge {s s' : Store} {key : Key} {incoming : List Version} {outcome : MergeOutcome}
    (h : s.merge key incoming = .ok (outcome, s')) {w : VersionVector} :
    Version.Covered (s'.held key) w ↔
      Version.Covered (s.held key) w ∨ Version.Covered incoming w := by
  simp [(held_merge h key).1]

end Store

namespace Replica

variable {p : Placement} {self : NodeId} {now : UInt64} {r : Replica}

inductive Change (r : Replica) : Request → Replica → Prop
  | none (request) : Change r request r
  | merge {request key vs outcome store} (h : r.store.merge key vs = .ok (outcome, store)) :
      Change r request { r with store }
  | hint (target key v now) :
      Change r (.putHinted target key v) { r with hints := r.hints.record target key v now }

theorem merge_change (key : Key) (vs : List Version) (request : Request) :
    Change r request (r.merge key vs).2 := by
  unfold merge
  cases h : r.store.merge key vs with
  | error e => exact .none _
  | ok result => exact .merge h

theorem handle_change (request : Request) : Change r request (r.handle p self now request).2 := by
  cases request with
  | put key v => exact merge_change key [v] _
  | repairPush key vs => exact merge_change key vs _
  | handoff key vs => exact merge_change key vs _
  | putHinted target key v => exact .hint target key v now
  | get key => exact .none _
  | digest peer depth => exact .none _
  | bucketKeys peer depth buckets => exact .none _

theorem Change.covered {r' : Replica} {request : Request} (h : Change r request r') {key : Key}
    {w : VersionVector} (hw : Version.Covered (r.store.held key) w) :
    Version.Covered (r'.store.held key) w := by
  cases h with
  | none => exact hw
  | hint => exact hw
  | @merge _ k vs outcome store h =>
    rw [(Store.held_merge h key).1]
    split
    · rename_i hk
      subst hk
      simp [hw]
    · exact hw

theorem Change.damaged {r' : Replica} {request : Request} (h : Change r request r') :
    r'.store.damaged = r.store.damaged := by
  cases h with
  | none => rfl
  | hint => rfl
  | merge h => exact (Store.held_merge h default).2

theorem Change.hints_eq {r' : Replica} {request : Request} (h : Change r request r')
    (hkind : request.kind ≠ .putHinted) : r'.hints = r.hints := by
  cases h with
  | none => rfl
  | merge => rfl
  | hint => exact absurd rfl hkind

theorem covered_of_handle_put {key : Key} {v : Version} {response : Response}
    (h : (r.handle p self now (.put key v)).1 = .ok response) :
    Version.Covered ((r.handle p self now (.put key v)).2.store.held key) v.vector := by
  simp only [handle, merge] at h ⊢
  cases hm : r.store.merge key [v] with
  | error e => rw [hm] at h; cases h
  | ok result =>
    simp [Store.covered_merge hm]

theorem covered_of_handle_get {key : Key} {response : Response}
    (h : (r.handle p self now (.get key)).1 = .ok response) :
    ∃ vs, response = .versions vs ∧ ∀ w, Version.Covered vs w ↔
      Version.Covered (r.store.held key) w ∨ Version.Covered (r.hints.hinted key) w := by
  simp only [handle, read, Store.read] at h
  split at h <;> rename_i heq <;> split at heq <;> cases heq
  · cases h
  · cases h
    refine ⟨_, rfl, fun w => ?_⟩
    simp [Store.held]

end Replica

end QuorumStore
