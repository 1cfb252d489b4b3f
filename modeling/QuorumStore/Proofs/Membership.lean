import Mathlib.Data.Finset.Basic
import QuorumStore.Proofs.Placement

namespace QuorumStore

namespace Ring

inductive Change where
  | join (n : NodeId)
  | leave (n : NodeId)
  deriving DecidableEq

namespace Change

def node : Change → NodeId
  | join n => n
  | leave n => n

def apply (r : Ring) : Change → Ring
  | join n => r.add n
  | leave n => r.remove n

def update (ms : Finset NodeId) : Change → Finset NodeId
  | join n => insert n ms
  | leave n => ms.erase n

end Change

def after (r : Ring) (history : List Change) : Ring := history.foldl Change.apply r

def membersAfter (history : List Change) : Finset NodeId := history.foldl Change.update ∅

def Apart (perMember : Nat) (ns : List NodeId) : Prop :=
  ∀ m ∈ ns, ∀ n ∈ ns, m ≠ n → ∀ i < perMember, ∀ j < perMember, position m i ≠ position n j

instance (perMember : Nat) (ns : List NodeId) : Decidable (Apart perMember ns) :=
  inferInstanceAs (Decidable (∀ m ∈ ns, ∀ n ∈ ns, m ≠ n →
    ∀ i < perMember, ∀ j < perMember, position m i ≠ position n j))

structure SeatedBy (r : Ring) (ms : Finset NodeId) : Prop where
  member : ∀ n, r.members.get? n = some () ↔ n ∈ ms
  owner : ∀ t n, r.positions.get? t = some n ↔ n ∈ ms ∧ ∃ i < r.perMember, position n i = t

variable {r r' : Ring} {ms stay : Finset NodeId} {k : Nat} {ns : List NodeId} {history : List Change}
  {change : Change} {n : NodeId}

theorem Apart.mono {ns' : List NodeId} (h : Apart k ns) (hns : ns' ⊆ ns) : Apart k ns' :=
  fun m hm n hn => h m (hns hm) n (hns hn)

@[simp] theorem perMember_apply : (change.apply r).perMember = r.perMember := by
  cases change with
  | join n =>
    rw [Change.apply, add]
    split <;> rfl
  | leave n =>
    rw [Change.apply, remove]
    split <;> rfl

@[simp] theorem perMember_after : (r.after history).perMember = r.perMember := by
  induction history generalizing r with
  | nil => rfl
  | cons change history ih => exact ih.trans perMember_apply

structure Keeps (r : Ring) (ms stay : Finset NodeId) : Prop where
  member : ∀ n, r.members.get? n = some () ↔ n ∈ ms
  owner : ∀ t n, r.positions.get? t = some n → n ∈ ms ∧ ∃ i < r.perMember, position n i = t
  kept : ∀ n ∈ ms, n ∈ stay → ∀ i < r.perMember, r.positions.get? (position n i) = some n

namespace Keeps

theorem contains_iff (h : r.Keeps ms stay) : r.contains n ↔ n ∈ ms := by
  rw [← h.member, Ring.contains, SortedMap.contains]
  cases r.members.get? n <;> simp

protected theorem empty (k : Nat) (stay : Finset NodeId) : (empty k).Keeps ∅ stay :=
  ⟨fun n => by simp [Ring.empty], fun t n h => (nomatch h), fun n hn => absurd hn (Finset.notMem_empty n)⟩

theorem add (h : r.Keeps ms stay) (hfree : ∀ m ∈ stay, n ≠ m →
    ∀ i < r.perMember, ∀ j < r.perMember, position n i ≠ position m j) :
    (r.add n).Keeps (insert n ms) stay := by
  rw [Ring.add]
  split
  · rename_i hn
    rwa [Finset.insert_eq_of_mem (h.contains_iff.mp hn)]
  · refine ⟨fun m => ?_, fun t m hm => ?_, fun m hm hstay i hi => ?_⟩
    · by_cases hm : m = n <;> simp [hm, ← h.member]
    · rw [get?_claim] at hm
      split at hm
      · rename_i hclaimed
        cases hm
        exact ⟨Finset.mem_insert_self n ms, hclaimed⟩
      · exact (h.owner t m hm).imp_left (Finset.mem_insert_of_mem ·)
    · rw [get?_claim]
      split
      · rename_i hclaimed
        obtain ⟨j, hj, hposition⟩ := hclaimed
        by_cases hnm : n = m
        · rw [hnm]
        · exact absurd hposition (hfree m hstay hnm j hj i hi)
      · rename_i hfree
        rcases Finset.mem_insert.mp hm with rfl | hm
        · exact absurd ⟨i, hi, rfl⟩ hfree
        · exact h.kept m hm hstay i hi

theorem remove (h : r.Keeps ms stay) : (r.remove n).Keeps (ms.erase n) stay := by
  rw [Ring.remove]
  split
  · refine ⟨fun m => ?_, fun t m hm => ?_, fun m hm hstay i hi => ?_⟩
    · by_cases hm : m = n <;> simp [hm, ← h.member]
    · rw [SortedMap.get?_filter, Option.filter_eq_some_iff, bne_iff_ne] at hm
      exact (h.owner t m hm.1).imp_left fun hmem => Finset.mem_erase.mpr ⟨hm.2, hmem⟩
    · obtain ⟨hne, hmem⟩ := Finset.mem_erase.mp hm
      simp [h.kept m hmem hstay i hi, hne]
  · rename_i hn
    rwa [Finset.erase_eq_of_notMem fun hm => hn (h.contains_iff.mpr hm)]

theorem seatedBy (h : r.Keeps ms ms) : r.SeatedBy ms :=
  ⟨h.member, fun t n => ⟨h.owner t n, fun ⟨hn, i, hi, hposition⟩ => hposition ▸ h.kept n hn hn i hi⟩⟩

end Keeps

namespace SeatedBy

theorem keeps (h : r.SeatedBy ms) (stay : Finset NodeId) : r.Keeps ms stay :=
  ⟨h.member, fun t n => (h.owner t n).mp, fun n hn _ i hi => (h.owner _ n).mpr ⟨hn, i, hi, rfl⟩⟩

theorem contains_iff (h : r.SeatedBy ms) : r.contains n ↔ n ∈ ms := (h.keeps ms).contains_iff

theorem mem_nodes_iff (h : r.SeatedBy ms) : n ∈ r.nodes ↔ n ∈ ms := by
  rw [← h.contains_iff, nodes, SortedMap.mem_keys_iff]
  rfl

protected theorem empty (k : Nat) : (empty k).SeatedBy ∅ := (Keeps.empty k ∅).seatedBy

theorem add (h : r.SeatedBy ms) (hnew : ∀ m ∈ ms, m ≠ n →
    ∀ i < r.perMember, ∀ j < r.perMember, position m i ≠ position n j) :
    (r.add n).SeatedBy (insert n ms) := by
  refine ((h.keeps (insert n ms)).add fun m hm hnm i hi j hj => ?_).seatedBy
  exact (hnew m ((Finset.mem_insert.mp hm).resolve_left (Ne.symm hnm)) (Ne.symm hnm) j hj i hi).symm

theorem remove (h : r.SeatedBy ms) : (r.remove n).SeatedBy (ms.erase n) :=
  (h.keeps (ms.erase n)).remove.seatedBy

theorem apply (h : r.SeatedBy ms) (happart : Apart r.perMember (change.node :: ns))
    (hms : ∀ m ∈ ms, m ∈ ns) : (change.apply r).SeatedBy (change.update ms) := by
  cases change with
  | join n =>
    exact h.add fun m hm => happart m (List.mem_cons_of_mem _ (hms m hm)) n List.mem_cons_self
  | leave n => exact h.remove

theorem after (ns : List NodeId) (h : r.SeatedBy ms)
    (happart : Apart r.perMember (ns ++ history.map Change.node)) (hms : ∀ m ∈ ms, m ∈ ns) :
    (r.after history).SeatedBy (history.foldl Change.update ms) := by
  induction history generalizing r ms ns with
  | nil => exact h
  | cons change history ih =>
    refine ih (change.node :: ns) (h.apply (happart.mono ?_) hms) ?_ ?_
    · grind
    · rw [perMember_apply]
      exact happart.mono (by grind)
    · intro m hm
      cases change with
      | join n => exact List.mem_cons.mpr ((Finset.mem_insert.mp hm).imp_right (hms m))
      | leave n => exact List.mem_cons_of_mem _ (hms m (Finset.mem_of_mem_erase hm))

theorem unique (h : r.SeatedBy ms) (h' : r'.SeatedBy ms) (hk : r.perMember = r'.perMember) : r = r' := by
  have hpositions : r.positions = r'.positions := by
    refine SortedMap.ext_get? fun t => Option.ext fun n => ?_
    rw [h.owner, h'.owner, hk]
  have hmembers : r.members = r'.members := by
    refine SortedMap.ext_get? fun n => Option.ext fun u => ?_
    rw [h.member, h'.member]
  cases r
  cases r'
  cases hk
  cases hpositions
  cases hmembers
  rfl

end SeatedBy

theorem ofNodes_eq_after (k : Nat) (ns : List NodeId) : ofNodes k ns = (empty k).after (ns.map .join) := by
  rw [ofNodes, after, List.foldl_map]
  rfl

@[simp] theorem mem_membersAfter_joins : n ∈ membersAfter (ns.map .join) ↔ n ∈ ns := by
  have hfold : ∀ (ns : List NodeId) (ms : Finset NodeId),
      n ∈ (ns.map .join).foldl Change.update ms ↔ n ∈ ms ∨ n ∈ ns := by
    intro ns
    induction ns with
    | nil => simp
    | cons m ns ih =>
      intro ms
      rw [List.map_cons, List.foldl_cons, ih, Change.update, Finset.mem_insert, List.mem_cons]
      tauto
  rw [membersAfter, hfold]
  simp

theorem node_mem_of_mem_membersAfter (h : n ∈ membersAfter history) : n ∈ history.map Change.node := by
  have hfold : ∀ (history : List Change) (ms : Finset NodeId),
      n ∈ history.foldl Change.update ms → n ∈ ms ∨ n ∈ history.map Change.node := by
    intro history
    induction history with
    | nil => exact fun _ h => .inl h
    | cons change history ih =>
      intro ms h
      rw [List.map_cons, List.mem_cons]
      rcases ih _ h with h | h
      · cases change with
        | join m =>
          rcases Finset.mem_insert.mp h with rfl | h
          · exact .inr (.inl rfl)
          · exact .inl h
        | leave m => exact .inl (Finset.mem_of_mem_erase h)
      · exact .inr (.inr h)
  exact (hfold history ∅ h).resolve_left (Finset.notMem_empty n)

theorem placement_of_members (happart : Apart (max k 1) (history.map Change.node)) :
    let r := (empty k).after history
    (∀ n, n ∈ r.nodes ↔ n ∈ membersAfter history) ∧
      (∀ t n, r.positions.get? t = some n ↔
        n ∈ membersAfter history ∧ ∃ i < max k 1, position n i = t) ∧
      ∀ ns : List NodeId, (∀ n, n ∈ ns ↔ n ∈ membersAfter history) → r = ofNodes k ns := by
  intro r
  have hseated : r.SeatedBy (membersAfter history) :=
    (SeatedBy.empty k).after [] happart fun m hm => absurd hm (Finset.notMem_empty m)
  have hk : r.perMember = max k 1 := perMember_after
  refine ⟨fun n => hseated.mem_nodes_iff, hk ▸ hseated.owner, fun ns hns => ?_⟩
  have hjoined : Apart (max k 1) ((ns.map Change.join).map Change.node) := by
    refine happart.mono fun n hn => node_mem_of_mem_membersAfter ((hns n).mp ?_)
    simpa [Change.node] using hn
  have hanew : ((empty k).after (ns.map .join)).SeatedBy (membersAfter (ns.map .join)) :=
    (SeatedBy.empty k).after [] hjoined fun m hm => absurd hm (Finset.notMem_empty m)
  have hmembers : membersAfter (ns.map .join) = membersAfter history := by
    ext n
    rw [mem_membersAfter_joins, hns]
  rw [ofNodes_eq_after]
  have hk' : ((empty k).after (ns.map .join)).perMember = max k 1 := perMember_after
  exact hseated.unique (hmembers ▸ hanew) (hk.trans hk'.symm)

theorem rejoined_ring_anew :
    (empty 2).after [.join "A", .join "B", .leave "A", .join "C", .leave "D", .join "A", .join "D",
        .leave "D", .leave "D"] =
      ofNodes 2 ["C", "A", "B"] :=
  (placement_of_members (by decide +kernel)).2.2 _ (by
    intro n
    have hmembers : membersAfter [.join "A", .join "B", .leave "A", .join "C", .leave "D", .join "A",
        .join "D", .leave "D", .leave "D"] = {"A", "B", "C"} := by
      decide +kernel
    rw [hmembers]
    simp
    tauto)

end Ring

end QuorumStore
