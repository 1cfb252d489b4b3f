import QuorumStore.Proofs.Membership

namespace QuorumStore

theorem take_eq_of_filter {l l' : List NodeId} {e : NodeId} (hnodup : l'.Nodup)
    (h : l'.filter (fun m => decide (m ≠ e)) = l) {n : Nat} (hn : n ≤ l.length) :
    l'.take n = l.take n ∨
      ∃ xs ys, l.take n = xs ++ ys ∧ ys ≠ [] ∧ l'.take n = xs ++ e :: ys.dropLast := by
  have hkept : ∀ zs : List NodeId, e ∉ zs → zs.filter (fun m => decide (m ≠ e)) = zs := fun zs hzs =>
    List.filter_eq_self.mpr fun m hm => decide_eq_true fun hme => hzs (hme ▸ hm)
  by_cases he : e ∈ l'
  · obtain ⟨xs, ys, rfl⟩ := List.append_of_mem he
    obtain ⟨-, htail, hdisjoint⟩ := List.nodup_append.mp hnodup
    have hxs : e ∉ xs := fun hmem => hdisjoint e hmem e List.mem_cons_self rfl
    have hys : e ∉ ys := (List.nodup_cons.mp htail).1
    rw [List.filter_append, List.filter_cons_of_neg (by simp), hkept xs hxs, hkept ys hys] at h
    subst h
    by_cases hbefore : n ≤ xs.length
    · left
      rw [List.take_append_of_le_length hbefore, List.take_append_of_le_length hbefore]
    · -- the node comes at a place among the first ones
      obtain ⟨k, rfl⟩ : ∃ k, n = xs.length + (k + 1) := ⟨n - xs.length - 1, by omega⟩
      rw [List.length_append] at hn
      refine .inr ⟨xs, ys.take (k + 1), ?_, ?_, ?_⟩
      · exact List.take_length_add_append ..
      · refine List.ne_nil_of_length_pos ?_
        rw [List.length_take]
        omega
      · have hlast : (ys.take (k + 1)).dropLast = ys.take k := by
          rw [List.dropLast_eq_take, List.length_take, List.take_take]
          congr 1
          omega
        rw [List.take_length_add_append, List.take_succ_cons, hlast]
  · rw [hkept l' he] at h
    exact .inl (h ▸ rfl)

namespace Ring

variable {r : Ring} {ms : Finset NodeId} {key : Key} {m e : NodeId} {n : Nat}

theorem turn_remove (hm : r.contains m) (t : Token) :
    (r.remove m).turn t = (r.turn t).filter (fun n => decide (n ≠ m)) := by
  have hentries : (r.remove m).positions.entries =
      r.positions.entries.filter (fun e => decide (e.2 ≠ m)) := by
    rw [remove, if_pos hm]
    exact List.filter_congr fun e _ => by by_cases he : e.2 = m <;> simp [he]
  have hswap : ∀ p : Token × NodeId → Bool,
      (r.positions.entries.filter (fun e => decide (e.2 ≠ m))).filter p =
        (r.positions.entries.filter p).filter (fun e => decide (e.2 ≠ m)) :=
    fun p => List.filter_comm ..
  simp only [turn, hentries, hswap, ← List.filter_append, List.filter_map]
  rfl

theorem preference_remove (hm : r.contains m) (key : Key) :
    (r.remove m).preference key = (r.preference key).filter (fun n => decide (n ≠ m)) := by
  rw [preference, turn_remove hm, firstOccurrences_filter]
  rfl

namespace SeatedBy

theorem mem_preference_iff (h : r.SeatedBy ms) (hpositive : 0 < r.perMember) :
    m ∈ r.preference key ↔ m ∈ ms := by
  rw [mem_preference]
  constructor
  · rintro ⟨t, ht⟩
    exact ((h.owner t m).mp ht).1
  · intro hm
    exact ⟨position m 0, (h.owner _ m).mpr ⟨hm, 0, hpositive, rfl⟩⟩

theorem length_preference (h : r.SeatedBy ms) (hpositive : 0 < r.perMember) (key : Key) :
    (r.preference key).length = r.nodes.length := by
  refine ((List.perm_ext_iff_of_nodup (r.nodup_preference key) r.members.nodup_keys).mpr
    fun m => ?_).length_eq
  rw [h.mem_preference_iff hpositive, ← h.mem_nodes_iff]
  rfl

theorem preference_leave (h : r.SeatedBy ms) (m : NodeId) (key : Key) :
    (r.remove m).preference key = (r.preference key).filter (fun n => decide (n ≠ m)) := by
  by_cases hm : r.contains m
  · exact preference_remove hm key
  · rw [Ring.remove, if_neg hm, List.filter_eq_self.mpr]
    rintro n hn
    refine decide_eq_true ?_
    rintro rfl
    obtain ⟨t, ht⟩ := mem_preference.mp hn
    exact hm (h.contains_iff.mpr ((h.owner t n).mp ht).1)

theorem remove_add (h : r.SeatedBy ms) (he : e ∉ ms) (hfree : ∀ m ∈ ms, m ≠ e →
    ∀ i < r.perMember, ∀ j < r.perMember, position m i ≠ position e j) : (r.add e).remove e = r := by
  have hback := (h.add hfree).remove (n := e)
  rw [Finset.erase_insert he] at hback
  have hjoin : ((Change.join e).apply r).perMember = r.perMember := perMember_apply
  have hleave : ((Change.leave e).apply (r.add e)).perMember = (r.add e).perMember := perMember_apply
  exact hback.unique h (hleave.trans hjoin)

theorem preference_join (h : r.SeatedBy ms) (he : e ∉ ms) (hfree : ∀ m ∈ ms, m ≠ e →
    ∀ i < r.perMember, ∀ j < r.perMember, position m i ≠ position e j) (key : Key) :
    ((r.add e).preference key).filter (fun n => decide (n ≠ e)) = r.preference key := by
  rw [← (h.add hfree).preference_leave, h.remove_add he hfree]

end SeatedBy

theorem membership_change_minimal {k : Nat} {history : List Change} {e : NodeId}
    (hnew : e ∉ ((empty k).after history).nodes)
    (happart : Apart (max k 1) (e :: history.map Change.node)) (key : Key) :
    let r := (empty k).after history
    ((r.add e).preference key).filter (fun n => decide (n ≠ e)) = r.preference key ∧
      (∀ m, (r.remove m).preference key = (r.preference key).filter (fun n => decide (n ≠ m))) ∧
      ∀ n ≤ r.nodes.length, ∃ ns, r.replicas key n = .ok ns ∧
        ((r.add e).replicas key n = .ok ns ∨
          ∃ xs ys, ns = xs ++ ys ∧ ys ≠ [] ∧
            (r.add e).replicas key n = .ok (xs ++ e :: ys.dropLast)) := by
  intro r
  have hk : r.perMember = max k 1 := perMember_after
  have hseated : r.SeatedBy (membersAfter history) :=
    (SeatedBy.empty k).after [] (happart.mono (List.subset_cons_self ..))
      fun m hm => absurd hm (Finset.notMem_empty m)
  have he : e ∉ membersAfter history := fun hmem => hnew (hseated.mem_nodes_iff.mpr hmem)
  have hfree : ∀ m ∈ membersAfter history, m ≠ e →
      ∀ i < r.perMember, ∀ j < r.perMember, position m i ≠ position e j := by
    rw [hk]
    exact fun m hm =>
      happart m (List.mem_cons_of_mem _ (node_mem_of_mem_membersAfter hm)) e List.mem_cons_self
  have hjoin := hseated.preference_join he hfree key
  refine ⟨hjoin, fun m => hseated.preference_leave m key, fun n hn => ?_⟩
  have hle : n ≤ (r.preference key).length := by
    rwa [hseated.length_preference (by omega)]
  have hlonger : (r.preference key).length ≤ ((r.add e).preference key).length :=
    hjoin ▸ List.length_filter_le ..
  refine ⟨(r.preference key).take n, replicas_eq_ok_iff.mpr ⟨hle, rfl⟩, ?_⟩
  have hjoined : (r.add e).replicas key n = .ok (((r.add e).preference key).take n) :=
    replicas_eq_ok_iff.mpr ⟨hle.trans hlonger, rfl⟩
  rw [hjoined]
  rcases take_eq_of_filter ((r.add e).nodup_preference key) hjoin hle with hsame | hexchanged
  · exact .inl (congrArg Except.ok hsame)
  · obtain ⟨xs, ys, hold, hys, hnew⟩ := hexchanged
    exact .inr ⟨xs, ys, hold, hys, congrArg Except.ok hnew⟩

theorem newcomer_replaces_last :
    let r := (empty 2).after [.join "A", .join "B", .join "C", .leave "C", .join "E"]
    ((r.add "D").preference "m").filter (fun n => decide (n ≠ "D")) = ["E", "A", "B"] ∧
    (r.remove "A").preference "m" = ["E", "B"] ∧
    r.replicas "m" 2 = .ok ["E", "A"] ∧ (r.add "D").replicas "m" 2 = .ok ["E", "D"] := by
  intro r
  have hpreference : r.preference "m" = ["E", "A", "B"] := by decide +kernel
  have hnew : "D" ∉ r.nodes := by decide +kernel
  have happart : Apart 2 ["D", "A", "B", "C", "C", "E"] := by decide +kernel
  obtain ⟨hjoin, hleave, -⟩ := membership_change_minimal hnew happart "m"
  refine ⟨hjoin.trans hpreference, (hleave "A").trans ?_, by decide +kernel, by decide +kernel⟩
  rw [hpreference]
  rfl

end Ring

end QuorumStore
