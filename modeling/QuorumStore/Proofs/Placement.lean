import Mathlib.Data.List.Nodup
import QuorumStore.Quorum

namespace QuorumStore

theorem nodup_firstOccurrences (l : List NodeId) : (firstOccurrences l).Nodup := by
  have hfold : ∀ (l out : List NodeId), out.Nodup →
      (l.foldl (fun out n => if n ∈ out then out else out ++ [n]) out).Nodup := by
    intro l
    induction l with
    | nil => exact fun _ h => h
    | cons n l ih =>
      intro out h
      rw [List.foldl_cons]
      split
      · exact ih out h
      · rename_i hn
        refine ih _ (List.nodup_append.mpr ⟨h, List.nodup_singleton n, ?_⟩)
        intro m hm k hk hmk
        obtain rfl := List.mem_singleton.mp hk
        exact hn (hmk ▸ hm)
  exact hfold l [] .nil

theorem mem_firstOccurrences {l : List NodeId} {n : NodeId} : n ∈ firstOccurrences l ↔ n ∈ l := by
  have hfold : ∀ l out : List NodeId,
      n ∈ l.foldl (fun out n => if n ∈ out then out else out ++ [n]) out ↔ n ∈ out ∨ n ∈ l := by
    intro l
    induction l with
    | nil => simp
    | cons m l ih =>
      intro out
      rw [List.foldl_cons, ih, List.mem_cons]
      split
      · rename_i hm
        constructor
        · exact Or.imp_right .inr
        · rintro (h | rfl | h)
          · exact .inl h
          · exact .inl hm
          · exact .inr h
      · rw [List.mem_append, List.mem_singleton, or_assoc]
  rw [firstOccurrences, hfold]
  simp

theorem firstOccurrences_filter (p : NodeId → Bool) (l : List NodeId) :
    firstOccurrences (l.filter p) = (firstOccurrences l).filter p := by
  have hfold : ∀ l out : List NodeId,
      (l.filter p).foldl (fun out n => if n ∈ out then out else out ++ [n]) (out.filter p) =
        (l.foldl (fun out n => if n ∈ out then out else out ++ [n]) out).filter p := by
    intro l
    induction l with
    | nil => exact fun _ => rfl
    | cons n l ih =>
      intro out
      rw [List.foldl_cons, ← ih]
      by_cases hn : p n = true
      · rw [List.filter_cons_of_pos hn, List.foldl_cons]
        by_cases hmem : n ∈ out
        · rw [if_pos (List.mem_filter.mpr ⟨hmem, hn⟩), if_pos hmem]
        · rw [if_neg fun h => hmem (List.mem_filter.mp h).1, if_neg hmem, List.filter_append,
            List.filter_cons_of_pos hn, List.filter_nil]
      · rw [List.filter_cons_of_neg hn]
        split
        · rfl
        · rw [List.filter_append, List.filter_cons_of_neg hn, List.filter_nil, List.append_nil]
  exact hfold l []

namespace Ring

variable {r : Ring} {key : Key} {n : Nat} {ns : List NodeId}

theorem nodup_preference (r : Ring) (key : Key) : (r.preference key).Nodup :=
  nodup_firstOccurrences _

theorem mem_turn {m : NodeId} {t : Token} : m ∈ r.turn t ↔ ∃ t', r.positions.get? t' = some m := by
  simp only [turn, List.mem_map, List.mem_append, List.mem_filter, ← SortedMap.mem_entries_iff]
  constructor
  · rintro ⟨e, ⟨he, -⟩ | ⟨he, -⟩, rfl⟩ <;> exact ⟨e.1, he⟩
  · rintro ⟨t', he⟩
    refine ⟨(t', m), ?_, rfl⟩
    by_cases ht : t < t'
    · exact .inl ⟨he, decide_eq_true ht⟩
    · exact .inr ⟨he, decide_eq_true (Std.not_lt.mp ht)⟩

theorem mem_preference {m : NodeId} : m ∈ r.preference key ↔ ∃ t, r.positions.get? t = some m :=
  mem_firstOccurrences.trans mem_turn

theorem replicas_eq_ok_iff :
    r.replicas key n = .ok ns ↔ n ≤ (r.preference key).length ∧ ns = (r.preference key).take n := by
  unfold replicas
  dsimp only
  split
  · rename_i h
    rw [List.length_take] at h
    constructor
    · intro h'
      cases h'
    · rintro ⟨h', -⟩
      omega
  · rename_i h
    rw [List.length_take] at h
    constructor
    · intro h'
      cases h'
      exact ⟨by omega, rfl⟩
    · rintro ⟨-, rfl⟩
      rfl

theorem replicas_eq_error_iff :
    (∃ shortage, r.replicas key n = .error shortage) ↔ (r.preference key).length < n := by
  cases h : r.replicas key n with
  | error e =>
    refine ⟨fun _ => Nat.lt_of_not_le fun hn => ?_, fun _ => ⟨e, rfl⟩⟩
    rw [replicas_eq_ok_iff.mpr ⟨hn, rfl⟩] at h
    cases h
  | ok ns =>
    have hn := (replicas_eq_ok_iff.mp h).1
    refine ⟨fun ⟨_, h'⟩ => ?_, fun h' => ?_⟩
    · cases h'
    · omega

theorem standIns_of_replicas (h : r.replicas key n = .ok ns) :
    r.standIns key ns = (r.preference key).drop n := by
  obtain ⟨-, rfl⟩ := replicas_eq_ok_iff.mp h
  have hnodup := r.nodup_preference key
  rw [← List.take_append_drop n (r.preference key)] at hnodup
  obtain ⟨-, -, hdisjoint⟩ := List.nodup_append.mp hnodup
  rw [standIns]
  conv_lhs =>
    enter [2]
    rw [← List.take_append_drop n (r.preference key)]
  rw [List.filter_append, List.filter_eq_nil_iff.mpr, List.nil_append, List.filter_eq_self.mpr]
  · intro m hm
    simp only [Bool.not_eq_true', decide_eq_false_iff_not]
    exact fun hm' => hdisjoint m hm' m hm rfl
  · intro m hm
    simpa using hm

theorem replicas_append_standIns (h : r.replicas key n = .ok ns) :
    ns ++ r.standIns key ns = r.preference key := by
  rw [standIns_of_replicas h, (replicas_eq_ok_iff.mp h).2, List.take_append_drop]

theorem nodup_replicas_append_standIns (h : r.replicas key n = .ok ns) :
    (ns ++ r.standIns key ns).Nodup := by
  rw [replicas_append_standIns h]
  exact r.nodup_preference key

theorem get?_claim (k : Nat) (m : NodeId) (positions : SortedMap Token NodeId) (t : Token) :
    (claim k m positions).get? t =
      if ∃ i < k, position m i = t then some m else positions.get? t := by
  have hclaim : claim k m positions = ((List.range k).map fun i => (position m i, m)).foldl
      (fun p e => p.insert e.1 e.2) positions := by
    rw [List.foldl_map]
    rfl
  rw [hclaim, SortedMap.get?_foldl_insert]
  cases hlast : ((List.range k).map fun i => (position m i, m)).reverse.find?
      (fun e => decide (t = e.1)) with
  | none =>
    have hfree : ∀ i < k, ¬ t = position m i := by simpa using hlast
    have hnone : ¬ ∃ i < k, position m i = t := fun ⟨i, hi, ht⟩ => hfree i hi ht.symm
    simp [hnone]
  | some e =>
    obtain ⟨i, hi, rfl⟩ : ∃ i < k, (position m i, m) = e := by
      simpa using List.mem_of_find?_eq_some hlast
    obtain rfl : t = position m i := by simpa using List.find?_some hlast
    have hclaimed : ∃ j < k, position m j = position m i := ⟨i, hi, rfl⟩
    simp [hclaimed]

theorem owner_claim {k : Nat} {o m : NodeId} {positions : SortedMap Token NodeId} {t : Token}
    (h : (claim k m positions).get? t = some o) : o = m ∨ positions.get? t = some o := by
  rw [get?_claim] at h
  split at h
  · exact .inl (Option.some.inj h).symm
  · exact .inr h

theorem owner_ofNodes {k : Nat} {ms : List NodeId} {t : Token} {o : NodeId}
    (h : (ofNodes k ms).positions.get? t = some o) : o ∈ ms := by
  have hfold : ∀ (ms : List NodeId) (r : Ring), (ms.foldl add r).positions.get? t = some o →
      o ∈ ms ∨ r.positions.get? t = some o := by
    intro ms
    induction ms with
    | nil => exact fun _ h => .inr h
    | cons m ms ih =>
      intro r h
      rcases ih _ h with h | h
      · exact .inl (List.mem_cons_of_mem _ h)
      · unfold add at h
        split at h
        · exact .inr h
        · rcases owner_claim h with rfl | h
          · exact .inl (List.mem_cons_self ..)
          · exact .inr h
  exact (hfold ms (empty k) h).resolve_right fun h => Option.some_ne_none o h.symm

theorem preference_ofNodes_subset (k : Nat) (ms : List NodeId) (key : Key) :
    (ofNodes k ms).preference key ⊆ ms := by
  intro o ho
  obtain ⟨t, ht⟩ := mem_preference.mp ho
  exact owner_ofNodes ht

end Ring

end QuorumStore
