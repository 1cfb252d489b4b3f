import QuorumStore.Proofs.PlacementChange

namespace QuorumStore

def Token.clockwise (t p : Token) : Nat := if p = t then UInt64.size else (p - t).toNat

theorem Token.clockwise_of_lt {t p : Token} (h : t < p) : t.clockwise p = p.toNat - t.toNat := by
  have hlt : t.toNat < p.toNat := UInt64.lt_iff_toNat_lt.mp h
  have hne : p ≠ t := fun heq => by
    rw [heq] at hlt
    omega
  have hp := p.toNat_lt
  rw [clockwise, if_neg hne, UInt64.toNat_sub]
  omega

theorem Token.clockwise_of_le {t p : Token} (h : p ≤ t) :
    t.clockwise p = UInt64.size + p.toNat - t.toNat := by
  have hle : p.toNat ≤ t.toNat := UInt64.le_iff_toNat_le.mp h
  have ht := t.toNat_lt
  simp only [UInt64.size]
  rw [clockwise]
  split
  · rename_i heq
    rw [heq, UInt64.size]
    omega
  · rename_i hne
    have hlt : p.toNat ≠ t.toNat := fun heq => hne (UInt64.toNat_inj.mp heq)
    rw [UInt64.toNat_sub]
    omega

theorem firstOccurrences_concat (l : List NodeId) (n : NodeId) :
    firstOccurrences (l ++ [n]) =
      if n ∈ firstOccurrences l then firstOccurrences l else firstOccurrences l ++ [n] := by
  rw [firstOccurrences, List.foldl_append]
  rfl

theorem firstOccurrences_cons (n : NodeId) (l : List NodeId) :
    firstOccurrences (n :: l) = n :: (firstOccurrences l).filter (fun m => decide (m ≠ n)) := by
  -- what has been met is extended at its end, so the induction takes the list from there
  induction l using List.reverseRecOn with
  | nil => rfl
  | append_singleton l m ih =>
    rw [← List.cons_append, firstOccurrences_concat, firstOccurrences_concat, ih]
    by_cases hmn : m = n
    · rw [if_pos (hmn ▸ List.mem_cons_self), hmn]
      split
      · rfl
      · rw [List.filter_append, List.filter_cons_of_neg (by simp), List.filter_nil, List.append_nil]
    · by_cases hmet : m ∈ firstOccurrences l <;> simp [hmet, hmn]

theorem pairwise_firstOccurrences {f : Token → Nat} {es : List (Token × NodeId)}
    (h : es.Pairwise (fun e e' => f e.1 < f e'.1)) :
    (firstOccurrences (es.map (·.2))).Pairwise
      (fun m n => ∀ p', (p', n) ∈ es → ∃ p, (p, m) ∈ es ∧ f p < f p') := by
  induction es with
  | nil => exact .nil
  | cons e es ih =>
    obtain ⟨hfirst, hes⟩ := List.pairwise_cons.mp h
    rw [List.map_cons, firstOccurrences_cons]
    refine List.pairwise_cons.mpr ⟨fun n hn p' hp' => ?_, ?_⟩
    · have hne := of_decide_eq_true (List.mem_filter.mp hn).2
      rcases List.mem_cons.mp hp' with heq | hp'
      · exact absurd (congrArg Prod.snd heq) hne
      · exact ⟨e.1, List.mem_cons_self, hfirst (p', n) hp'⟩
    · refine ((ih hes).filter _).imp_of_mem fun {m n} _ hn hmn p' hp' => ?_
      have hne := of_decide_eq_true (List.mem_filter.mp hn).2
      rcases List.mem_cons.mp hp' with heq | hp'
      · exact absurd (congrArg Prod.snd heq) hne
      · obtain ⟨p, hp, hlt⟩ := hmn p' hp'
        exact ⟨p, List.mem_cons_of_mem _ hp, hlt⟩

namespace Ring

variable {r : Ring} {ms stay : Finset NodeId} {t : Token} {key : Key} {n m : NodeId} {k : Nat}
  {history : List Change}

def distance (r : Ring) (t : Token) (n : NodeId) : Nat :=
  ((List.range r.perMember).map (fun i => t.clockwise (position n i))).min?.getD 0

theorem distance_spec (hpositive : 0 < r.perMember) (t : Token) (n : NodeId) :
    (∃ i < r.perMember, t.clockwise (position n i) = r.distance t n) ∧
      ∀ i < r.perMember, r.distance t n ≤ t.clockwise (position n i) := by
  have hne : (List.range r.perMember).map (fun i => t.clockwise (position n i)) ≠ [] := by
    simp only [ne_eq, List.map_eq_nil_iff, List.range_eq_nil]
    omega
  obtain ⟨d, hd⟩ := Option.isSome_iff_exists.mp (List.isSome_min?_of_ne_nil hne)
  rw [distance, hd, Option.getD_some]
  obtain ⟨hmem, hle⟩ := List.min?_eq_some_iff.mp hd
  obtain ⟨i, hi, heq⟩ := List.mem_map.mp hmem
  exact ⟨⟨i, List.mem_range.mp hi, heq⟩,
    fun j hj => hle _ (List.mem_map_of_mem (List.mem_range.mpr hj))⟩

def circuit (r : Ring) (t : Token) : List (Token × NodeId) :=
  r.positions.entries.filter (fun e => decide (t < e.1)) ++
    r.positions.entries.filter (fun e => decide (e.1 ≤ t))

theorem mem_circuit {e : Token × NodeId} : e ∈ r.circuit t ↔ r.positions.get? e.1 = some e.2 := by
  rw [← SortedMap.mem_entries_iff, circuit, List.mem_append, List.mem_filter, List.mem_filter, ← and_or_left]
  refine and_iff_left ?_
  by_cases hafter : t < e.1
  · exact .inl (decide_eq_true hafter)
  · exact .inr (decide_eq_true (Std.not_lt.mp hafter))

theorem pairwise_circuit (r : Ring) (t : Token) :
    (r.circuit t).Pairwise (fun e e' => t.clockwise e.1 < t.clockwise e'.1) := by
  have hlt : ∀ e e' : Token × NodeId, e.1 < e'.1 → e.1.toNat < e'.1.toNat := fun _ _ h =>
    UInt64.lt_iff_toNat_lt.mp h
  refine List.pairwise_append.mpr ⟨?_, ?_, fun e he e' he' => ?_⟩
  · refine (r.positions.ascending.filter _).imp_of_mem fun {e e'} he he' h => ?_
    have hafter := of_decide_eq_true (List.mem_filter.mp he).2
    have hafter' := of_decide_eq_true (List.mem_filter.mp he').2
    have := hlt e e' h
    have := UInt64.lt_iff_toNat_lt.mp hafter
    rw [Token.clockwise_of_lt hafter, Token.clockwise_of_lt hafter']
    omega
  · refine (r.positions.ascending.filter _).imp_of_mem fun {e e'} he he' h => ?_
    have hwrapped := of_decide_eq_true (List.mem_filter.mp he).2
    have hwrapped' := of_decide_eq_true (List.mem_filter.mp he').2
    have := hlt e e' h
    have := t.toNat_lt_size
    rw [Token.clockwise_of_le hwrapped, Token.clockwise_of_le hwrapped']
    omega
  · have hafter := of_decide_eq_true (List.mem_filter.mp he).2
    have hwrapped := of_decide_eq_true (List.mem_filter.mp he').2
    have := e.1.toNat_lt_size
    have := UInt64.lt_iff_toNat_lt.mp hafter
    rw [Token.clockwise_of_lt hafter, Token.clockwise_of_le hwrapped]
    omega

def Undisputed (perMember : Nat) (history : List Change) : Prop :=
  ∀ n ∈ membersAfter history, ∀ m ∈ history.map Change.node, m ≠ n →
    ∀ i < perMember, ∀ j < perMember, position m i ≠ position n j

instance (perMember : Nat) (history : List Change) : Decidable (Undisputed perMember history) :=
  inferInstanceAs (Decidable (∀ n ∈ membersAfter history, ∀ m ∈ history.map Change.node, m ≠ n →
    ∀ i < perMember, ∀ j < perMember, position m i ≠ position n j))

theorem Keeps.after (h : r.Keeps ms stay) (hfree : ∀ m ∈ stay, ∀ n ∈ history.map Change.node, n ≠ m →
    ∀ i < r.perMember, ∀ j < r.perMember, position n i ≠ position m j) :
    (r.after history).Keeps (history.foldl Change.update ms) stay := by
  induction history generalizing r ms with
  | nil => exact h
  | cons change history ih =>
    have hstep : (change.apply r).Keeps (change.update ms) stay := by
      cases change with
      | join n => exact h.add fun m hm => hfree m hm n List.mem_cons_self
      | leave n => exact h.remove
    refine ih hstep ?_
    rw [perMember_apply]
    exact fun m hm n hn => hfree m hm n (List.mem_cons_of_mem _ hn)

theorem seatedBy_after (h : Undisputed (max k 1) history) :
    ((empty k).after history).SeatedBy (membersAfter history) :=
  ((Keeps.empty k (membersAfter history)).after h).seatedBy

theorem SeatedBy.pairwise_preference (h : r.SeatedBy ms) (hpositive : 0 < r.perMember) (key : Key) :
    (r.preference key).Pairwise
      (fun m n => r.distance (Token.ofText key) m < r.distance (Token.ofText key) n) := by
  refine (pairwise_firstOccurrences (r.pairwise_circuit (Token.ofText key))).imp_of_mem
    fun {m n} _ hn hmn => ?_
  have hmember : n ∈ ms := (h.mem_preference_iff hpositive).mp hn
  obtain ⟨⟨i, hi, hnearest⟩, -⟩ := distance_spec hpositive (Token.ofText key) n
  obtain ⟨p, hp, hlt⟩ := hmn (position n i) (mem_circuit.mpr ((h.owner _ n).mpr ⟨hmember, i, hi, rfl⟩))
  obtain ⟨-, j, hj, rfl⟩ := (h.owner p m).mp (mem_circuit.mp hp)
  calc
    r.distance (Token.ofText key) m ≤ (Token.ofText key).clockwise (position m j) :=
      (distance_spec hpositive _ m).2 j hj
    _ < (Token.ofText key).clockwise (position n i) := hlt
    _ = r.distance (Token.ofText key) n := hnearest

def meet (limit : Nat) : List NodeId → List NodeId → List NodeId
  | met, [] => met
  | met, n :: ns =>
      if n ∈ met then meet limit met ns
      else if met.length + 1 = limit then met ++ [n]
      else meet limit (met ++ [n]) ns

def walk (r : Ring) (t : Token) (limit : Nat) : List NodeId :=
  let limit := min limit r.nodes.length
  if limit = 0 then [] else meet limit [] (r.turn t)

theorem meet_eq (limit : Nat) (met ns : List NodeId) (h : met.length < limit) :
    meet limit met ns =
      (ns.foldl (fun out n => if n ∈ out then out else out ++ [n]) met).take limit := by
  have hgrows : ∀ ns met : List NodeId,
      met <+: ns.foldl (fun out n => if n ∈ out then out else out ++ [n]) met := by
    intro ns
    induction ns with
    | nil => exact fun _ => List.prefix_rfl
    | cons n ns ih =>
      intro met
      rw [List.foldl_cons]
      split
      · exact ih met
      · exact (List.prefix_append met [n]).trans (ih _)
  induction ns generalizing met with
  | nil => exact (List.take_of_length_le (Nat.le_of_lt h)).symm
  | cons n ns ih =>
    rw [meet, List.foldl_cons]
    split
    · exact ih met h
    · split
      · rename_i hfull
        have hlength : (met ++ [n]).length = limit := by simpa using hfull
        exact hlength ▸ List.prefix_iff_eq_take.mp (hgrows ns (met ++ [n]))
      · exact ih _ (by simp only [List.length_append, List.length_singleton]; omega)

theorem SeatedBy.walk_eq_take (h : r.SeatedBy ms) (hpositive : 0 < r.perMember) (key : Key) (limit : Nat) :
    r.walk (Token.ofText key) limit = (r.preference key).take limit := by
  have hlength := h.length_preference hpositive key
  rw [walk]
  split
  · rename_i hzero
    have hmin : min limit (r.preference key).length = 0 := by rwa [hlength]
    rw [← List.length_eq_zero_iff.mp ((List.length_take ..).trans hmin)]
  · rw [meet_eq _ _ _ (by rw [List.length_nil]; omega), ← hlength]
    exact (List.take_eq_take_min ..).symm

theorem SeatedBy.replicas_eq (h : r.SeatedBy ms) (hpositive : 0 < r.perMember) (key : Key) (limit : Nat) :
    r.replicas key limit =
      if limit ≤ r.nodes.length then .ok ((r.preference key).take limit)
      else .error ⟨limit, r.nodes.length⟩ := by
  have hlength := h.length_preference hpositive key
  rw [replicas, List.length_take, hlength]
  split
  · rw [if_neg (by omega), Nat.min_eq_right (by omega)]
  · rw [if_pos (by omega)]

theorem clockwise_walk_complete (h : Undisputed (max k 1) history) (key : Key) :
    let r := (empty k).after history
    let t := Token.ofText key
    (r.preference key).Nodup ∧ (∀ n, n ∈ r.preference key ↔ n ∈ r.nodes) ∧
      (r.preference key).Pairwise (fun m n => r.distance t m < r.distance t n) ∧
      (∀ limit, r.walk t limit = (r.preference key).take limit) ∧
      ∀ limit, r.replicas key limit =
        if limit ≤ r.nodes.length then .ok ((r.preference key).take limit)
        else .error ⟨limit, r.nodes.length⟩ := by
  intro r t
  have hseated : r.SeatedBy (membersAfter history) := seatedBy_after h
  have hpositive : 0 < r.perMember := by
    rw [show r.perMember = max k 1 from perMember_after]
    omega
  exact ⟨r.nodup_preference key,
    fun n => (hseated.mem_preference_iff hpositive).trans hseated.mem_nodes_iff.symm,
    hseated.pairwise_preference hpositive key, hseated.walk_eq_take hpositive key,
    hseated.replicas_eq hpositive key⟩

theorem taken_position_met_last :
    let r := (empty 1).after [.join "A", .join "B", .leave "B", .join "C", .join "D"]
    let t := Token.ofText "A-0"
    r.preference "A-0" = ["C", "D", "A"] ∧ r.distance t "D" < r.distance t "A" ∧
      r.distance t "A" = UInt64.size ∧ r.walk t 2 = ["C", "D"] ∧
      r.replicas "A-0" 3 = .ok ["C", "D", "A"] ∧ r.replicas "A-0" 4 = .error ⟨4, 3⟩ := by
  intro r t
  have hpreference : r.preference "A-0" = ["C", "D", "A"] := by decide +kernel
  have hnodes : r.nodes.length = 3 := by decide +kernel
  have hundisputed :
      Undisputed (max 1 1) [.join "A", .join "B", .leave "B", .join "C", .join "D"] := by decide +kernel
  obtain ⟨-, -, hsorted, hwalk, hreplicas⟩ := clockwise_walk_complete hundisputed "A-0"
  have hsorted : (r.preference "A-0").Pairwise (fun m n => r.distance t m < r.distance t n) := hsorted
  have hwalk : ∀ limit, r.walk t limit = (r.preference "A-0").take limit := hwalk
  have hreplicas : ∀ limit, r.replicas "A-0" limit =
      if limit ≤ r.nodes.length then .ok ((r.preference "A-0").take limit)
      else .error ⟨limit, r.nodes.length⟩ := hreplicas
  rw [hpreference] at hsorted
  refine ⟨hpreference, ?_, by decide +kernel, ?_, ?_, ?_⟩
  · exact (List.pairwise_cons.mp (List.pairwise_cons.mp hsorted).2).1 "A" (by simp)
  · rw [hwalk, hpreference]
    rfl
  · rw [hreplicas, hnodes, hpreference]
    rfl
  · rw [hreplicas, hnodes]
    rfl

end Ring

end QuorumStore
