import QuorumStore.DigestArena
import QuorumStore.Proofs.DigestContents

namespace QuorumStore

namespace DigestTree

variable {depth : Nat} {es : List DigestEntry}

def under (bit place : Nat) (es : List DigestEntry) : List DigestEntry :=
  es.filter (fun e => decide (e.bucket / 2 ^ bit = place))

theorem under_whole (h : ∀ e ∈ es, e.bucket < 2 ^ depth) : under depth 0 es = es :=
  List.filter_eq_self.mpr fun e he => decide_eq_true (Nat.div_eq_of_lt (h e he))

theorem under_left (bit place : Nat) (es : List DigestEntry) :
    (under (bit + 1) place es).filter (fun e => !e.bucket.testBit bit) = under bit (2 * place) es := by
  rw [under, List.filter_filter]
  refine List.filter_congr fun e _ => ?_
  rw [Nat.testBit_eq_decide_div_mod_eq, Nat.pow_succ, ← Nat.div_div_eq_div_mul, ← decide_not, ← Bool.decide_and,
    decide_eq_decide]
  omega

theorem under_right (bit place : Nat) (es : List DigestEntry) :
    (under (bit + 1) place es).filter (fun e => e.bucket.testBit bit) = under bit (2 * place + 1) es := by
  rw [under, List.filter_filter]
  refine List.filter_congr fun e _ => ?_
  rw [Nat.testBit_eq_decide_div_mod_eq, Nat.pow_succ, ← Nat.div_div_eq_div_mul, ← Bool.decide_and,
    decide_eq_decide]
  omega

theorem build_under (bit place : Nat) (es : List DigestEntry) :
    build (bit + 1) (under (bit + 1) place es) =
      join (build bit (under bit (2 * place) es)) (build bit (under bit (2 * place + 1) es)) := by
  rw [build, under_left, under_right]

end DigestTree

namespace Digest

theorem bucket_placed_lt {depth : Nat} {entries : List (Key × Hash)} :
    ∀ e ∈ placed depth entries, e.bucket < 2 ^ depth := by
  intro e he
  obtain ⟨entry, -, rfl⟩ := List.mem_map.mp he
  exact bucketOf_lt entry.1 depth

end Digest

namespace DigestArena

variable {depth height place k : Nat} {es es' : List DigestEntry} {nodes : Array DigestNode}

def start (depth height : Nat) : Nat := 2 ^ (depth + 1) - 2 ^ (depth + 1 - height)

@[simp] theorem start_zero (depth : Nat) : start depth 0 = 0 := Nat.sub_self _

theorem start_succ (h : height ≤ depth) : start depth (height + 1) = start depth height + 2 ^ (depth - height) := by
  have hbefore : depth + 1 - height = depth - height + 1 := by omega
  have hle : 2 ^ (depth - height + 1) ≤ 2 ^ (depth + 1) := Nat.pow_le_pow_right (by decide) (by omega)
  rw [start, start, hbefore, Nat.add_sub_add_right]
  rw [Nat.pow_succ] at hle ⊢
  omega

theorem width_succ (h : height < depth) : 2 ^ (depth - height) = 2 * 2 ^ (depth - (height + 1)) := by
  rw [← Nat.pow_succ', Nat.succ_eq_add_one, show depth - (height + 1) + 1 = depth - height by omega]

def level (depth height : Nat) : List Nat := List.range' (start depth height) (2 ^ (depth - height))

def nodeAt (depth : Nat) (es : List DigestEntry) : Nat → Nat → DigestNode
  | 0, place => .leaf place (DigestTree.under 0 place es)
  | height + 1, place =>
      .above (start depth height + 2 * place) (start depth height + (2 * place + 1))
        (nodeAt depth es height (2 * place)) (nodeAt depth es height (2 * place + 1))

theorem hash_nodeAt (depth height place : Nat) (es : List DigestEntry) :
    (nodeAt depth es height place).hash = (DigestTree.build height (DigestTree.under height place es)).hash := by
  induction height generalizing place with
  | zero => rfl
  | succ height ih =>
    rw [DigestTree.build_under, nodeAt, DigestNode.above, ih, ih]
    rfl

theorem links_nodeAt (depth height place : Nat) (es es' : List DigestEntry) :
    (nodeAt depth es height place).links = (nodeAt depth es' height place).links := by
  cases height <;> simp only [nodeAt, DigestNode.leaf, DigestNode.above, DigestNode.links]

structure Laid (depth : Nat) (es : List DigestEntry) (height : Nat) (nodes : Array DigestNode) : Prop where
  size : nodes.size = start depth (height + 1)
  found : ∀ k ≤ height, ∀ place < 2 ^ (depth - k),
    nodes[start depth k + place]? = some (nodeAt depth es k place)

theorem pairUp_range' {f : Nat → DigestNode} {s : Nat} (h : ∀ i < 2 * k, nodes[s + i]? = some (f i)) :
    pairUp (List.range' s (2 * k)) nodes =
      some (List.range' nodes.size k, nodes ++ ((List.range k).map fun i =>
        DigestNode.above (s + 2 * i) (s + (2 * i + 1)) (f (2 * i)) (f (2 * i + 1))).toArray) := by
  induction k generalizing s nodes f with
  | zero => simp [pairUp]
  | succ k ih =>
    have hfirst : nodes[s]? = some (f 0) := h 0 (by omega)
    have hsecond : nodes[s + 1]? = some (f 1) := h 1 (by omega)
    have hrest : ∀ i < 2 * k,
        (nodes.push (.above s (s + 1) (f 0) (f 1)))[s + 2 + i]? = some (f (i + 2)) := by
      intro i hi
      have hold : nodes[s + 2 + i]? = some (f (i + 2)) := by
        rw [Nat.add_assoc, Nat.add_comm 2 i]
        exact h (i + 2) (by omega)
      obtain ⟨hlt, -⟩ := Array.getElem?_eq_some_iff.mp hold
      rw [Array.getElem?_push, if_neg (by omega), hold]
    have hshift : ∀ i, s + 2 + i = s + (i + 2) := fun i => by omega
    rw [Nat.mul_succ, List.range'_succ, List.range'_succ, pairUp, hfirst, hsecond]
    simp only [Option.bind_eq_bind, Option.bind_some]
    rw [ih hrest, Option.bind_some, Array.size_push, List.push_append_toArray, List.range'_succ,
      List.range_succ_eq_map]
    simp only [hshift, List.map_cons, List.map_map, Function.comp_def, Nat.succ_eq_add_one, Nat.mul_add_one]
    rfl

theorem Laid.pairUp (h : Laid depth es height nodes) (hlt : height < depth) :
    ∃ nodes', DigestArena.pairUp (level depth height) nodes = some (level depth (height + 1), nodes') ∧
      Laid depth es (height + 1) nodes' := by
  have hhalf := width_succ hlt
  have hrow : ∀ i < 2 * 2 ^ (depth - (height + 1)), nodes[start depth height + i]? =
      some (nodeAt depth es height i) := by
    rw [← hhalf]
    exact h.found height (Nat.le_refl height)
  refine ⟨_, by rw [level, hhalf, pairUp_range' hrow, h.size, ← level], ?_, ?_⟩
  · rw [Array.size_append, h.size, start_succ hlt]
    simp
  · intro k hk place hplace
    by_cases hupper : k = height + 1
    · subst hupper
      rw [Array.getElem?_append_right (by rw [h.size]; omega), h.size, Nat.add_sub_cancel_left]
      simp [hplace, nodeAt]
    · have hfound := h.found k (by omega) place hplace
      obtain ⟨hin, -⟩ := Array.getElem?_eq_some_iff.mp hfound
      rw [Array.getElem?_append_left hin, hfound]

theorem raise_of_pairUp {row upper : List Nat} {grown : Array DigestNode}
    (h : pairUp row nodes = some (upper, grown)) (htwo : 1 < row.length) :
    raise row nodes = raise upper grown := by
  match row, htwo with
  | l :: r :: rest, _ =>
    rw [raise]
    split
    · rename_i hnone
      rw [h] at hnone
      cases hnone
    · rename_i upper' grown' hsome
      rw [h] at hsome
      cases hsome
      rfl

theorem Laid.raise (h : Laid depth es height nodes) (hle : height ≤ depth) :
    ∃ nodes', DigestArena.raise (level depth height) nodes = some (start depth depth, nodes') ∧
      Laid depth es depth nodes' := by
  induction hleft : depth - height generalizing height nodes with
  | zero =>
    obtain rfl : height = depth := by omega
    refine ⟨nodes, ?_, h⟩
    rw [level, Nat.sub_self, Nat.pow_zero, List.range'_one, DigestArena.raise]
  | succ left ih =>
    obtain ⟨upper, hpair, hlaid⟩ := h.pairUp (by omega)
    have htwo : 1 < (level depth height).length := by
      rw [level, List.length_range']
      exact Nat.one_lt_two_pow (by omega)
    rw [raise_of_pairUp hpair htwo]
    exact ih hlaid (by omega) (by omega)

theorem foldlM_deposit {n : Nat} (h : ∀ e ∈ es, e.bucket < n) (g : Nat → List DigestEntry) :
    es.foldlM deposit ((List.range n).map g) =
      some ((List.range n).map fun b => g b ++ es.filter (fun e => decide (e.bucket = b))) := by
  induction es generalizing g with
  | nil => simp
  | cons e es ih =>
    have hbucket : e.bucket < n := h e List.mem_cons_self
    have hput : deposit ((List.range n).map g) e =
        some ((List.range n).map fun b => g b ++ [e].filter (fun e => decide (e.bucket = b))) := by
      rw [deposit, List.getElem?_map, List.getElem?_range hbucket, Option.map_some, Option.map_some]
      refine congrArg some (List.ext_getElem (by simp) fun i hi hi' => ?_)
      rw [List.getElem_set]
      split <;> simp_all
    rw [List.foldlM_cons, hput, Option.bind_eq_bind, Option.bind_some,
      ih (fun e' he' => h e' (List.mem_cons_of_mem _ he'))]
    simp only [List.append_assoc, ← List.filter_append, List.singleton_append]

theorem ofEntries_laid (depth : Nat) (entries : List (Key × Hash)) :
    ∃ nodes, ofEntries depth entries = some ⟨depth, nodes, start depth depth⟩ ∧
      Laid depth (Digest.placed depth entries) depth nodes := by
  have hempty : List.replicate (2 ^ depth) ([] : List DigestEntry) =
      (List.range (2 ^ depth)).map fun _ => [] := by simp
  have hleaves : Laid depth (Digest.placed depth entries) 0
      (((List.range (2 ^ depth)).map fun b => [] ++
        (Digest.placed depth entries).filter (fun e => decide (e.bucket = b))).mapIdx DigestNode.leaf).toArray := by
    constructor
    · rw [start_succ (Nat.zero_le depth), start_zero]
      simp
    · intro k hk place hplace
      obtain rfl : k = 0 := Nat.le_zero.mp hk
      rw [Nat.sub_zero] at hplace
      simp [start_zero, hplace, nodeAt, DigestTree.under]
  obtain ⟨nodes, hraise, hlaid⟩ := hleaves.raise (Nat.zero_le depth)
  refine ⟨nodes, ?_, hlaid⟩
  rw [level, start_zero, Nat.sub_zero, ← List.range_eq_range'] at hraise
  rw [ofEntries, Nat.one_shiftLeft, hempty, ← Digest.placed, foldlM_deposit Digest.bucket_placed_lt]
  simp only [Option.bind_eq_bind, Option.bind_some]
  rw [hraise, Option.bind_some]

theorem descend_laid {nodes' : Array DigestNode} (root root' : Nat) {steps : Nat} (h : Laid depth es depth nodes)
    (h' : Laid depth es' depth nodes') (hle : height ≤ depth) (hplace : place < 2 ^ (depth - height))
    (hsteps : height < steps) :
    descend ⟨depth, nodes, root⟩ ⟨depth, nodes', root'⟩ steps (start depth height + place) =
      some ((DigestTree.build height (DigestTree.under height place es)).diff place
        (DigestTree.build height (DigestTree.under height place es'))) := by
  induction height generalizing place steps with
  | zero =>
    obtain ⟨steps, rfl⟩ := Nat.exists_eq_add_one.mpr hsteps
    rw [descend, h.found 0 hle place hplace, h'.found 0 hle place hplace]
    simp only [Option.bind_eq_bind, Option.bind_some]
    rw [nodeAt, nodeAt, DigestTree.build, DigestTree.build, DigestTree.diff, DigestNode.leaf, DigestNode.leaf]
    split <;> rfl
  | succ height ih =>
    obtain ⟨steps, rfl⟩ := Nat.exists_eq_add_one.mpr (Nat.zero_lt_of_lt hsteps)
    have hwidth := width_succ hle
    rw [descend, h.found _ hle place hplace, h'.found _ hle place hplace]
    simp only [Option.bind_eq_bind, Option.bind_some]
    rw [hash_nodeAt, hash_nodeAt, DigestTree.diff_build]
    split
    · rfl
    · simp only [nodeAt, DigestNode.above]
      rw [ih (by omega) (by omega) (by omega), ih (by omega) (by omega) (by omega), DigestTree.under_left,
        DigestTree.under_right, DigestTree.under_left, DigestTree.under_right]
      rfl

theorem exists_place {i : Nat} (h : i < start depth (height + 1)) (hle : height ≤ depth) :
    ∃ k ≤ height, ∃ place < 2 ^ (depth - k), i = start depth k + place := by
  induction height with
  | zero =>
    rw [start_succ hle, start_zero, Nat.zero_add] at h
    exact ⟨0, Nat.le_refl 0, i, h, by rw [start_zero, Nat.zero_add]⟩
  | succ height ih =>
    by_cases hlower : i < start depth (height + 1)
    · obtain ⟨k, hk, hplace⟩ := ih hlower (by omega)
      exact ⟨k, by omega, hplace⟩
    · rw [start_succ hle] at h
      exact ⟨height + 1, Nat.le_refl _, i - start depth (height + 1), by omega, by omega⟩

@[simp] theorem start_full (depth : Nat) : start depth (depth + 1) = 2 ^ (depth + 1) - 1 := by
  rw [start, Nat.sub_self, Nat.pow_zero]

theorem Laid.links_eq {nodes' : Array DigestNode} (h : Laid depth es depth nodes)
    (h' : Laid depth es' depth nodes') : nodes.map DigestNode.links = nodes'.map DigestNode.links := by
  refine Array.ext (by rw [Array.size_map, Array.size_map, h.size, h'.size]) fun i hi _ => ?_
  rw [Array.size_map, h.size] at hi
  obtain ⟨k, hk, place, hplace, rfl⟩ := exists_place hi (Nat.le_refl depth)
  obtain ⟨hin, hnode⟩ := Array.getElem?_eq_some_iff.mp (h.found k hk place hplace)
  obtain ⟨hin', hnode'⟩ := Array.getElem?_eq_some_iff.mp (h'.found k hk place hplace)
  rw [Array.getElem_map, Array.getElem_map, hnode, hnode', links_nodeAt]

theorem Laid.rootHash?_eq (h : Laid depth es depth nodes) (hbucket : ∀ e ∈ es, e.bucket < 2 ^ depth) :
    rootHash? ⟨depth, nodes, start depth depth⟩ = some (DigestTree.build depth es).hash := by
  rw [rootHash?, ← Nat.add_zero (start depth depth), h.found depth (Nat.le_refl depth) 0 (Nat.two_pow_pos _),
    Option.map_some, hash_nodeAt, DigestTree.under_whole hbucket]

theorem Laid.leaf (h : Laid depth es depth nodes) {b : Nat} (hb : b < 2 ^ depth) :
    nodes[b]? = some (.leaf b (es.filter (fun e => decide (e.bucket = b)))) := by
  have hfound := h.found 0 (Nat.zero_le depth) b hb
  simpa [start_zero, nodeAt, DigestTree.under] using hfound

theorem leaf_hash_eq_iff {nodes' : Array DigestNode} {b : Nat} (h : Laid depth es depth nodes)
    (h' : Laid depth es' depth nodes') (hbucket : ∀ e ∈ es, e.bucket < 2 ^ depth)
    (hbucket' : ∀ e ∈ es', e.bucket < 2 ^ depth) (hb : b < 2 ^ depth) :
    nodes[b]?.map DigestNode.hash = nodes'[b]?.map DigestNode.hash ↔ DigestTree.Agree depth es es' b := by
  have hmod : ∀ {es : List DigestEntry}, (∀ e ∈ es, e.bucket < 2 ^ depth) →
      DigestTree.inBucket depth b es = es.filter (fun e => decide (e.bucket = b)) := by
    intro es hes
    exact List.filter_congr fun e he => by rw [Nat.mod_eq_of_lt (hes e he)]
  rw [h.leaf hb, h'.leaf hb, DigestTree.Agree, hmod hbucket, hmod hbucket', Option.map_some, Option.map_some,
    Option.some_inj, DigestNode.leaf, DigestNode.leaf]

theorem pruned_diff_exact (depth : Nat) (entries entries' : List (Key × Hash)) :
    ∃ a b, ofEntries depth entries = some a ∧ ofEntries depth entries' = some b ∧
      a.nodes.size = 2 ^ (depth + 1) - 1 ∧ b.nodes.size = 2 ^ (depth + 1) - 1 ∧
      a.nodes.map DigestNode.links = b.nodes.map DigestNode.links ∧ a.root = b.root ∧
      a.rootHash? = some (Digest.ofEntries depth entries).root ∧
      b.rootHash? = some (Digest.ofEntries depth entries').root ∧
      a.diff b = some ((Digest.ofEntries depth entries).diff (Digest.ofEntries depth entries')) ∧
      (∀ i < 2 ^ depth,
        a.nodes[i]? = some (.leaf i ((Digest.placed depth entries).filter (fun e => decide (e.bucket = i)))) ∧
        b.nodes[i]? = some (.leaf i ((Digest.placed depth entries').filter (fun e => decide (e.bucket = i))))) ∧
      ((∀ p ∈ DigestTree.childHashes depth (Digest.placed depth entries),
          ∀ q ∈ DigestTree.childHashes depth (Digest.placed depth entries'),
            DigestTree.joinHash p.1 p.2 = DigestTree.joinHash q.1 q.2 → p = q) →
        a.diff b = some ((List.range (2 ^ depth)).filter fun i =>
          !decide (a.nodes[i]?.map DigestNode.hash = b.nodes[i]?.map DigestNode.hash)) ∧
        (a.diff b = some [] ↔ a.rootHash? = b.rootHash?)) := by
  obtain ⟨nodes, ha, hlaid⟩ := ofEntries_laid depth entries
  obtain ⟨nodes', hb, hlaid'⟩ := ofEntries_laid depth entries'
  have hroot := hlaid.rootHash?_eq Digest.bucket_placed_lt
  have hroot' := hlaid'.rootHash?_eq Digest.bucket_placed_lt
  have hdiff : diff ⟨depth, nodes, start depth depth⟩ ⟨depth, nodes', start depth depth⟩ =
      some ((Digest.ofEntries depth entries).diff (Digest.ofEntries depth entries')) := by
    have hsteps : depth < nodes.size := by
      have := Nat.lt_two_pow_self (n := depth + 1)
      rw [hlaid.size, start_full]
      omega
    have hwhole := descend_laid (start depth depth) (start depth depth) hlaid hlaid'
      (Nat.le_refl depth) (Nat.two_pow_pos _) hsteps
    rw [DigestTree.under_whole Digest.bucket_placed_lt, DigestTree.under_whole Digest.bucket_placed_lt,
      Nat.add_zero] at hwhole
    rw [diff, if_pos rfl, hwhole, Digest.diff, Digest.ofEntries, Digest.ofEntries, if_pos rfl]
    rfl
  refine ⟨_, _, ha, hb, ?_, ?_, hlaid.links_eq hlaid', rfl, hroot, hroot', hdiff,
    fun i hi => ⟨hlaid.leaf hi, hlaid'.leaf hi⟩, fun hapart => ?_⟩
  · rw [hlaid.size, start_full]
  · rw [hlaid'.size, start_full]
  · have hjoins := DigestTree.joinsApart_of_children hapart
    have hagree : ∀ i < 2 ^ depth, nodes[i]?.map DigestNode.hash = nodes'[i]?.map DigestNode.hash ↔
        DigestTree.Agree depth (Digest.placed depth entries) (Digest.placed depth entries') i :=
      fun i hi => leaf_hash_eq_iff hlaid hlaid' Digest.bucket_placed_lt Digest.bucket_placed_lt hi
    have hscan : (Digest.ofEntries depth entries).diff (Digest.ofEntries depth entries') =
        (List.range (2 ^ depth)).filter fun i =>
          !decide (nodes[i]?.map DigestNode.hash = nodes'[i]?.map DigestNode.hash) := by
      have hfound := DigestTree.diff_eq_filter hjoins 0
      simp only [Nat.zero_mul, Nat.zero_add, List.map_id'] at hfound
      rw [Digest.diff, Digest.ofEntries, Digest.ofEntries, if_pos rfl]
      refine hfound.trans (List.filter_congr fun i hi => ?_)
      rw [decide_eq_decide.mpr (hagree i (List.mem_range.mp hi))]
    refine ⟨by rw [hdiff, hscan], ?_⟩
    rw [hdiff, hscan, hroot, hroot', Option.some_inj, Option.some_inj, List.filter_eq_nil_iff]
    refine Iff.trans ?_ (DigestTree.hash_build_eq_iff hjoins).symm
    refine forall_congr' fun i => ?_
    rw [List.mem_range]
    refine forall_congr' fun hi => ?_
    rw [Bool.not_eq_true', decide_eq_false_iff_not, not_not, hagree i hi]

theorem array_finds_removed_key : ∃ a b found, ofEntries 2 Resemblance.twoKeys = some a ∧
    ofEntries 2 Resemblance.oneRemoved = some b ∧ a.nodes.size = 7 ∧ a.diff b = some found ∧
    bucketOf "b" 2 ∈ found ∧ a.rootHash? ≠ b.rootHash? := by
  obtain ⟨a, b, ha, hb, hsize, -, -, -, -, -, -, hleaf, hexact⟩ :=
    pruned_diff_exact 2 Resemblance.twoKeys Resemblance.oneRemoved
  obtain ⟨hdiff, hroot⟩ := hexact (by decide +kernel)
  obtain ⟨hleafA, hleafB⟩ := hleaf (bucketOf "b" 2) (by decide +kernel)
  have hmem : bucketOf "b" 2 ∈ (List.range (2 ^ 2)).filter fun i =>
      !decide (a.nodes[i]?.map DigestNode.hash = b.nodes[i]?.map DigestNode.hash) := by
    rw [List.mem_filter, hleafA, hleafB]
    decide +kernel
  refine ⟨a, b, _, ha, hb, hsize, hdiff, hmem, fun heq => ?_⟩
  rw [hdiff] at hroot
  exact List.ne_nil_of_mem hmem (Option.some_inj.mp (hroot.mpr heq))

end DigestArena

end QuorumStore
