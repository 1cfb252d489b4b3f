import Mathlib.Combinatorics.Hindman
import Mathlib.Data.PNat.Basic
import QuorumStore.Proofs.DigestDiff
import QuorumStore.Proofs.HashedText

namespace QuorumStore

namespace DigestEntry

variable {keys : Set Key} {depth : Nat} {es es' : List DigestEntry}

def Placed (keys : Set Key) (depth : Nat) (e : DigestEntry) : Prop :=
  e.key ∈ keys ∧ e.bucket = bucketOf e.key depth

theorem message_ne_nil (e : DigestEntry) : e.message ≠ [] := by
  rw [message]
  exact List.append_ne_nil_of_right_ne_nil _ (List.cons_ne_nil _ _)

theorem selfDelimiting_message (hparted : Parted keys) : SelfDelimiting (Placed keys depth) message := by
  intro e e' he he' x y h
  simp only [message, List.append_assoc, List.cons_append] at h
  obtain ⟨hkey, htail⟩ := hparted.eq_of_terminated he.1 he'.1 h
  obtain ⟨hbytes, hrest⟩ := List.append_inj htail rfl
  refine ⟨?_, hrest⟩
  have hhash := Hash.bytes_injective hbytes
  have hbucket : e.bucket = e'.bucket := by rw [he.2, he'.2, hkey]
  cases e
  cases e'
  congr

theorem perm_of_bucketMessage (hparted : Parted keys) (hes : ∀ e ∈ es, e.Placed keys depth)
    (hes' : ∀ e ∈ es', e.Placed keys depth) (h : bucketMessage es = bucketMessage es') : es.Perm es' := by
  have hsorted := (selfDelimiting_message hparted).flatMap_injective message_ne_nil
    (fun e he => hes e ((sortBy_perm _ es).mem_iff.mp he))
    (fun e he => hes' e ((sortBy_perm _ es').mem_iff.mp he)) h
  have hes' := sortBy_perm (fun a b : DigestEntry => decide (a.key ≤ b.key)) es'
  rw [← hsorted] at hes'
  exact (sortBy_perm _ es).symm.trans hes'

end DigestEntry

namespace DigestTree

variable {depth : Nat} {es es' : List DigestEntry}

structure TextsApart (depth : Nat) (es es' : List DigestEntry) : Prop where
  joins : JoinsApart depth es es'
  buckets : ∀ b < 2 ^ depth, Agree depth es es' b →
    DigestEntry.bucketMessage (inBucket depth b es) = DigestEntry.bucketMessage (inBucket depth b es')

def hashedTexts : Nat → List DigestEntry → List Bytes
  | 0, es => if es.isEmpty then [] else [DigestEntry.bucketMessage es]
  | depth + 1, es =>
      let left := es.filter (fun e => !e.bucket.testBit depth)
      let right := es.filter (fun e => e.bucket.testBit depth)
      let l := (build depth left).hash
      let r := (build depth right).hash
      (if l = Hash.zero ∧ r = Hash.zero then [] else [l.bytes ++ r.bytes]) ++
        (hashedTexts depth left ++ hashedTexts depth right)

theorem joinHash_injective {l r l' r' : Hash} {texts : List Bytes}
    (hinj : ∀ m ∈ texts, ∀ m' ∈ texts, Sha1.hash m = Sha1.hash m' → m = m')
    (hzero : ∀ m ∈ texts, Sha1.hash m ≠ Hash.zero)
    (h : (if l = Hash.zero ∧ r = Hash.zero then [] else [l.bytes ++ r.bytes]) ⊆ texts)
    (h' : (if l' = Hash.zero ∧ r' = Hash.zero then [] else [l'.bytes ++ r'.bytes]) ⊆ texts)
    (heq : joinHash l r = joinHash l' r') : l = l' ∧ r = r' := by
  unfold joinHash at heq
  split at heq <;> split at heq <;> rename_i hl hl'
  · exact ⟨hl.1.trans hl'.1.symm, hl.2.trans hl'.2.symm⟩
  · rw [if_neg hl'] at h'
    exact absurd heq.symm (hzero _ (h' (List.mem_singleton_self _)))
  · rw [if_neg hl] at h
    exact absurd heq (hzero _ (h (List.mem_singleton_self _)))
  · rw [if_neg hl] at h
    rw [if_neg hl'] at h'
    have hbytes := hinj _ (h (List.mem_singleton_self _)) _ (h' (List.mem_singleton_self _)) heq
    obtain ⟨hleft, hright⟩ := List.append_inj hbytes rfl
    exact ⟨Hash.bytes_injective hleft, Hash.bytes_injective hright⟩

theorem joinsApart_of_texts {texts : List Bytes}
    (hinj : ∀ m ∈ texts, ∀ m' ∈ texts, Sha1.hash m = Sha1.hash m' → m = m')
    (hzero : ∀ m ∈ texts, Sha1.hash m ≠ Hash.zero) (h : hashedTexts depth es ⊆ texts)
    (h' : hashedTexts depth es' ⊆ texts) : JoinsApart depth es es' := by
  induction depth generalizing es es' with
  | zero => trivial
  | succ depth ih =>
    obtain ⟨hjoin, hbelow⟩ := List.append_subset.mp h
    obtain ⟨hleft, hright⟩ := List.append_subset.mp hbelow
    obtain ⟨hjoin', hbelow'⟩ := List.append_subset.mp h'
    obtain ⟨hleft', hright'⟩ := List.append_subset.mp hbelow'
    exact ⟨joinHash_injective hinj hzero hjoin hjoin', ih hleft hleft', ih hright hright'⟩

theorem mem_hashedTexts {b : Nat} (hb : b < 2 ^ depth) (h : inBucket depth b es ≠ []) :
    DigestEntry.bucketMessage (inBucket depth b es) ∈ hashedTexts depth es := by
  induction depth generalizing b es with
  | zero =>
    obtain rfl : b = 0 := by omega
    rw [inBucket_zero] at h ⊢
    rw [hashedTexts, if_neg (by simpa using h)]
    exact List.mem_singleton_self _
  | succ depth ih =>
    by_cases hlt : b < 2 ^ depth
    · rw [← inBucket_left hlt] at h ⊢
      exact List.mem_append_right _ (List.mem_append_left _ (ih hlt h))
    · obtain ⟨c, rfl⟩ := Nat.exists_eq_add_of_le (Nat.le_of_not_lt hlt)
      rw [← inBucket_right] at h ⊢
      rw [Nat.pow_succ] at hb
      exact List.mem_append_right _ (List.mem_append_right _ (ih (by omega) h))

theorem textsApart_of_texts
    (hinj : ∀ m ∈ hashedTexts depth es ++ hashedTexts depth es',
      ∀ m' ∈ hashedTexts depth es ++ hashedTexts depth es', Sha1.hash m = Sha1.hash m' → m = m')
    (hzero : ∀ m ∈ hashedTexts depth es ++ hashedTexts depth es', Sha1.hash m ≠ Hash.zero) :
    TextsApart depth es es' := by
  have hleft := List.subset_append_left (hashedTexts depth es) (hashedTexts depth es')
  have hright := List.subset_append_right (hashedTexts depth es) (hashedTexts depth es')
  refine ⟨joinsApart_of_texts hinj hzero hleft hright, fun b hb hagree => ?_⟩
  rw [Agree, DigestEntry.bucketHash, DigestEntry.bucketHash] at hagree
  split at hagree <;> split at hagree <;> rename_i he he'
  · rw [List.isEmpty_iff.mp he, List.isEmpty_iff.mp he']
  · have hmem := hright (mem_hashedTexts hb (by simpa using he'))
    exact absurd hagree.symm (hzero _ hmem)
  · have hmem := hleft (mem_hashedTexts hb (by simpa using he))
    exact absurd hagree (hzero _ hmem)
  · exact hinj _ (hleft (mem_hashedTexts hb (by simpa using he))) _
      (hright (mem_hashedTexts hb (by simpa using he'))) hagree

theorem joinsApart_of_agree (h : ∀ b < 2 ^ depth, Agree depth es es' b) : JoinsApart depth es es' := by
  induction depth generalizing es es' with
  | zero => trivial
  | succ depth ih =>
    obtain ⟨hleft, hright⟩ := agree_succ_iff.mp h
    refine ⟨fun _ => ⟨?_, ?_⟩, ih hleft, ih hright⟩
    · rw [build_eq_of_agree hleft]
    · rw [build_eq_of_agree hright]

end DigestTree

namespace DigestEntry

variable {es es' : List DigestEntry}

theorem bucketMessage_perm (hkeys : (es.map key).Nodup) (h : es.Perm es') :
    bucketMessage es = bucketMessage es' := by
  rw [bucketMessage, bucketMessage, sortBy_eq_of_perm _ _ _ h]
  · intro a b
    simpa only [decide_eq_true_eq] using Std.le_total
  · intro a b c
    simpa only [decide_eq_true_eq] using Std.le_trans
  · intro a ha b hb hab hba
    simp only [decide_eq_true_eq] at hab hba
    exact List.inj_on_of_nodup_map hkeys ha hb (Std.le_antisymm hab hba)

theorem bucketHash_perm (hkeys : (es.map key).Nodup) (h : es.Perm es') :
    bucketHash es = bucketHash es' := by
  rw [bucketHash, bucketHash, bucketMessage_perm hkeys h, h.isEmpty_eq]

theorem bucketMessage_eq_replicate {es : List DigestEntry} {n : Nat} {b : UInt8}
    (h : es.flatMap message = List.replicate n b) : bucketMessage es = List.replicate n b := by
  rw [← List.perm_replicate, ← h]
  exact (sortBy_perm _ es).flatMap_right _

end DigestEntry

def nulls (n : Nat) : Key := String.ofList (List.replicate n '\x00')

theorem utf8_nulls (n : Nat) : utf8 (nulls n) = List.replicate n 0 := by
  rw [nulls, utf8_ofList]
  induction n with
  | zero => rfl
  | succ n ih =>
    rw [List.replicate_succ, List.flatMap_cons, ih]
    rfl

theorem nulls_injective {m n : Nat} (h : nulls m = nulls n) : m = n := by
  have hlength := congrArg (fun key => (utf8 key).length) h
  simpa only [utf8_nulls, List.length_replicate] using hlength

theorem exists_add_same_color {bound : Nat} (color : ℕ+ → Nat) (hcolor : ∀ n, color n < bound) :
    ∃ m n, m ≠ n ∧ color m = color (m + n) ∧ color n = color (m + n) := by
  obtain ⟨_, ⟨i, rfl⟩, a, ha⟩ := Hindman.exists_FS_of_finite_cover
    (Set.range fun i : Fin bound => {n | color n = i}) (Set.finite_range _)
    fun n _ => ⟨_, ⟨⟨color n, hcolor n⟩, rfl⟩, rfl⟩
  have hsum : ∀ m ∈ Hindman.FS a.tail, color a.head = color (a.head + m) ∧ color m = color (a.head + m) := by
    intro m hm
    have hm' : color m = i := ha (.tail' a m hm)
    have hadd : color (a.head + m) = i := ha (.cons' a m hm)
    have hhead : color a.head = i := ha (.head' a)
    exact ⟨hhead.trans hadd.symm, hm'.trans hadd.symm⟩
  by_cases h : a.head = a.tail.head
  · refine ⟨a.head, a.tail.head + a.tail.tail.head, ?_, hsum _ (.cons' _ _ (.head' _))⟩
    rw [← h]
    exact (PNat.lt_add_right _ _).ne
  · exact ⟨a.head, a.tail.head, h, hsum _ (.head' _)⟩

namespace Digest

variable {depth : Nat} {es es' fs : List (Key × Hash)} {keys : Set Key}

def placed (depth : Nat) (entries : List (Key × Hash)) : List DigestEntry :=
  entries.map (fun e => ⟨bucketOf e.1 depth, e.1, e.2⟩)

structure Faithful (depth : Nat) (es es' : List (Key × Hash)) : Prop where
  order : ∀ fs, fs.Perm es → ofEntries depth fs = ofEntries depth es
  order' : ∀ fs, fs.Perm es' → ofEntries depth fs = ofEntries depth es'
  root : (ofEntries depth es).root = (ofEntries depth es').root ↔ ∀ e, e ∈ es ↔ e ∈ es'
  mem_diff : ∀ b, b ∈ (ofEntries depth es).diff (ofEntries depth es') ↔
    ∃ e : Key × Hash, bucketOf e.1 depth = b ∧ ¬ (e ∈ es ↔ e ∈ es')
  ascending : ((ofEntries depth es).diff (ofEntries depth es')).Pairwise (· < ·)

theorem bucketOf_lt (key : Key) (depth : Nat) : bucketOf key depth < 2 ^ depth := by
  rw [bucketOf]
  by_cases h : depth ≤ 64
  · rw [← Nat.one_shiftLeft]
    exact Token.bucket_lt _ h
  · have hlt := (Token.ofText key).toNat_lt
    rw [Token.bucket, Nat.sub_eq_zero_of_le (by omega), Nat.shiftRight_zero]
    exact Nat.lt_of_lt_of_le hlt (Nat.pow_le_pow_right (by decide) (by omega))

theorem mem_inBucket_placed {b : Nat} {d : DigestEntry} :
    d ∈ DigestTree.inBucket depth b (placed depth es) ↔
      (d.key, d.hash) ∈ es ∧ d.bucket = bucketOf d.key depth ∧ d.bucket = b := by
  rw [DigestTree.mem_inBucket, placed, List.mem_map]
  constructor
  · rintro ⟨⟨e, he, rfl⟩, hb⟩
    exact ⟨he, rfl, by rwa [Nat.mod_eq_of_lt (bucketOf_lt e.1 depth)] at hb⟩
  · rintro ⟨he, hbucket, rfl⟩
    refine ⟨⟨_, he, by rw [← hbucket]⟩, Nat.mod_eq_of_lt ?_⟩
    rw [hbucket]
    exact bucketOf_lt d.key depth

theorem map_key_placed (depth : Nat) (es : List (Key × Hash)) :
    (placed depth es).map DigestEntry.key = es.map Prod.fst := by
  rw [placed, List.map_map]
  rfl

theorem nodup_keys_inBucket (hkeys : (es.map Prod.fst).Nodup) (b : Nat) :
    ((DigestTree.inBucket depth b (placed depth es)).map DigestEntry.key).Nodup := by
  rw [← map_key_placed depth] at hkeys
  exact hkeys.sublist (List.filter_sublist.map _)

theorem ofEntries_perm (hkeys : (es.map Prod.fst).Nodup) (h : fs.Perm es) :
    ofEntries depth fs = ofEntries depth es := by
  have htree : DigestTree.build depth (placed depth es) = DigestTree.build depth (placed depth fs) := by
    refine DigestTree.build_eq_of_agree fun b _ => ?_
    exact DigestEntry.bucketHash_perm (nodup_keys_inBucket hkeys b) ((h.symm.map _).filter _)
  exact congrArg (Digest.mk depth) htree.symm

theorem agree_iff (hparted : Parted keys) (hes : ∀ e ∈ es, e.1 ∈ keys) (hes' : ∀ e ∈ es', e.1 ∈ keys)
    (hnodup : (es.map Prod.fst).Nodup) (hnodup' : (es'.map Prod.fst).Nodup)
    (hapart : DigestTree.TextsApart depth (placed depth es) (placed depth es')) {b : Nat}
    (hb : b < 2 ^ depth) : DigestTree.Agree depth (placed depth es) (placed depth es') b ↔
      ∀ e : Key × Hash, bucketOf e.1 depth = b → (e ∈ es ↔ e ∈ es') := by
  have hplaced : ∀ {fs : List (Key × Hash)}, (∀ e ∈ fs, e.1 ∈ keys) →
      ∀ d ∈ DigestTree.inBucket depth b (placed depth fs), d.Placed keys depth := by
    intro fs hfs d hd
    obtain ⟨hmem, hbucket, -⟩ := mem_inBucket_placed.mp hd
    exact ⟨hfs _ hmem, hbucket⟩
  constructor
  · intro hagree e he
    have hperm := DigestEntry.perm_of_bucketMessage hparted (hplaced hes) (hplaced hes')
      (hapart.buckets b hb hagree)
    have hmem := hperm.mem_iff (a := ⟨bucketOf e.1 depth, e.1, e.2⟩)
    simpa [mem_inBucket_placed, he] using hmem
  · intro hsame
    -- No key stands twice in a bucket, so two lists with the same entries differ in their order only.
    refine DigestEntry.bucketHash_perm (nodup_keys_inBucket hnodup b) ?_
    refine (List.perm_ext_iff_of_nodup (nodup_keys_inBucket hnodup b).of_map
      (nodup_keys_inBucket hnodup' b).of_map).mpr fun d => ?_
    rw [mem_inBucket_placed, mem_inBucket_placed]
    refine and_congr_left fun hd => hsame _ ?_
    exact hd.1.symm.trans hd.2

theorem faithful_of_parted (hparted : Parted keys) (hes : ∀ e ∈ es, e.1 ∈ keys)
    (hes' : ∀ e ∈ es', e.1 ∈ keys) (hnodup : (es.map Prod.fst).Nodup)
    (hnodup' : (es'.map Prod.fst).Nodup)
    (hapart : DigestTree.TextsApart depth (placed depth es) (placed depth es')) : Faithful depth es es' := by
  -- The roots and the descent both speak of the buckets that agree, and so of the entries in them.
  have hagree := fun b hb => agree_iff hparted hes hes' hnodup hnodup' hapart (b := b) hb
  have hdiff : (ofEntries depth es).diff (ofEntries depth es') =
      ((List.range (2 ^ depth)).filter (fun b =>
        !decide (DigestTree.Agree depth (placed depth es) (placed depth es') b))).map
          (0 * 2 ^ depth + ·) := by
    rw [diff, if_pos (show (ofEntries depth es).depth = (ofEntries depth es').depth from rfl)]
    exact DigestTree.diff_eq_filter hapart.joins 0
  simp only [Nat.zero_mul, Nat.zero_add, List.map_id'] at hdiff
  refine ⟨fun _ => ofEntries_perm hnodup, fun _ => ofEntries_perm hnodup', ?_, fun b => ?_, ?_⟩
  · refine (DigestTree.hash_build_eq_iff hapart.joins).trans ⟨fun h e => ?_, fun h b hb => ?_⟩
    · exact (hagree _ (bucketOf_lt e.1 depth)).mp (h _ (bucketOf_lt e.1 depth)) e rfl
    · exact (hagree b hb).mpr fun e _ => h e
  · rw [hdiff, List.mem_filter, List.mem_range]
    constructor
    · rintro ⟨hb, hnot⟩
      have hnot : ¬ ∀ e : Key × Hash, bucketOf e.1 depth = b → (e ∈ es ↔ e ∈ es') := by
        rw [← hagree b hb]
        simpa using hnot
      obtain ⟨e, he⟩ := not_forall.mp hnot
      exact ⟨e, Classical.not_imp.mp he⟩
    · rintro ⟨e, rfl, he⟩
      refine ⟨bucketOf_lt e.1 depth, ?_⟩
      rw [Bool.not_eq_true', decide_eq_false_iff_not, hagree _ (bucketOf_lt e.1 depth)]
      exact fun h => he (h e rfl)
  · rw [hdiff]
    exact List.pairwise_lt_range.filter _

def blank (n : ℕ+) : Key × Hash := (nulls (21 * n.natPred), Hash.zero)

theorem message_blank (n : ℕ+) (bucket : Nat) :
    DigestEntry.message ⟨bucket, (blank n).1, (blank n).2⟩ = List.replicate (21 * n) 0 := by
  have hzero : 0 :: Hash.zero.bytes = List.replicate 21 0 := by decide
  rw [DigestEntry.message]
  change utf8 (nulls _) ++ 0 :: Hash.zero.bytes = _
  rw [utf8_nulls, hzero, List.replicate_append_replicate]
  congr 1
  have hn := n.natPred_add_one
  omega

theorem blank_injective {m n : ℕ+} (h : (blank m).1 = (blank n).1) : m = n := by
  have hlength := nulls_injective h
  refine PNat.natPred_injective ?_
  omega

theorem bucketMessage_blank (depth : Nat) (ns : List ℕ+) :
    DigestEntry.bucketMessage (placed depth (ns.map blank)) =
      List.replicate (21 * (ns.map PNat.val).sum) 0 := by
  refine DigestEntry.bucketMessage_eq_replicate ?_
  induction ns with
  | nil => rfl
  | cons n ns ih =>
    rw [placed] at ih ⊢
    rw [List.map_cons, List.map_cons, List.flatMap_cons, ih, message_blank, List.map_cons, List.sum_cons,
      List.replicate_append_replicate, Nat.mul_add]

theorem inBucket_eq_self_or_nil (depth : Nat) (es : List (Key × Hash)) {c : Nat}
    (h : ∀ e ∈ es, bucketOf e.1 depth = c) (b : Nat) :
    DigestTree.inBucket depth b (placed depth es) = if b = c then placed depth es else [] := by
  split
  · rename_i hb
    refine List.filter_eq_self.mpr ?_
    rintro _ hd
    obtain ⟨e, he, rfl⟩ := List.mem_map.mp hd
    rw [decide_eq_true_eq, Nat.mod_eq_of_lt (bucketOf_lt _ _), h e he, hb]
  · rename_i hb
    refine List.filter_eq_nil_iff.mpr ?_
    rintro _ hd
    obtain ⟨e, he, rfl⟩ := List.mem_map.mp hd
    rw [decide_eq_true_eq, Nat.mod_eq_of_lt (bucketOf_lt _ _), h e he]
    exact fun hcb => hb hcb.symm

theorem exists_not_faithful (depth : Nat) : ∃ es es' : List (Key × Hash),
    (∀ e ∈ es ++ es', ∀ c ∈ e.1.toList, c = '\x00') ∧ (es.map Prod.fst).Nodup ∧
      (es'.map Prod.fst).Nodup ∧ DigestTree.TextsApart depth (placed depth es) (placed depth es') ∧
      ¬ Faithful depth es es' := by
  -- Nothing is known of the bucket of a key, so numbers are looked for whose entries share one.
  obtain ⟨m, n, hmn, hm, hn⟩ := exists_add_same_color (fun n => bucketOf (blank n).1 depth)
    (fun n => bucketOf_lt _ _)
  have hpair := inBucket_eq_self_or_nil depth [blank m, blank n]
    (List.forall_mem_cons.mpr ⟨hm, List.forall_mem_singleton.mpr hn⟩)
  have hsum := inBucket_eq_self_or_nil depth [blank (m + n)]
    (List.forall_mem_singleton.mpr rfl)
  have htexts : DigestEntry.bucketMessage (placed depth [blank m, blank n]) =
      DigestEntry.bucketMessage (placed depth [blank (m + n)]) := by
    have hm := bucketMessage_blank depth [m, n]
    have hn := bucketMessage_blank depth [m + n]
    simpa using hm.trans hn.symm
  have hagree : ∀ b < 2 ^ depth,
      DigestTree.Agree depth (placed depth [blank m, blank n]) (placed depth [blank (m + n)]) b := by
    intro b _
    rw [DigestTree.Agree, hpair, hsum]
    split
    · exact congrArg Sha1.hash htexts
    · rfl
  refine ⟨[blank m, blank n], [blank (m + n)], ?_, ?_, ?_,
    ⟨DigestTree.joinsApart_of_agree hagree, fun b _ _ => ?_⟩, ?_⟩
  · have hblank : ∀ n, ∀ c ∈ (blank n).1.toList, c = '\x00' := by
      intro n c hc
      rw [blank, nulls, String.toList_ofList] at hc
      exact List.eq_of_mem_replicate hc
    simp only [List.cons_append, List.nil_append, List.forall_mem_cons]
    exact ⟨hblank m, hblank n, hblank (m + n), List.forall_mem_nil _⟩
  · refine List.nodup_cons.mpr ⟨fun h => hmn ?_, List.nodup_singleton _⟩
    exact blank_injective (List.mem_singleton.mp h)
  · exact List.nodup_singleton _
  · rw [hpair, hsum]
    split
    · exact htexts
    · rfl
  · intro h
    have hroot := h.root.mp (congrArg DigestTree.hash (DigestTree.build_eq_of_agree hagree))
    have hmem := List.mem_singleton.mp ((hroot (blank m)).mp (List.mem_cons_self ..))
    exact (PNat.lt_add_right m n).ne (blank_injective (congrArg Prod.fst hmem))

theorem digests_faithful_iff (depth : Nat) (alphabet : Set Char) :
    (∀ es es' : List (Key × Hash), (∀ e ∈ es ++ es', ∀ c ∈ e.1.toList, c ∈ alphabet) →
        (es.map Prod.fst).Nodup → (es'.map Prod.fst).Nodup →
        DigestTree.TextsApart depth (placed depth es) (placed depth es') → Faithful depth es es') ↔
      '\x00' ∉ alphabet := by
  constructor
  · intro h hzero
    obtain ⟨es, es', hchars, hnodup, hnodup', hapart, hnot⟩ := exists_not_faithful depth
    exact hnot (h es es' (fun e he c hc => hchars e he c hc ▸ hzero) hnodup hnodup' hapart)
  · intro hzero es es' hchars hnodup hnodup' hapart
    have hparted : Parted {key | ∀ c ∈ key.toList, c ∈ alphabet} :=
      parted_of_zero_not_mem fun key hkey hmem => hzero (hkey _ (zero_mem_utf8.mp hmem))
    exact faithful_of_parted hparted (fun e he => hchars e (List.mem_append_left _ he))
      (fun e he => hchars e (List.mem_append_right _ he)) hnodup hnodup' hapart

end Digest

namespace Resemblance

open Digest

def stored : Version := .live (utf8 "x") (.ofEntries [("A", 1)]) 1700009188369

def mark : Hash := ⟨0x26715D6A, 0xCEA0D5AC, 0x3A3F2C2D, 0x6C353E2B, 0x28622C30⟩

def twoKeys : List (Key × Hash) := [("a", mark), ("b", mark)]

def oneRemoved : List (Key × Hash) := [("a", mark)]

theorem removed_key_found : bucketOf "b" 1 ∈ (ofEntries 1 twoKeys).diff (ofEntries 1 oneRemoved) := by
  have hapart : DigestTree.TextsApart 1 (placed 1 twoKeys) (placed 1 oneRemoved) :=
    DigestTree.textsApart_of_texts (by decide +kernel) (by decide +kernel)
  have hfaithful := (digests_faithful_iff 1 {c | c ≠ '\x00'}).mpr (fun h => h rfl) twoKeys oneRemoved
    (by simp [twoKeys, oneRemoved]) (by decide) (by decide) hapart
  exact (hfaithful.mem_diff _).mpr ⟨("b", mark), rfl, by decide⟩

def oneKey : List (Key × Hash) := [("a\x00&q]jΠլ:?,-l5>+(b,0b", mark)]

theorem two_keys_pass_for_one :
    Version.setFingerprint [stored] = mark ∧
    (∀ m ∈ DigestTree.hashedTexts 0 (placed 0 twoKeys) ++ DigestTree.hashedTexts 0 (placed 0 oneKey),
      ∀ m' ∈ DigestTree.hashedTexts 0 (placed 0 twoKeys) ++ DigestTree.hashedTexts 0 (placed 0 oneKey),
        Sha1.hash m = Sha1.hash m' → m = m') ∧
    (∀ m ∈ DigestTree.hashedTexts 0 (placed 0 twoKeys) ++ DigestTree.hashedTexts 0 (placed 0 oneKey),
      Sha1.hash m ≠ Hash.zero) ∧
    (twoKeys.map Prod.fst).Nodup ∧ (oneKey.map Prod.fst).Nodup ∧
    (ofEntries 0 twoKeys).root = (ofEntries 0 oneKey).root ∧
    (ofEntries 0 twoKeys).diff (ofEntries 0 oneKey) = [] ∧ ∀ e ∈ twoKeys, e ∉ oneKey := by
  decide +kernel

end Resemblance

end QuorumStore
