import Mathlib.Tactic.Ring
import QuorumStore.DigestTree

namespace QuorumStore

namespace Hash

theorem le_total (h k : Hash) : le h k = true ∨ le k h = true := by
  simp only [le, decide_eq_true_eq]
  exact Std.le_total

theorem le_trans (h k l : Hash) (hk : le h k = true) (hl : le k l = true) : le h l = true := by
  simp only [le, decide_eq_true_eq] at *
  exact Std.le_trans hk hl

theorem le_antisymm (h k : Hash) (hk : le h k = true) (kh : le k h = true) : h = k := by
  simp only [le, decide_eq_true_eq] at *
  have hwords : h.words = k.words := Std.le_antisymm hk kh
  cases h
  cases k
  simpa [words] using hwords

end Hash

theorem sortBy_eq_of_perm {α : Type} {le : α → α → Bool} {l l' : List α}
    (total : ∀ a b, le a b = true ∨ le b a = true)
    (trans : ∀ a b c, le a b = true → le b c = true → le a c = true)
    (antisymm : ∀ a ∈ l, ∀ b ∈ l, le a b = true → le b a = true → a = b) (h : l.Perm l') :
    sortBy le l = sortBy le l' := by
  have hperm : (sortBy le l).Perm (sortBy le l') :=
    (sortBy_perm le l).trans (h.trans (sortBy_perm le l').symm)
  apply List.Perm.eq_of_pairwise _ (pairwise_sortBy total trans l) (pairwise_sortBy total trans l') hperm
  intro a b ha hb
  exact antisymm a ((sortBy_perm le l).mem_iff.mp ha) b (h.mem_iff.mpr ((sortBy_perm le l').mem_iff.mp hb))

theorem Version.setFingerprint_perm {vs ws : List Version} (h : vs.Perm ws) :
    setFingerprint vs = setFingerprint ws := by
  simp only [setFingerprint, setMessage]
  rw [sortBy_eq_of_perm Hash.le_total Hash.le_trans (fun a _ b _ => Hash.le_antisymm a b)
    (h.map fingerprint)]

namespace DigestTree

def leafEntries : Nat → List DigestEntry → List (List DigestEntry)
  | 0, es => [es]
  | depth + 1, es =>
      leafEntries depth (es.filter (fun e => !e.bucket.testBit depth)) ++
        leafEntries depth (es.filter (fun e => e.bucket.testBit depth))

def childHashes : Nat → List DigestEntry → List (Hash × Hash)
  | 0, _ => []
  | depth + 1, es =>
      let left := es.filter (fun e => !e.bucket.testBit depth)
      let right := es.filter (fun e => e.bucket.testBit depth)
      ((build depth left).hash, (build depth right).hash) ::
        (childHashes depth left ++ childHashes depth right)

structure Collisionless (depth : Nat) (es es' : List DigestEntry) : Prop where
  leaves : ∀ l ∈ leafEntries depth es, ∀ l' ∈ leafEntries depth es',
    DigestEntry.bucketHash l = DigestEntry.bucketHash l' → l.Perm l'
  children : ∀ p ∈ childHashes depth es, ∀ p' ∈ childHashes depth es',
    joinHash p.1 p.2 = joinHash p'.1 p'.2 → p = p'

theorem Collisionless.symm {depth : Nat} {es es' : List DigestEntry} (h : Collisionless depth es es') :
    Collisionless depth es' es := by
  constructor
  · intro l hl l' hl' heq
    exact (h.leaves l' hl' l hl heq.symm).symm
  · intro p hp p' hp' heq
    exact (h.children p' hp' p hp heq.symm).symm

theorem diff_comm (place : Nat) (t t' : DigestTree) : diff place t t' = diff place t' t := by
  induction t generalizing place t' with
  | leaf h =>
    cases t' with
    | leaf h' => simp [diff, eq_comm]
    | node h' l' r' => simp [diff]
  | node h l r ihl ihr =>
    cases t' with
    | leaf h' => simp [diff]
    | node h' l' r' => simp [diff, eq_comm, ihl _ l', ihr _ r']

theorem diff_build (place depth : Nat) (es es' : List DigestEntry) :
    diff place (build (depth + 1) es) (build (depth + 1) es') =
      if (build (depth + 1) es).hash = (build (depth + 1) es').hash then []
      else
        diff (2 * place) (build depth (es.filter (fun e => !e.bucket.testBit depth)))
            (build depth (es'.filter (fun e => !e.bucket.testBit depth))) ++
          diff (2 * place + 1) (build depth (es.filter (fun e => e.bucket.testBit depth)))
            (build depth (es'.filter (fun e => e.bucket.testBit depth))) :=
  rfl

def inBucket (depth b : Nat) (es : List DigestEntry) : List DigestEntry :=
  es.filter (fun e => decide (e.bucket % 2 ^ depth = b))

theorem mem_inBucket {depth b : Nat} {es : List DigestEntry} {e : DigestEntry} :
    e ∈ inBucket depth b es ↔ e ∈ es ∧ e.bucket % 2 ^ depth = b := by
  rw [inBucket, List.mem_filter, decide_eq_true_eq]

@[simp] theorem inBucket_zero (es : List DigestEntry) : inBucket 0 0 es = es :=
  List.filter_eq_self.mpr fun e _ => by simp [Nat.mod_one]

theorem mod_two_pow_succ (bucket depth : Nat) :
    bucket % 2 ^ (depth + 1) = (bucket.testBit depth).toNat * 2 ^ depth + bucket % 2 ^ depth := by
  have hbit : (bucket.testBit depth).toNat = bucket / 2 ^ depth % 2 := by
    rw [Nat.testBit_eq_decide_div_mod_eq]
    rcases Nat.mod_two_eq_zero_or_one (bucket / 2 ^ depth) with h | h <;> simp [h]
  rw [hbit, Nat.mod_pow_succ]
  ring

theorem inBucket_left {depth b : Nat} (hb : b < 2 ^ depth) (es : List DigestEntry) :
    inBucket depth b (es.filter (fun e => !e.bucket.testBit depth)) = inBucket (depth + 1) b es := by
  rw [inBucket, inBucket, List.filter_filter]
  refine List.filter_congr fun e _ => ?_
  rw [mod_two_pow_succ]
  cases e.bucket.testBit depth with
  | false => simp
  | true =>
    have hne : ¬ 2 ^ depth + e.bucket % 2 ^ depth = b := by omega
    simp [hne]

theorem inBucket_right (depth b : Nat) (es : List DigestEntry) :
    inBucket depth b (es.filter (fun e => e.bucket.testBit depth)) =
      inBucket (depth + 1) (2 ^ depth + b) es := by
  rw [inBucket, inBucket, List.filter_filter]
  refine List.filter_congr fun e _ => ?_
  rw [mod_two_pow_succ]
  cases e.bucket.testBit depth with
  | false =>
    have hlt : e.bucket % 2 ^ depth < 2 ^ depth := Nat.mod_lt _ (Nat.two_pow_pos depth)
    have hne : ¬ e.bucket % 2 ^ depth = 2 ^ depth + b := by omega
    simp [hne]
  | true => simp

def JoinsApart : Nat → List DigestEntry → List DigestEntry → Prop
  | 0, _, _ => True
  | depth + 1, es, es' =>
      let left := es.filter (fun e => !e.bucket.testBit depth)
      let right := es.filter (fun e => e.bucket.testBit depth)
      let left' := es'.filter (fun e => !e.bucket.testBit depth)
      let right' := es'.filter (fun e => e.bucket.testBit depth)
      (joinHash (build depth left).hash (build depth right).hash =
          joinHash (build depth left').hash (build depth right').hash →
        (build depth left).hash = (build depth left').hash ∧
          (build depth right).hash = (build depth right').hash) ∧
      JoinsApart depth left left' ∧ JoinsApart depth right right'

theorem inBucket_mem_leafEntries {depth b : Nat} (hb : b < 2 ^ depth) (es : List DigestEntry) :
    inBucket depth b es ∈ leafEntries depth es := by
  induction depth generalizing b es with
  | zero =>
    obtain rfl : b = 0 := by omega
    simp [leafEntries]
  | succ depth ih =>
    by_cases hlt : b < 2 ^ depth
    · rw [← inBucket_left hlt]
      exact List.mem_append_left _ (ih hlt _)
    · obtain ⟨c, rfl⟩ := Nat.exists_eq_add_of_le (Nat.le_of_not_lt hlt)
      rw [← inBucket_right]
      exact List.mem_append_right _ (ih (by rw [Nat.pow_succ] at hb; omega) _)

theorem joinsApart_of_children {depth : Nat} {es es' : List DigestEntry}
    (h : ∀ p ∈ childHashes depth es, ∀ q ∈ childHashes depth es',
      joinHash p.1 p.2 = joinHash q.1 q.2 → p = q) : JoinsApart depth es es' := by
  induction depth generalizing es es' with
  | zero => trivial
  | succ depth ih =>
    refine ⟨fun heq => Prod.ext_iff.mp (h _ List.mem_cons_self _ List.mem_cons_self heq),
      ih fun p hp q hq => ?_, ih fun p hp q hq => ?_⟩
    · exact h p (List.mem_cons_of_mem _ (List.mem_append_left _ hp)) q
        (List.mem_cons_of_mem _ (List.mem_append_left _ hq))
    · exact h p (List.mem_cons_of_mem _ (List.mem_append_right _ hp)) q
        (List.mem_cons_of_mem _ (List.mem_append_right _ hq))

def Agree (depth : Nat) (es es' : List DigestEntry) (b : Nat) : Prop :=
  DigestEntry.bucketHash (inBucket depth b es) = DigestEntry.bucketHash (inBucket depth b es')

instance (depth : Nat) (es es' : List DigestEntry) (b : Nat) : Decidable (Agree depth es es' b) :=
  inferInstanceAs (Decidable (_ = _))

theorem agree_left {depth b : Nat} (hb : b < 2 ^ depth) (es es' : List DigestEntry) :
    Agree depth (es.filter (fun e => !e.bucket.testBit depth))
      (es'.filter (fun e => !e.bucket.testBit depth)) b ↔ Agree (depth + 1) es es' b := by
  rw [Agree, inBucket_left hb, inBucket_left hb, Agree]

theorem agree_right (depth b : Nat) (es es' : List DigestEntry) :
    Agree depth (es.filter (fun e => e.bucket.testBit depth))
      (es'.filter (fun e => e.bucket.testBit depth)) b ↔ Agree (depth + 1) es es' (2 ^ depth + b) := by
  rw [Agree, inBucket_right, inBucket_right, Agree]

@[simp] theorem agree_zero_iff {es es' : List DigestEntry} :
    Agree 0 es es' 0 ↔ DigestEntry.bucketHash es = DigestEntry.bucketHash es' := by
  simp [Agree]

theorem agree_succ_iff {depth : Nat} {es es' : List DigestEntry} :
    (∀ b < 2 ^ (depth + 1), Agree (depth + 1) es es' b) ↔
      (∀ b < 2 ^ depth, Agree depth (es.filter (fun e => !e.bucket.testBit depth))
          (es'.filter (fun e => !e.bucket.testBit depth)) b) ∧
        ∀ b < 2 ^ depth, Agree depth (es.filter (fun e => e.bucket.testBit depth))
          (es'.filter (fun e => e.bucket.testBit depth)) b := by
  have hpow : 2 ^ (depth + 1) = 2 ^ depth + 2 ^ depth := by ring
  constructor
  · intro h
    refine ⟨fun b hb => (agree_left hb es es').mpr (h b ?_), fun b hb =>
      (agree_right depth b es es').mpr (h _ ?_)⟩
    · omega
    · omega
  · rintro ⟨hleft, hright⟩ b hb
    by_cases hlt : b < 2 ^ depth
    · exact (agree_left hlt es es').mp (hleft b hlt)
    · obtain ⟨c, rfl⟩ := Nat.exists_eq_add_of_le (Nat.le_of_not_lt hlt)
      exact (agree_right depth c es es').mp (hright c (by omega))

theorem build_eq_of_agree {depth : Nat} {es es' : List DigestEntry}
    (h : ∀ b < 2 ^ depth, Agree depth es es' b) : build depth es = build depth es' := by
  induction depth generalizing es es' with
  | zero =>
    rw [build, build, agree_zero_iff.mp (h 0 (by decide))]
  | succ depth ih =>
    obtain ⟨hleft, hright⟩ := agree_succ_iff.mp h
    rw [build, build, ih hleft, ih hright]

theorem hash_build_eq_iff {depth : Nat} {es es' : List DigestEntry} (h : JoinsApart depth es es') :
    (build depth es).hash = (build depth es').hash ↔ ∀ b < 2 ^ depth, Agree depth es es' b := by
  refine ⟨fun heq => ?_, fun hagree => by rw [build_eq_of_agree hagree]⟩
  induction depth generalizing es es' with
  | zero =>
    intro b hb
    obtain rfl : b = 0 := by omega
    exact agree_zero_iff.mpr heq
  | succ depth ih =>
    obtain ⟨hjoin, hleft, hright⟩ := h
    obtain ⟨heqLeft, heqRight⟩ := hjoin heq
    exact agree_succ_iff.mpr ⟨ih hleft heqLeft, ih hright heqRight⟩

theorem diff_eq_filter {depth : Nat} {es es' : List DigestEntry} (h : JoinsApart depth es es')
    (place : Nat) : diff place (build depth es) (build depth es') =
      ((List.range (2 ^ depth)).filter (fun b => !decide (Agree depth es es' b))).map
        (place * 2 ^ depth + ·) := by
  induction depth generalizing es es' place with
  | zero =>
    by_cases heq : DigestEntry.bucketHash es = DigestEntry.bucketHash es' <;>
      simp [build, diff, heq]
  | succ depth ih =>
    obtain ⟨-, hleft, hright⟩ := id h
    rw [diff_build]
    split
    · rename_i heq
      have hagree := (hash_build_eq_iff h).mp heq
      rw [List.filter_eq_nil_iff.mpr fun b hb => by simpa using hagree b (List.mem_range.mp hb)]
      rfl
    · have hpow : 2 ^ (depth + 1) = 2 ^ depth + 2 ^ depth := by ring
      rw [ih hleft, ih hright, hpow, List.range_add, List.filter_append, List.map_append,
        List.filter_map, List.map_map]
      congr 1
      · rw [List.filter_congr fun b hb => by
          rw [decide_eq_decide.mpr (agree_left (List.mem_range.mp hb) es es')]]
        refine List.map_congr_left fun b _ => ?_
        ring
      · rw [List.filter_congr fun b _ => by rw [decide_eq_decide.mpr (agree_right depth b es es')]]
        refine List.map_congr_left fun b _ => ?_
        rw [Function.comp_apply]
        ring

theorem differ_of_mem {depth : Nat} {es es' : List DigestEntry} {e : DigestEntry}
    (h : Collisionless depth es es') (he : e ∈ es) (hne : e ∉ es') :
    (build depth es).hash ≠ (build depth es').hash ∧
      ∀ place, place * 2 ^ depth + e.bucket % 2 ^ depth ∈
        diff place (build depth es) (build depth es') := by
  have hlt : e.bucket % 2 ^ depth < 2 ^ depth := Nat.mod_lt _ (Nat.two_pow_pos depth)
  have hdiffers : ¬ Agree depth es es' (e.bucket % 2 ^ depth) := by
    intro hagree
    have hperm := h.leaves _ (inBucket_mem_leafEntries hlt es) _ (inBucket_mem_leafEntries hlt es') hagree
    exact hne (mem_inBucket.mp (hperm.mem_iff.mp (mem_inBucket.mpr ⟨he, rfl⟩))).1
  refine ⟨fun heq => hdiffers ((hash_build_eq_iff (joinsApart_of_children h.children)).mp heq _ hlt), fun place => ?_⟩
  rw [diff_eq_filter (joinsApart_of_children h.children)]
  refine List.mem_map_of_mem (List.mem_filter.mpr ⟨List.mem_range.mpr hlt, ?_⟩)
  simpa using hdiffers

end DigestTree

end QuorumStore
