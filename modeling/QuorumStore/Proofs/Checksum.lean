import Mathlib.Data.Nat.Bitwise
import QuorumStore.Hash.Crc32

namespace QuorumStore.Crc32

theorem lowest_eq_one_iff (x : UInt32) : x &&& 1 = 1 ↔ x.toNat % 2 = 1 := by
  rw [← UInt32.toNat_inj, UInt32.toNat_and, show (1 : UInt32).toNat = 1 from rfl, Nat.and_one_is_mod]

theorem shift_xor (x y : UInt32) : shift (x ^^^ y) = shift x ^^^ shift y := by
  unfold shift
  simp only [lowest_eq_one_iff, UInt32.toNat_xor, Nat.xor_mod_two_eq_one, UInt32.shiftRight_xor]
  by_cases hx : x.toNat % 2 = 1 <;> by_cases hy : y.toNat % 2 = 1
  · have hcancel : x >>> 1 ^^^ polynomial ^^^ (y >>> 1 ^^^ polynomial) =
        x >>> 1 ^^^ y >>> 1 ^^^ (polynomial ^^^ polynomial) := by ac_rfl
    simp only [hx, hy, not_true, if_true, if_false]
    rw [hcancel, UInt32.xor_self, UInt32.xor_zero]
  · simp only [hx, hy, iff_false, not_true, not_false_iff, if_true, if_false]
    ac_rfl
  · simp only [hx, hy, false_iff, not_true, not_false_iff, if_true, if_false]
    ac_rfl
  · simp only [hx, hy, not_true, if_false]

theorem shift_eq_zero {x : UInt32} (h : shift x = 0) : x = 0 := by
  have htoNat : (x >>> 1).toNat = x.toNat / 2 := by
    rw [UInt32.toNat_shiftRight, show (1 : UInt32).toNat % 32 = 1 from rfl, Nat.shiftRight_eq_div_pow]
  unfold shift at h
  split at h
  · have heq := congrArg UInt32.toNat (UInt32.xor_eq_zero_iff.mp h)
    rw [htoNat, show polynomial.toNat = 0xEDB88320 from rfl] at heq
    have := x.toNat_lt_size
    simp only [UInt32.size] at this
    omega
  · rename_i heven
    rw [lowest_eq_one_iff] at heven
    have heq := congrArg UInt32.toNat h
    rw [htoNat, show (0 : UInt32).toNat = 0 from rfl] at heq
    refine UInt32.toNat_inj.mp ?_
    rw [show (0 : UInt32).toNat = 0 from rfl]
    omega

theorem shifts_xor (n : Nat) (x y : UInt32) : shifts n (x ^^^ y) = shifts n x ^^^ shifts n y := by
  induction n generalizing x y with
  | zero => rfl
  | succ n ih => rw [shifts, shift_xor, ih, shifts, shifts]

theorem shifts_eq_zero {n : Nat} {x : UInt32} (h : shifts n x = 0) : x = 0 := by
  induction n generalizing x with
  | zero => exact h
  | succ n ih => exact shift_eq_zero (ih h)

theorem absorb_xor (r s : UInt32) (b c : UInt8) :
    absorb r b ^^^ absorb s c = absorb (r ^^^ s) (b ^^^ c) := by
  have hbytes : (b ^^^ c).toUInt32 = b.toUInt32 ^^^ c.toUInt32 := UInt8.toUInt32_xor b c
  rw [absorb, absorb, ← shifts_xor, absorb, hbytes]
  refine congrArg (shifts 8) ?_
  ac_rfl

def register (r : UInt32) (m : Bytes) : UInt32 := m.foldl absorb r

theorem register_append (r : UInt32) (m m' : Bytes) :
    register r (m ++ m') = register (register r m) m' :=
  List.foldl_append

theorem register_xor {m m' : Bytes} (h : m.length = m'.length) (r s : UInt32) :
    register r m ^^^ register s m' = register (r ^^^ s) (List.zipWith (· ^^^ ·) m m') := by
  induction m generalizing m' r s with
  | nil =>
    obtain rfl : m' = [] := List.length_eq_zero_iff.mp h.symm
    rfl
  | cons b m ih =>
    cases m' with
    | nil => cases h
    | cons c m' =>
      have hlength : m.length = m'.length := Nat.succ.inj h
      simp only [register, List.foldl_cons, List.zipWith_cons_cons] at ih ⊢
      rw [ih hlength, absorb_xor]

theorem absorb_injective {r s : UInt32} {b : UInt8} (h : absorb r b = absorb s b) : r = s := by
  have hzero : absorb (r ^^^ s) (b ^^^ b) = 0 := by
    rw [← absorb_xor, h, UInt32.xor_self]
  rw [absorb, UInt8.xor_self, show (0 : UInt8).toUInt32 = 0 from rfl, UInt32.xor_zero] at hzero
  exact UInt32.xor_eq_zero_iff.mp (shifts_eq_zero hzero)

theorem register_injective {r s : UInt32} {m : Bytes} (h : register r m = register s m) : r = s := by
  induction m generalizing r s with
  | nil => exact h
  | cons b m ih => exact absorb_injective (ih h)

theorem checksum_eq (m : Bytes) : checksum m = register 0xFFFFFFFF m ^^^ 0xFFFFFFFF := rfl

theorem checksum_xor {before x y : Bytes} (hlength : x.length = y.length) :
    checksum (before ++ x) ^^^ checksum (before ++ y) = register 0 (List.zipWith (· ^^^ ·) x y) := by
  have hxor := register_xor hlength (register 0xFFFFFFFF before) (register 0xFFFFFFFF before)
  rw [UInt32.xor_self, ← register_append, ← register_append] at hxor
  rw [← hxor, checksum_eq, checksum_eq]
  calc
    _ = register 0xFFFFFFFF (before ++ x) ^^^ register 0xFFFFFFFF (before ++ y) ^^^
        (0xFFFFFFFF ^^^ 0xFFFFFFFF) := by ac_rfl
    _ = _ := by rw [UInt32.xor_self, UInt32.xor_zero]

theorem checksum_ne {before after x y : Bytes} (hlength : x.length = y.length)
    (hne : register 0 (List.zipWith (· ^^^ ·) x y) ≠ 0) :
    checksum (before ++ (x ++ after)) ≠ checksum (before ++ (y ++ after)) := by
  intro h
  rw [checksum_eq, checksum_eq, UInt32.xor_left_inj] at h
  simp only [register_append] at h
  refine hne ?_
  have hxor := register_xor hlength (register 0xFFFFFFFF before) (register 0xFFFFFFFF before)
  rw [register_injective h, UInt32.xor_self, UInt32.xor_self] at hxor
  exact hxor.symm

theorem checksum_set_ne {m : Bytes} {i : Nat} {b : UInt8} (hi : i < m.length) (hb : m[i]? ≠ some b) :
    checksum (m.set i b) ≠ checksum m := by
  have hm : m = m.take i ++ ([m[i]] ++ m.drop (i + 1)) := by simp
  have hset : m.set i b = m.take i ++ ([b] ++ m.drop (i + 1)) := by
    rw [List.set_eq_take_append_cons_drop, if_pos hi]
    rfl
  rw [hset]
  conv_rhs => rw [hm]
  refine checksum_ne rfl fun hzero => hb ?_
  -- a single byte leaves a trace in an empty register unless it is zero
  have hbyte : (b ^^^ m[i]).toUInt32 = 0 := by
    rw [← UInt32.zero_xor (a := (b ^^^ m[i]).toUInt32)]
    exact shifts_eq_zero hzero
  have hxor : b ^^^ m[i] = 0 := UInt8.toNat_inj.mp (by simpa using congrArg UInt32.toNat hbyte)
  rw [List.getElem?_eq_getElem hi, UInt8.xor_eq_zero_iff.mp hxor]

end QuorumStore.Crc32
