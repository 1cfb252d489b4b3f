import QuorumStore.Hash.Sha1
import QuorumStore.Version

namespace QuorumStore

abbrev Token := UInt64

def Token.ofText (s : String) : Token := (Sha1.hash (utf8 s)).high64

def Token.bucket (t : Token) (depth : Nat) : Nat := t.toNat >>> (64 - depth)

def bucketOf (key : Key) (depth : Nat) : Nat := (Token.ofText key).bucket depth

theorem Token.bucket_lt (t : Token) {depth : Nat} (h : depth ≤ 64) : t.bucket depth < 1 <<< depth := by
  rw [bucket, Nat.shiftRight_eq_div_pow, Nat.one_shiftLeft]
  apply Nat.div_lt_of_lt_mul
  rw [← Nat.pow_add, Nat.sub_add_cancel h]
  exact t.toNat_lt

end QuorumStore
