import QuorumStore.Bytes

namespace QuorumStore

structure Hash where
  a : UInt32
  b : UInt32
  c : UInt32
  d : UInt32
  e : UInt32
  deriving DecidableEq

namespace Hash

def zero : Hash := ⟨0, 0, 0, 0, 0⟩

instance : Inhabited Hash := ⟨zero⟩

def words (h : Hash) : List UInt32 := [h.a, h.b, h.c, h.d, h.e]

def bytes (h : Hash) : Bytes := h.words.flatMap bigEndian32

def le (h k : Hash) : Bool := decide (h.words ≤ k.words)

def ofBytes? : Bytes → Option Hash
  | [a₀, a₁, a₂, a₃, b₀, b₁, b₂, b₃, c₀, c₁, c₂, c₃, d₀, d₁, d₂, d₃, e₀, e₁, e₂, e₃] =>
      some ⟨word32 a₀ a₁ a₂ a₃, word32 b₀ b₁ b₂ b₃, word32 c₀ c₁ c₂ c₃, word32 d₀ d₁ d₂ d₃,
        word32 e₀ e₁ e₂ e₃⟩
  | _ => none

def high64 (h : Hash) : UInt64 := (h.a.toUInt64 <<< 32) ||| h.b.toUInt64

end Hash

namespace Sha1

def rotate (w : UInt32) (n : UInt32) : UInt32 := (w <<< n) ||| (w >>> (32 - n))

def start : Hash := ⟨0x67452301, 0xEFCDAB89, 0x98BADCFE, 0x10325476, 0xC3D2E1F0⟩

def mix (t : Nat) (b c d : UInt32) : UInt32 :=
  if t < 20 then ((b &&& c) ||| (~~~ b &&& d)) + 0x5A827999
  else if t < 40 then (b ^^^ c ^^^ d) + 0x6ED9EBA1
  else if t < 60 then ((b &&& c) ||| (b &&& d) ||| (c &&& d)) + 0x8F1BBCDC
  else (b ^^^ c ^^^ d) + 0xCA62C1D6

def round (t : Nat) (w : UInt32) (s : Hash) : Hash :=
  ⟨rotate s.a 5 + mix t s.b s.c s.d + s.e + w, s.a, rotate s.b 30, s.c, s.d⟩

def next (window : List UInt32) : UInt32 :=
  rotate (window.getD 13 0 ^^^ window.getD 8 0 ^^^ window.getD 2 0 ^^^ window.getD 0 0) 1

def rounds : Nat → List UInt32 → Hash → Hash
  | 0, _, s => s
  | n + 1, window, s =>
      rounds n (window.tail ++ [next window]) (round (79 - n) (window.headD 0) s)

def compress (s : Hash) (block : List UInt32) : Hash :=
  let r := rounds 80 block s
  ⟨s.a + r.a, s.b + r.b, s.c + r.c, s.d + r.d, s.e + r.e⟩

def wordsOf : Bytes → List UInt32
  | a :: b :: c :: d :: r => word32 a b c d :: wordsOf r
  | _ => []

def padding (length : Nat) : Bytes :=
  0x80 :: List.replicate ((119 - length % 64) % 64) 0 ++ bigEndian64 (UInt64.ofNat (8 * length))

def absorb : Nat → Hash → List UInt32 → Hash
  | 0, s, _ => s
  | n + 1, s, ws => absorb n (compress s (ws.take 16)) (ws.drop 16)

def hash (m : Bytes) : Hash :=
  let ws := wordsOf (m ++ padding m.length)
  absorb (ws.length / 16) start ws

-- the first example of the standard
example : hash (utf8 "abc") =
    ⟨0xA9993E36, 0x4706816A, 0xBA3E2571, 0x7850C26C, 0x9CD0D89D⟩ := by decide +kernel

end Sha1

end QuorumStore
