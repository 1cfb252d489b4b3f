import QuorumStore.Bytes

namespace QuorumStore.Crc32

def polynomial : UInt32 := 0xEDB88320

def shift (r : UInt32) : UInt32 := if r &&& 1 = 1 then (r >>> 1) ^^^ polynomial else r >>> 1

def shifts : Nat → UInt32 → UInt32
  | 0, r => r
  | n + 1, r => shifts n (shift r)

def absorb (r : UInt32) (b : UInt8) : UInt32 := shifts 8 (r ^^^ b.toUInt32)

def checksum (m : Bytes) : UInt32 := m.foldl absorb 0xFFFFFFFF ^^^ 0xFFFFFFFF

-- the check value of the standard
example : checksum (utf8 "123456789") = 0xCBF43926 := by decide +kernel

end QuorumStore.Crc32
