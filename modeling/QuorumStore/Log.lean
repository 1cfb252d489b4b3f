import QuorumStore.Bytes.Hex
import QuorumStore.Hash.Crc32
import QuorumStore.Record

namespace QuorumStore

inductive LogError where
  | mismatch (entry : Nat) (stored computed : UInt32)
  | undecodable (entry : Nat)
  | unreadable
  deriving DecidableEq

def checksumText (w : UInt32) : String := "0x" ++ Hex.encode (bigEndian32 w)

def LogError.message : LogError → String
  | .mismatch entry stored computed =>
      "WAL CRC mismatch at entry " ++ toString entry ++ ": expected " ++ checksumText stored ++
        ", got " ++ checksumText computed
  | .undecodable entry => "WAL entry " ++ toString entry ++ " is not a record"
  | .unreadable => "WAL file cannot be read"

namespace Log

def frameOf (payload : Bytes) : Bytes :=
  littleEndian32 (Crc32.checksum payload) ++ littleEndian32 (UInt32.ofNat payload.length) ++
    payload ++ [0x0A]

def frame (r : Record) : Bytes := frameOf r.encode

inductive Head where
  | torn
  | mismatch (stored computed : UInt32)
  | undecodable
  | whole (record : Record) (rest : Bytes)

def head (log : Bytes) : Head :=
  match log with
  | c₀ :: c₁ :: c₂ :: c₃ :: l₀ :: l₁ :: l₂ :: l₃ :: body =>
      let stored := word32 c₃ c₂ c₁ c₀
      let length := (word32 l₃ l₂ l₁ l₀).toNat
      if body.length ≤ length then .torn
      else
        let payload := body.take length
        if Crc32.checksum payload = stored then
          match Record.decode? payload with
          | none => .undecodable
          | some r => .whole r (body.drop (length + 1))
        else .mismatch stored (Crc32.checksum payload)
  | _ => .torn

def scan : Nat → Nat → Bytes → Except LogError (List Record)
  | 0, _, _ => .ok []
  | fuel + 1, entry, log =>
      match head log with
      | .torn => .ok []
      | .mismatch stored computed => .error (.mismatch entry stored computed)
      | .undecodable => .error (.undecodable entry)
      | .whole r rest => (scan fuel (entry + 1) rest).map (r :: ·)

-- no frame is empty, so there are no more frames than bytes
def replay (log : Bytes) : Except LogError (List Record) := scan log.length 0 log

@[simp] theorem length_frame (r : Record) : (frame r).length = r.encode.length + 9 := by
  simp [frame, frameOf, littleEndian32]

end Log

inductive LogFile where
  | absent
  | directory
  | content (log : Bytes)
  deriving DecidableEq

namespace LogFile

def replay : LogFile → Except LogError (List Record)
  | .absent => .ok []
  | .directory => .error .unreadable
  | .content log => Log.replay log

def open? : LogFile → Except LogError Bytes
  | .absent => .ok []
  | .directory => .error .unreadable
  | .content log => .ok log

def bytes : LogFile → Bytes
  | .content log => log
  | _ => []

def append (f : LogFile) (r : Record) : LogFile := .content (f.bytes ++ Log.frame r)

end LogFile

inductive SyncPolicy where
  | always
  | batch
  | none
  deriving DecidableEq, Repr

namespace SyncPolicy

def words : List String := ["always", "batch", "none"]

def parse? (s : String) : Option SyncPolicy :=
  -- no letter beyond ASCII has one of these words' letters for its lower case
  let word := s.toLower
  if word = "always" then some .always
  else if word = "batch" then some .batch
  else if word = "none" then some .none
  else Option.none

end SyncPolicy

end QuorumStore
