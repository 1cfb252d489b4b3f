import QuorumStore.Hash.Sha1
import QuorumStore.Sorting
import QuorumStore.Version

namespace QuorumStore.Version

def message (v : Version) : Bytes :=
  v.vector.entries.flatMap (fun e => utf8 e.1 ++ 0 :: bigEndian64 e.2) ++
    bigEndian64 v.timestamp ++ [if v.tombstone then 1 else 0] ++ v.value

def fingerprint (v : Version) : Hash := Sha1.hash v.message

def setMessage (vs : List Version) : Bytes :=
  (sortBy Hash.le (vs.map fingerprint)).flatMap Hash.bytes

def setFingerprint (vs : List Version) : Hash := Sha1.hash (setMessage vs)

end QuorumStore.Version
