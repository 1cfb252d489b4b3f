import QuorumStore.Json.Reader
import QuorumStore.Version

namespace QuorumStore

namespace VersionVector

def toJson (v : VersionVector) : Json :=
  .object [(utf8 "entries", .object (v.entries.map (fun e => (utf8 e.1, .ofNat e.2.toNat))))]

def ofJson? (j : Json) : Option VersionVector :=
  match j.members? ["entries"] with
  | some [some (.object ms)] => do
      let entries ← ms.mapM (fun m => do pure (← text? m.1, ← m.2.uint64?))
      pure ⟨SortedMap.ofList entries⟩
  | _ => none

end VersionVector

namespace Version

def toJson (v : Version) : Json :=
  .object
    [(utf8 "value", .array (v.value.map (fun b => .ofNat b.toNat))),
     (utf8 "vclock", v.vector.toJson),
     (utf8 "timestamp_ms", .ofNat v.timestamp.toNat),
     (utf8 "tombstone", .bool v.tombstone)]

def ofJson? (j : Json) : Option Version :=
  match j.members? ["value", "vclock", "timestamp_ms", "tombstone"] with
  | some [some value, some vector, some timestamp, tombstone] => do
      pure
        { value := ← value.bytes?
          vector := ← VersionVector.ofJson? vector
          timestamp := ← timestamp.uint64?
          tombstone := ← match tombstone with
            | none => some false
            | some b => b.bool? }
  | _ => none

end Version

structure Record where
  key : Key
  versions : List Version
  deriving DecidableEq

namespace Record

def removal (key : Key) : Record := ⟨key, []⟩

def isRemoval (r : Record) : Bool := r.versions.isEmpty

def toJson (r : Record) : Json :=
  .object [(utf8 "key", .ofText r.key), (utf8 "versions", .array (r.versions.map Version.toJson))]

def ofJson? (j : Json) : Option Record :=
  match j.members? ["key", "versions"] with
  | some [some key, some versions] => do
      pure ⟨← key.text?, ← (← versions.items?).mapM Version.ofJson?⟩
  | _ => none

def encode (r : Record) : Bytes := r.toJson.render

def decode? (b : Bytes) : Option Record := (Json.parse? b).bind ofJson?

end Record

end QuorumStore
